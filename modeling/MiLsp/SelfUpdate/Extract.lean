import Mathlib.Algebra.Ring.Int.Defs
import MiLsp.Library.Attempt
import MiLsp.Library.Paths
import MiLsp.Library.Strings

namespace MiLsp.SelfUpdate

open Library Attempt Strings List

def txMaxEntry : ℤ := 256 * 2 ^ 20

def txMaxExpanded : ℤ := 2 * 2 ^ 30

structure FileMode where
  dir : Bool := false
  special : Bool := false

def FileMode.isRegular (mode : FileMode) : Bool := !mode.dir && !mode.special

inductive Typeflag
  | reg
  | regA
  | dir
  | other
deriving DecidableEq

structure ArchiveEntry where
  name : List Char
  mode : FileMode := {}
  size : ℤ
  content : Option Bytes

structure TarStream where
  entries : List (Typeflag × ArchiveEntry)
  eof : Bool

structure ArchiveFile where
  zip : Option (List ArchiveEntry)
  tar : Option TarStream

structure Platform where
  windows : Bool
  osName : List Char
  arch : List Char
  toLower : List Char → List Char

inductive ExtractError
  | reader
  | format
  | absent
  | badPath
  | duplicatePath
  | badEntry
  | sizeLimit
  | ambiguous
  | unexpected
  | mismatch

def dropSuffix (s suffix : List Char) : List Char :=
  if suffix.isSuffixOf s then s.take (s.length - suffix.length) else s

def txArchiveName (filename : List Char) : List Char :=
  if ".tar.gz".toList.isSuffixOf filename then dropSuffix filename ".tar.gz".toList
  else dropSuffix filename ".zip".toList

def baseName (path : List Char) : List Char :=
  let trimmed := path.reverse.dropWhile (· = '/')
  if path = [] then Paths.dot
  else if trimmed = [] then ['/']
  else (trimmed.takeWhile (· ≠ '/')).reverse

def Platform.cli (p : Platform) : List Char :=
  "mi-lsp".toList ++ if p.windows then ".exe".toList else []

def Platform.canonical (p : Platform) (version : List Char) : List Char :=
  "mi-lsp_".toList ++ (if ['v'].isPrefixOf version then version.drop 1 else version) ++ '_' ::
    (if p.windows then "win".toList else p.osName) ++ '-' ::
    (if p.arch = "amd64".toList then "x64".toList else p.arch)

section Check

variable (p : Platform) (filename version : List Char)

def Platform.selects (name : List Char) : Bool :=
  name = p.cli ∨ txArchiveName filename = p.canonical version ∧
    name = txArchiveName filename ++ '/' :: p.cli

structure Scan where
  seen : List (List Char) := []
  found : Bool := false
  total : ℤ := 0
  out : Bytes := []

def badName (name : List Char) : Bool :=
  name = [] ∨ '\\' ∈ name ∨ ['/'].isPrefixOf name ∨ ':' ∈ name ∨
    Paths.clean name ≠ dropSuffix name ['/'] ∨ name = Paths.dotDot ∨ "../".toList.isPrefixOf name

def checkEntry (st : Scan) (e : ArchiveEntry) : Except ExtractError Scan :=
  let key := dropSuffix e.name ['/']
  let key := if p.windows then p.toLower key else key
  if badName e.name then .error .badPath
  else if key ∈ st.seen then .error .duplicatePath
  else if (e.mode.dir || e.mode.special) && !e.mode.dir then .error .badEntry
  else if e.size < 0 ∨ txMaxEntry < e.size ∨ txMaxExpanded - e.size < st.total then
    .error .sizeLimit
  else
    let st := { st with seen := key :: st.seen, total := st.total + e.size }
    if p.selects filename version e.name then
      if st.found || !e.mode.isRegular then .error .ambiguous else .ok { st with found := true }
    else if baseName e.name = p.cli then .error .unexpected
    else .ok st

def limited (content : Bytes) : Bytes := content.take (txMaxEntry.toNat + 1)

def copyEntry (readError : ExtractError) (expected : ℤ → Bool) (st : Scan) (e : ArchiveEntry) :
    Except ExtractError Scan := do
  let content ← orElse readError e.content
  if expected (limited content).length then .ok { st with out := st.out ++ limited content }
  else .error .mismatch

def zipStep (st : Scan) (e : ArchiveEntry) : Except ExtractError Scan :=
  if txMaxEntry < e.size then .error .sizeLimit
  else do
    let st ← checkEntry p filename version st e
    if p.selects filename version e.name then
      copyEntry .reader (fun n ↦ n = e.size ∧ n ≤ txMaxEntry) st e
    else .ok st

def tarEntry (entry : Typeflag × ArchiveEntry) : ArchiveEntry :=
  { entry.2 with mode := { entry.2.mode with dir := entry.2.mode.dir || entry.1 = .dir } }

def tarStep (st : Scan) (entry : Typeflag × ArchiveEntry) : Except ExtractError Scan :=
  if entry.1 = .other then .error .badEntry
  else do
    let st ← checkEntry p filename version st (tarEntry entry)
    if p.selects filename version (tarEntry entry).name then
      copyEntry .mismatch (fun n ↦ n = (tarEntry entry).size) st (tarEntry entry)
    else .ok st

def scan (f : ArchiveFile) : Except ExtractError Scan :=
  if ".zip".toList.isSuffixOf filename then do
    let entries ← orElse .reader f.zip
    entries.foldlM (zipStep p filename version) {}
  else if ".tar.gz".toList.isSuffixOf filename then do
    let stream ← orElse .reader f.tar
    let st ← stream.entries.foldlM (tarStep p filename version) {}
    if stream.eof then .ok st else .error .reader
  else .error .format

def txExtract (f : ArchiveFile) : Except ExtractError Bytes := do
  let st ← scan p filename version f
  if st.found then .ok st.out else .error .absent

def ArchiveFile.entries (f : ArchiveFile) : Option (List ArchiveEntry) :=
  if ".zip".toList.isSuffixOf filename then f.zip
  else if ".tar.gz".toList.isSuffixOf filename then f.tar.map fun s ↦ s.entries.map tarEntry
  else none

end Check

section Vetted

variable {p : Platform} {filename version : List Char}

structure Accepted (p : Platform) (filename version : List Char) (st : Scan) (e : ArchiveEntry)
    (st' : Scan) : Prop where
  size : 0 ≤ e.size ∧ e.size ≤ txMaxEntry
  total : st'.total = st.total + e.size ∧ st'.total ≤ txMaxExpanded
  effect :
    (p.selects filename version e.name = true ∧ st.found = false ∧ e.mode.isRegular = true ∧
      st'.found = true ∧ ∃ content : Bytes, e.content = some content ∧ content.length = e.size ∧
        st'.out = st.out ++ content) ∨
    (baseName e.name ≠ p.cli ∧ st'.found = st.found ∧ st'.out = st.out)

variable {st st' : Scan} {e : ArchiveEntry}

theorem checkEntry_eq_ok (h : checkEntry p filename version st e = .ok st') :
    (0 ≤ e.size ∧ e.size ≤ txMaxEntry) ∧
      (st'.total = st.total + e.size ∧ st'.total ≤ txMaxExpanded) ∧ st'.out = st.out ∧
      (p.selects filename version e.name = true ∧ st.found = false ∧ e.mode.isRegular = true ∧
        st'.found = true ∨
      p.selects filename version e.name = false ∧ baseName e.name ≠ p.cli ∧
        st'.found = st.found) := by
  rw [checkEntry] at h
  dsimp only at h
  generalize (if p.windows then p.toLower (dropSuffix e.name ['/'])
    else dropSuffix e.name ['/']) = key at h
  split_ifs at h with hname hseen hmode hsize hselects hbad hbase
  all_goals obtain rfl := Except.ok.inj h
  all_goals refine ⟨by omega, ⟨rfl, by dsimp only; omega⟩, rfl, ?_⟩
  · simp only [Bool.or_eq_true, Bool.not_eq_true', not_or, Bool.not_eq_true,
      Bool.not_eq_false] at hbad
    exact .inl ⟨hselects, hbad.1, hbad.2, rfl⟩
  · exact .inr ⟨by simpa using hselects, hbase, rfl⟩

section

variable {readError : ExtractError} {expected : ℤ → Bool}
  (hexpected : ∀ n, expected n = true → n = e.size)
include hexpected

theorem copyEntry_eq_ok (hsize : e.size ≤ txMaxEntry)
    (h : copyEntry readError expected st e = .ok st') :
    ∃ content : Bytes, e.content = some content ∧ content.length = e.size ∧
      st' = { st with out := st.out ++ content } := by
  obtain ⟨content, hcontent, h⟩ := bind_eq_ok.mp h
  rw [orElse_eq_ok] at hcontent
  split_ifs at h with hcount
  have hlength := hexpected _ hcount
  -- a content over the limit would have been cut one byte above it
  have hwhole : limited content = content := by
    rw [limited] at hlength ⊢
    rw [take_eq_self_iff]
    rw [length_take] at hlength
    omega
  rw [hwhole] at h hlength
  exact ⟨content, hcontent, hlength, (Except.ok.inj h).symm⟩

theorem accepted_of_check (h : (do
      let st ← checkEntry p filename version st e
      if p.selects filename version e.name then copyEntry readError expected st e
      else .ok st) = .ok st') : Accepted p filename version st e st' := by
  obtain ⟨st₁, hcheck, h⟩ := bind_eq_ok.mp h
  obtain ⟨hsize, htotal, hout, hsel | hsel⟩ := checkEntry_eq_ok hcheck
  · obtain ⟨hselects, hfound, hregular, hfound'⟩ := hsel
    rw [if_pos hselects] at h
    obtain ⟨content, hcontent, hlength, rfl⟩ := copyEntry_eq_ok hexpected hsize.2 h
    exact ⟨hsize, htotal, .inl ⟨hselects, hfound, hregular, hfound', content, hcontent, hlength,
      congrArg (· ++ content) hout⟩⟩
  · obtain ⟨hselects, hbase, hfound⟩ := hsel
    rw [if_neg (by simp [hselects])] at h
    obtain rfl := Except.ok.inj h
    exact ⟨hsize, htotal, .inr ⟨hbase, hfound, hout⟩⟩

end

theorem zipStep_accepted
    (h : zipStep p filename version st e = .ok st') : Accepted p filename version st e st' := by
  rw [zipStep] at h
  by_cases hsize : txMaxEntry < e.size
  · rw [if_pos hsize] at h
    cases h
  · rw [if_neg hsize] at h
    exact accepted_of_check (fun n hn ↦ (of_decide_eq_true hn).1) h

theorem tarStep_accepted {entry : Typeflag × ArchiveEntry}
    (h : tarStep p filename version st entry = .ok st') :
    Accepted p filename version st (tarEntry entry) st' := by
  rw [tarStep] at h
  by_cases hflag : entry.1 = .other
  · rw [if_pos hflag] at h
    cases h
  · rw [if_neg hflag] at h
    exact accepted_of_check (fun n hn ↦ of_decide_eq_true hn) h

structure Chosen (p : Platform) (version : List Char) (entries : List ArchiveEntry) (out : Bytes)
    (before : List ArchiveEntry) (e : ArchiveEntry) (after : List ArchiveEntry) : Prop where
  entries_eq : entries = before ++ e :: after
  named : e.name = p.cli ∨ e.name = p.canonical version ++ '/' :: p.cli
  regular : e.mode.isRegular = true
  content : e.content = some out
  length : out.length = e.size
  unique : ∀ x ∈ before ++ after, baseName x.name ≠ p.cli

/-- The written bytes are the content of the one executable, within all limits. -/
structure Vetted (p : Platform) (version : List Char) (entries : List ArchiveEntry) (out : Bytes) :
    Prop where
  chosen : ∃ before e after, Chosen p version entries out before e after
  sizes : ∀ e ∈ entries, 0 ≤ e.size ∧ e.size ≤ txMaxEntry
  total : (entries.map (·.size)).sum ≤ txMaxExpanded

structure Scanned (p : Platform) (version : List Char) (entries : List ArchiveEntry) (st : Scan) :
    Prop where
  sizes : ∀ e ∈ entries, 0 ≤ e.size ∧ e.size ≤ txMaxEntry
  sum : st.total = (entries.map (·.size)).sum
  total : st.total ≤ txMaxExpanded
  absent : st.found = false → st.out = [] ∧ ∀ e ∈ entries, baseName e.name ≠ p.cli
  present : st.found = true → ∃ before e after, Chosen p version entries st.out before e after

theorem Scanned.snoc {entries : List ArchiveEntry} (h : Scanned p version entries st)
    (hstep : Accepted p filename version st e st') : Scanned p version (entries ++ [e]) st' := by
  have hsum : st'.total = ((entries ++ [e]).map (·.size)).sum := by
    rw [hstep.total.1, h.sum]
    simp
  refine ⟨fun x hx ↦ ?_, hsum, hstep.total.2, fun hfound ↦ ?_, fun hfound ↦ ?_⟩
  · rcases mem_append.mp hx with hx | hx
    · exact h.sizes x hx
    · rw [mem_singleton.mp hx]
      exact hstep.size
  · rcases hstep.effect with ⟨-, -, -, hfound', -⟩ | ⟨hbase, hsame, hout⟩
    · rw [hfound] at hfound'
      cases hfound'
    · obtain ⟨hnil, hothers⟩ := h.absent (hsame ▸ hfound)
      refine ⟨hout.trans hnil, fun x hx ↦ ?_⟩
      rcases mem_append.mp hx with hx | hx
      · exact hothers x hx
      · rwa [mem_singleton.mp hx]
  · rcases hstep.effect with ⟨hselects, hfirst, hregular, -, content, hcontent, hlength, hout⟩ |
      ⟨hbase, hsame, hout⟩
    · obtain ⟨hnil, hothers⟩ := h.absent hfirst
      rw [hnil, nil_append] at hout
      have hnamed := (of_decide_eq_true hselects).imp_right fun ⟨hwrapper, hname⟩ ↦
        hname.trans (congrArg (· ++ '/' :: p.cli) hwrapper)
      exact ⟨entries, e, [], rfl, hnamed, hregular, hout ▸ hcontent, hout ▸ hlength,
        by simpa using hothers⟩
    · obtain ⟨before, x, after, hx⟩ := h.present (hsame ▸ hfound)
      refine ⟨before, x, after ++ [e], by simp [hx.entries_eq], hx.named, hx.regular,
        hout ▸ hx.content, hout ▸ hx.length, fun y hy ↦ ?_⟩
      rw [← append_assoc, mem_append, mem_singleton] at hy
      rcases hy with hy | rfl
      · exact hx.unique y hy
      · exact hbase

theorem scanned_foldlM {α : Type} {step : Scan → α → Except ExtractError Scan}
    {view : α → ArchiveEntry}
    (hstep : ∀ st a st', step st a = .ok st' → Accepted p filename version st (view a) st')
    {l : List α} (h : l.foldlM step {} = .ok st) :
    Scanned p version (l.map view) st := by
  refine foldlM_induction (I := fun l st ↦ Scanned p version (l.map view) st)
    (fun before a after s₁ s₂ _ _ hscan hok ↦ ?_) ?_ h
  · rw [map_append]
    exact hscan.snoc (hstep s₁ a s₂ hok)
  · exact ⟨by simp, rfl, by decide, fun _ ↦ ⟨rfl, by simp⟩, fun h ↦ by cases h⟩

/-- What is extracted from an archive of either format is its one vetted executable. -/
theorem txExtract_vetted {f : ArchiveFile} {out : Bytes}
    (h : txExtract p filename version f = .ok out) :
    ∃ entries, f.entries filename = some entries ∧ Vetted p version entries out := by
  obtain ⟨st, hscan, h⟩ := bind_eq_ok.mp h
  split_ifs at h with hfound
  obtain rfl := Except.ok.inj h
  suffices hentries : ∃ entries, f.entries filename = some entries ∧
      Scanned p version entries st by
    obtain ⟨entries, heq, hscanned⟩ := hentries
    exact ⟨entries, heq, hscanned.present hfound, hscanned.sizes, hscanned.sum ▸ hscanned.total⟩
  rw [scan] at hscan
  rw [ArchiveFile.entries]
  by_cases hzip : ".zip".toList.isSuffixOf filename = true
  · rw [if_pos hzip] at hscan ⊢
    obtain ⟨entries, hentries, hscan⟩ := bind_eq_ok.mp hscan
    refine ⟨entries, orElse_eq_ok.mp hentries, ?_⟩
    have hscanned := scanned_foldlM (fun _ (e : ArchiveEntry) _ h ↦ zipStep_accepted h) hscan
    rwa [map_id'] at hscanned
  rw [if_neg hzip] at hscan ⊢
  by_cases htar : ".tar.gz".toList.isSuffixOf filename = true
  · rw [if_pos htar] at hscan ⊢
    obtain ⟨stream, hstream, hscan⟩ := bind_eq_ok.mp hscan
    obtain ⟨st₁, hfold, hscan⟩ := bind_eq_ok.mp hscan
    split_ifs at hscan
    obtain rfl := Except.ok.inj hscan
    rw [orElse_eq_ok] at hstream
    exact ⟨_, congrArg (Option.map _) hstream,
      scanned_foldlM (fun _ _ _ h ↦ tarStep_accepted h) hfold⟩
  · rw [if_neg htar] at hscan
    cases hscan

def linux : Platform := ⟨false, "linux".toList, "amd64".toList, id⟩

def sampleZip : ArchiveFile where
  zip := some [⟨"README".toList, {}, 1, some [35]⟩, ⟨"mi-lsp".toList, {}, 2, some [77, 90]⟩]
  tar := none

theorem sampleZip_vetted :
    ∃ entries, sampleZip.entries "a.zip".toList = some entries ∧
      Vetted linux "v1".toList entries [77, 90] :=
  txExtract_vetted (by rfl)

end Vetted

end MiLsp.SelfUpdate
