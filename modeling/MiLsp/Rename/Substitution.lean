import Mathlib.Data.List.Perm.Basic
import MiLsp.Library.Splice
import MiLsp.Rename.Accounting
import MiLsp.Rename.Positions

namespace MiLsp.Rename

open Library Strings Attempt Splice List Option

section Splicing

def NativeByteEdit.span (e : NativeByteEdit) : Span Unit UInt8 := ⟨(), e.start, e.stop, e.text⟩

def Apart (a b : NativeByteEdit) : Prop := a.stop ≤ b.start ∨ b.stop ≤ a.start

/-- The original bytes, every range replaced at once by the text of its edit. -/
def substitute (original : Bytes) (edits : List NativeByteEdit) : Bytes :=
  splice original 0 ((edits.insertionSort fun a b ↦ a.start ≤ b.start).map (·.span))

/-- The ranges come one after the other, from the end of the text to its start. -/
def Descends : ℕ → List NativeByteEdit → Prop
  | _, [] => True
  | lastStart, e :: edits => e.stop ≤ lastStart ∧ Descends e.start edits

variable {original : Bytes}

theorem splice_cons {e : NativeByteEdit} {done : List NativeByteEdit} (hstart : e.start ≤ e.stop)
    (hdone : ∀ d ∈ done.head?, e.stop ≤ d.start ∧ d.start ≤ original.length) :
    (splice original 0 (done.map (·.span))).take e.start ++ e.text ++
        (splice original 0 (done.map (·.span))).drop e.stop =
      splice original 0 ((e :: done).map (·.span)) := by
  cases done with
  | nil => rfl
  | cons d rest =>
    obtain ⟨hstop, hlength⟩ := hdone d rfl
    have htake : (original.take d.start).length = d.start := by
      rw [length_take]
      omega
    simp only [map_cons, splice, NativeByteEdit.span, drop_zero]
    rw [append_assoc (original.take d.start), take_append_of_le_length (by omega),
      drop_append_of_le_length (by omega), take_take, Nat.min_eq_left (by omega)]
    simp only [append_assoc]

variable {lastStart : ℕ} {edits : List NativeByteEdit}

theorem spliceEdits_eq_some {done : List NativeByteEdit} {updated : Bytes}
    (hedits : ∀ e ∈ edits, e.start ≤ e.stop ∧ e.start ≤ original.length)
    (hlast : ∀ d ∈ done.head?, lastStart = d.start ∧ d.start ≤ original.length) :
    spliceEdits lastStart (splice original 0 (done.map (·.span))) edits = some updated ↔
      Descends lastStart edits ∧
        updated = splice original 0 ((edits.reverse ++ done).map (·.span)) := by
  induction edits generalizing lastStart done with
  | nil =>
    rw [spliceEdits, Descends, some.injEq, true_and]
    exact eq_comm
  | cons e edits ih =>
    obtain ⟨he, hedits⟩ := forall_mem_cons.mp hedits
    rw [spliceEdits, Descends]
    by_cases hstop : lastStart < e.stop
    · rw [if_pos hstop]
      refine iff_of_false (by simp) fun h ↦ ?_
      omega
    · rw [if_neg hstop, splice_cons he.1 fun d hd ↦ ⟨by have := hlast d hd; omega, (hlast d hd).2⟩,
        ih hedits (by simpa using he.2), reverse_cons, append_assoc,
        singleton_append, and_assoc, and_iff_right (Nat.not_lt.mp hstop)]

theorem Descends.stop_le (h : Descends lastStart edits) (hproper : ∀ e ∈ edits, e.start ≤ e.stop) :
    ∀ e ∈ edits, e.stop ≤ lastStart := by
  induction edits generalizing lastStart with
  | nil => simp
  | cons e edits ih =>
    obtain ⟨he, hproper⟩ := forall_mem_cons.mp hproper
    have hrest := ih h.2 hproper
    have hstop := h.1
    refine forall_mem_cons.mpr ⟨hstop, fun b hb ↦ ?_⟩
    have hb := hrest b hb
    omega

theorem descends_iff (hsorted : edits.Pairwise fun a b ↦ b.start ≤ a.start)
    (hproper : ∀ e ∈ edits, e.start < e.stop ∧ e.stop ≤ lastStart) :
    Descends lastStart edits ↔ edits.Pairwise Apart := by
  induction edits generalizing lastStart with
  | nil => simp [Descends]
  | cons e edits ih =>
    obtain ⟨hhead, hsorted⟩ := pairwise_cons.mp hsorted
    obtain ⟨he, hproper⟩ := forall_mem_cons.mp hproper
    rw [Descends, pairwise_cons, and_iff_right he.2]
    constructor
    · intro h
      have hstop := h.stop_le fun b hb ↦ (hproper b hb).1.le
      exact ⟨fun b hb ↦ .inr (hstop b hb),
        (ih hsorted fun b hb ↦ ⟨(hproper b hb).1, hstop b hb⟩).mp h⟩
    · rintro ⟨hapart, hpairs⟩
      refine (ih hsorted fun b hb ↦ ⟨(hproper b hb).1, ?_⟩).mpr hpairs
      have hb := hhead b hb
      rcases hapart b ‹_› with h | h
      · omega
      · exact h

theorem apart_symm : Std.Symm Apart := ⟨fun _ _ ↦ Or.symm⟩

theorem sorted_eq {l l' : List NativeByteEdit} (hproper : ∀ e ∈ edits, e.start < e.stop)
    (hapart : edits.Pairwise Apart) (hl : l.Perm edits) (hl' : l'.Perm edits)
    (hsorted : l.Pairwise fun a b ↦ a.start ≤ b.start)
    (hsorted' : l'.Pairwise fun a b ↦ a.start ≤ b.start) : l = l' := by
  have := apart_symm
  refine List.Perm.eq_of_pairwise (fun a b ha hb hab hba ↦ ?_) hsorted hsorted' (hl.trans hl'.symm)
  by_contra hne
  have ha := hl.mem_iff.mp ha
  have hb := hl'.mem_iff.mp hb
  have := hproper a ha
  have := hproper b hb
  rcases hapart.forall ha hb hne with h | h <;> omega

theorem pairwise_sorted (edits : List NativeByteEdit) :
    (edits.insertionSort fun a b ↦ a.start ≤ b.start).Pairwise fun a b ↦ a.start ≤ b.start := by
  exact pairwise_insertionSort _ _

/-- The loop from the end of the text succeeds exactly on ranges that are apart. -/
theorem updateBytes_eq_some {updated : Bytes}
    (hproper : ∀ e ∈ edits, e.start < e.stop ∧ e.stop ≤ original.length) :
    updateBytes original edits = some updated ↔
      edits.Pairwise Apart ∧ updated = substitute original edits := by
  have hperm := perm_insertionSort (fun a b : NativeByteEdit ↦ b.start ≤ a.start) edits
  have hdown := pairwise_insertionSort (fun a b : NativeByteEdit ↦ b.start ≤ a.start) edits
  have hmem (e : NativeByteEdit)
      (he : e ∈ edits.insertionSort fun a b ↦ b.start ≤ a.start) :=
    hproper e (hperm.mem_iff.mp he)
  have hpairs : (edits.insertionSort fun a b ↦ b.start ≤ a.start).Pairwise Apart ↔
      edits.Pairwise Apart := hperm.pairwise_iff fun h ↦ Or.symm h
  refine (@spliceEdits_eq_some original _ _ [] updated (fun e he ↦ ?_) (by simp)).trans ?_
  · have := hmem e he
    omega
  rw [descends_iff hdown fun e he ↦ ⟨(hmem e he).1, Nat.le_succ_of_le (hmem e he).2⟩, hpairs,
    append_nil]
  refine and_congr_right fun hapart ↦ ?_
  rw [substitute, sorted_eq (fun e he ↦ (hproper e he).1) hapart
    ((reverse_perm _).trans hperm) (perm_insertionSort _ _)
    (pairwise_reverse.mpr hdown) (pairwise_sorted edits)]

end Splicing

section Edits

variable {original : Bytes} {symbol newName : String} {edit : NativeTextEdit} {e : NativeByteEdit}

/-- The edit puts the new name for the old one, from its first position to its second. -/
structure Renames (original : Bytes) (symbol newName : String) (edit : NativeTextEdit)
    (e : NativeByteEdit) : Prop where
  valid : utf8Valid original = true
  start : IsPosition original edit.start.line edit.start.character e.start
  stop : IsPosition original edit.stop.line edit.stop.character e.stop
  ordered : e.start ≤ e.stop
  old : (original.take e.stop).drop e.start = utf8 symbol
  newText : edit.newText = newName
  text : e.text = utf8 newName

theorem convertEdit_eq_some :
    convertEdit original symbol newName edit = some e ↔
      Renames original symbol newName edit e := by
  rw [convertEdit]
  constructor
  · intro h
    split at h
    next start stop hstart hstop =>
      split_ifs at h with hbad
      push Not at hbad
      obtain rfl := some.inj h
      obtain ⟨hvalid, hstart⟩ := utf16ByteOffset_eq_some.mp hstart
      exact ⟨hvalid, hstart, (utf16ByteOffset_eq_some.mp hstop).2, hbad.1, hbad.2.2, hbad.2.1,
        by rw [hbad.2.1]⟩
    · cases h
  · intro h
    rw [utf16ByteOffset_eq_some.mpr ⟨h.valid, h.start⟩,
      utf16ByteOffset_eq_some.mpr ⟨h.valid, h.stop⟩]
    dsimp only
    rw [if_neg (by simp [h.ordered, h.old, h.newText]), h.newText, ← h.text]

theorem Renames.proper (h : Renames original symbol newName edit e) (hsymbol : utf8 symbol ≠ []) :
    e.start < e.stop ∧ e.stop ≤ original.length := by
  refine ⟨?_, h.stop.le⟩
  by_contra hle
  refine hsymbol ?_
  rw [← h.old, drop_eq_nil_iff, length_take]
  omega

variable {l : List NativeByteEdit} {edits edits' : List NativeTextEdit}

theorem mapM_convertEdit :
    edits.mapM (convertEdit original symbol newName) = some l ↔
      List.Forall₂ (Renames original symbol newName) edits l := by
  simp only [mapM_eq_some_iff, convertEdit_eq_some]

theorem proper_of_renames (hsymbol : utf8 symbol ≠ [])
    (h : List.Forall₂ (Renames original symbol newName) edits l) :
    ∀ e ∈ l, e.start < e.stop ∧ e.stop ≤ original.length := by
  intro e he
  obtain ⟨edit, -, hedit⟩ := exists_of_mem_right h he
  exact hedit.proper hsymbol

/-- Accepted exactly when each edit renames the old name and the ranges are apart; the result is the
simultaneous substitution. -/
theorem editSource_eq_ok (hsymbol : utf8 symbol ≠ []) {updated : Bytes} :
    editSource symbol newName edits original = .ok updated ↔
      ∃ byteEdits, List.Forall₂ (Renames original symbol newName) edits byteEdits ∧
        byteEdits.Pairwise Apart ∧ updated = substitute original byteEdits := by
  simp only [editSource, bind_eq_ok, orElse_eq_ok, mapM_convertEdit]
  refine exists_congr fun byteEdits ↦ and_congr_right fun hrenames ↦ ?_
  exact updateBytes_eq_some (proper_of_renames hsymbol hrenames)

theorem substitute_perm {edits edits' : List NativeByteEdit} (hperm : edits'.Perm edits)
    (hproper : ∀ e ∈ edits, e.start < e.stop) (hapart : edits.Pairwise Apart) :
    substitute original edits' = substitute original edits := by
  rw [substitute, substitute, sorted_eq hproper hapart
    ((perm_insertionSort _ _).trans hperm) (perm_insertionSort _ _)
    (pairwise_sorted edits') (pairwise_sorted edits)]

theorem mapM_perm (hperm : edits'.Perm edits)
    (h : edits.mapM (convertEdit original symbol newName) = some l) :
    ∃ l', l'.Perm l ∧ edits'.mapM (convertEdit original symbol newName) = some l' := by
  obtain ⟨l', hl', hperm'⟩ := perm_comp_forall₂ hperm (mapM_convertEdit.mp h)
  exact ⟨l', hperm', mapM_convertEdit.mpr hl'⟩

theorem editSource_perm (hsymbol : utf8 symbol ≠ []) (hperm : edits'.Perm edits) :
    editSource symbol newName edits' original = editSource symbol newName edits original := by
  rw [editSource, editSource]
  cases h : edits.mapM (convertEdit original symbol newName) with
  | none =>
    cases h' : edits'.mapM (convertEdit original symbol newName) with
    | none => rfl
    | some l =>
      obtain ⟨l', -, hl'⟩ := mapM_perm hperm.symm h'
      simp [h] at hl'
  | some l =>
    obtain ⟨l', hl, h'⟩ := mapM_perm hperm h
    have hproper : ∀ e ∈ l, e.start < e.stop ∧ e.stop ≤ original.length :=
      proper_of_renames hsymbol (mapM_convertEdit.mp h)
    have hpairs : l'.Pairwise Apart ↔ l.Pairwise Apart := hl.pairwise_iff fun h ↦ Or.symm h
    have hupdate : updateBytes original l' = updateBytes original l := by
      refine ext fun updated ↦ ?_
      rw [updateBytes_eq_some hproper,
        updateBytes_eq_some fun e he ↦ hproper e (hl.mem_iff.mp he), hpairs]
      refine and_congr_right fun hapart ↦ ?_
      rw [substitute_perm hl (fun e he ↦ (hproper e he).1) hapart]
    rw [h']
    exact congrArg (orElse _) hupdate

end Edits

section Documents

variable {host : RenameHost} {faults : Faults} {root symbol newName : String}
  {response : WorkerResponse} {d : RenameDisk}

theorem orElse_some_bind {α β : Type} {e : String} {a : α} {f : α → Except String β} :
    orElse e (some a) >>= f = f a :=
  rfl

structure Reordered (doc doc' : NativeDocumentEdit) : Prop where
  uri : doc'.uri = doc.uri
  version : doc'.version = doc.version
  edits : doc'.edits.Perm doc.edits

theorem planDocument_reordered (hsymbol : utf8 symbol ≠ []) {doc doc' : Option NativeDocumentEdit}
    (h : Option.Rel Reordered doc doc') (acc : PlanState) (i : ℕ) :
    planDocument host faults root symbol newName response d acc (doc', i) =
      planDocument host faults root symbol newName response d acc (doc, i) := by
  cases h with
  | none => rfl
  | @some doc doc' h =>
    obtain ⟨uri, version, edits⟩ := doc
    obtain ⟨uri', version', edits'⟩ := doc'
    obtain ⟨huri, hversion, hperm⟩ := h
    dsimp only at huri hversion hperm
    subst huri hversion
    by_cases hnil : edits = []
    · subst hnil
      rw [hperm.eq_nil]
    have hnil' : edits' ≠ [] := fun h ↦ hnil (h ▸ hperm).symm.eq_nil
    by_cases hempty : uri' = ""
    · simp [planDocument, hempty, Option.filter]
    · simp only [planDocument, filter_some, ne_eq, hempty, hnil, hnil', not_false_eq_true,
        decide_true, Bool.and_self, if_true, orElse_some_bind, hperm.length_eq,
        editSource_perm hsymbol hperm]

variable {docs : List (Option NativeDocumentEdit)}

theorem planDocuments_reordered (hsymbol : utf8 symbol ≠ [])
    {docs' : List (Option NativeDocumentEdit)}
    (h : List.Forall₂ (Option.Rel Reordered) docs docs') (acc : PlanState) (i : ℕ) :
    (docs'.zipIdx i).foldlM (planDocument host faults root symbol newName response d) acc =
      (docs.zipIdx i).foldlM (planDocument host faults root symbol newName response d) acc := by
  induction h generalizing acc i with
  | nil => rfl
  | cons hdoc _ ih =>
    simp only [zipIdx_cons, foldlM_cons, planDocument_reordered hsymbol hdoc, ih]

def WorkerResponse.reorder (response : WorkerResponse) (plan : WorkspaceEdit)
    (docs : List (Option NativeDocumentEdit)) : WorkerResponse :=
  { response with workspaceEdit := some { plan with documentChanges := docs } }

theorem planRename_reordered (hsymbol : utf8 symbol ≠ []) {plan : WorkspaceEdit}
    (hplan : response.workspaceEdit = some plan)
    (h : List.Forall₂ (Option.Rel Reordered) plan.documentChanges docs)
    (expectedFiles : List String) :
    planRename host faults root symbol newName (response.reorder plan docs) d expectedFiles =
      planRename host faults root symbol newName response d expectedFiles := by
  have hnil : docs = [] ↔ plan.documentChanges = [] := by
    rw [← length_eq_zero_iff, ← h.length_eq, length_eq_zero_iff]
  have hdocs (expected : List String) :
      docs.zipIdx.foldlM (planDocument host faults root symbol newName
        (response.reorder plan docs) d) ⟨[], expected, 0, []⟩ =
      plan.documentChanges.zipIdx.foldlM (planDocument host faults root symbol newName
        response d) ⟨[], expected, 0, []⟩ :=
    planDocuments_reordered hsymbol h _ 0
  simp only [WorkerResponse.reorder] at hdocs ⊢
  simp only [planRename, hplan, orElse_some_bind, hnil, ← h.length_eq, hdocs]

variable (host faults root symbol newName d) in
structure Substituted (doc : NativeDocumentEdit) (file : StagedRenameFile) : Prop where
  named : ∃ phase, lexicalPath host faults root (host.uriToNativePath doc.uri) phase =
    .ok (file.path, file.relative)
  original : bytesAt host d file.path = some file.original
  ranges : ∃ ranges, List.Forall₂ (Renames file.original symbol newName) doc.edits ranges ∧
    (∀ e ∈ ranges, e.start < e.stop) ∧ ranges.Pairwise Apart ∧
    file.updated = substitute file.original ranges

theorem planDocument_substituted (hsymbol : utf8 symbol ≠ []) {acc acc' : PlanState}
    {entry : Option NativeDocumentEdit × ℕ}
    (h : planDocument host faults root symbol newName response d acc entry = .ok acc') :
    ∃ doc file, entry.1 = some doc ∧ acc'.files = acc.files ++ [file] ∧
      Substituted host faults root symbol newName d doc file := by
  simp only [planDocument, bind_eq_ok, guarded_eq_ok, orElse_eq_ok, mapError_eq_ok, pure_eq_ok,
    Prod.exists] at h
  obtain ⟨doc, hdoc, version, -, -, -, -, abs, rel, info, hpath, -, -, -, source, hsource, abs',
    rel', current, -, -, -, updated, hupdated, rfl⟩ := h
  have hfile := (filter_eq_some_iff.mp hsource).1
  split_ifs at hfile
  obtain ⟨ranges, hranges, hapart, hsubst⟩ := (editSource_eq_ok hsymbol).mp hupdated
  refine ⟨doc, _, (filter_eq_some_iff.mp hdoc).1, rfl, ?_, bytesAt_of_file hfile,
    ranges, hranges, fun e he ↦ (proper_of_renames hsymbol hranges e he).1, hapart, hsubst⟩
  simp only [nativeRenamePath, bind_eq_ok, Prod.exists, guarded_eq_ok, pure_eq_ok,
    Prod.mk.injEq] at hpath
  obtain ⟨_, _, hlexical, _, -, -, _, -, -, rfl, rfl, -⟩ := hpath
  exact ⟨_, hlexical⟩

theorem planDocuments_substituted (hsymbol : utf8 symbol ≠ []) {acc acc' : PlanState} {i : ℕ}
    (h : (docs.zipIdx i).foldlM (planDocument host faults root symbol newName response d) acc =
      .ok acc') :
    ∃ files, acc'.files = acc.files ++ files ∧ List.Forall₂ (fun entry file ↦ ∃ doc,
      entry = some doc ∧ Substituted host faults root symbol newName d doc file) docs files := by
  induction docs generalizing acc i with
  | nil =>
    obtain rfl := pure_eq_ok.mp h
    exact ⟨[], by simp, .nil⟩
  | cons entry docs ih =>
    obtain ⟨acc₁, h₁, h⟩ := bind_eq_ok.mp h
    obtain ⟨doc, file, hentry, hfile, hsubst⟩ := planDocument_substituted hsymbol h₁
    obtain ⟨files, hfiles, hall⟩ := ih h
    refine ⟨file :: files, ?_, .cons ⟨doc, hentry, hsubst⟩ hall⟩
    rw [hfiles, hfile, append_assoc, singleton_append]

variable (host faults root newName d) in
/-- The order of the edits does not matter. A plan is refused with the disk as it was, or all edits
rename the old name at ranges apart and every file gets the bytes with all replaced. -/
theorem rename_substitutes (hsymbol : symbol ≠ "") (expectedFiles : List String)
    (response : WorkerResponse) (plan : WorkspaceEdit)
    (hplan : response.workspaceEdit = some plan) :
    (∀ docs, List.Forall₂ (Option.Rel Reordered) plan.documentChanges docs →
      applyNativeRenamePlan host faults root symbol newName expectedFiles
          (response.reorder plan docs) d =
        applyNativeRenamePlan host faults root symbol newName expectedFiles response d) ∧
    ((∃ e, applyNativeRenamePlan host faults root symbol newName expectedFiles response d =
        ⟨[], some (.plain e), d⟩) ∨
      ∃ files, List.Forall₂ (fun entry file ↦ ∃ doc, entry = some doc ∧
          Substituted host faults root symbol newName d doc file) plan.documentChanges files ∧
        ((applyNativeRenamePlan host faults root symbol newName expectedFiles response d).error =
            none → ∀ file ∈ files,
          bytesAt host (applyNativeRenamePlan host faults root symbol newName expectedFiles
            response d).disk file.path = some file.updated)) := by
  have hbytes := utf8_ne_nil hsymbol
  constructor
  · intro docs hdocs
    rw [applyNativeRenamePlan, applyNativeRenamePlan, planRename_reordered hbytes hplan hdocs]
  rw [applyNativeRenamePlan]
  cases hfiles : planRename host faults root symbol newName response d expectedFiles with
  | error e => exact .inl ⟨e, rfl⟩
  | ok planned =>
    have hsound : (stageAndCommit host faults root planned d).Sound host planned :=
      stageAndCommit_sound (planRename_spec hfiles)
    simp only [planRename, bind_eq_ok, guarded_eq_ok, orElse_eq_ok, pure_eq_ok, hplan,
      Option.some.injEq, exists_eq_left'] at hfiles
    obtain ⟨-, -, expected, -, -, acc, hacc, -, -, rfl⟩ := hfiles
    obtain ⟨files, hfiles, hall⟩ := planDocuments_substituted hbytes hacc
    refine .inr ⟨files, hall, fun hnone file hfile ↦ hsound.finish.done (.inl hnone) file ?_⟩
    rw [(perm_insertionSort _ _).mem_iff, hfiles]
    exact hfile

def spacedText (name : String) : Bytes := utf8 ("é\n😀 " ++ name ++ " " ++ name)

def spacedDisk : RenameDisk where
  file path := if path = "/w/a/x.go" then some ⟨0, ⟨spacedText "f", 0o644⟩⟩ else none
  fresh := 1
  ino_lt path file h := by
    split_ifs at h
    cases h
    exact Nat.one_pos

def spacedPlan (columns : List ℤ) : WorkspaceEdit :=
  ⟨0, [some ⟨"file:///w/a/x.go", some 1, columns.map fun i ↦ ⟨⟨1, i⟩, ⟨1, i + 1⟩, "g"⟩⟩]⟩

def spacedResponse : WorkerResponse :=
  ⟨"f", some (spacedPlan [3, 5]), fun _ ↦ 1, fun _ ↦ sampleHost.nativeDigest (spacedText "f")⟩

def spacedResult (response : WorkerResponse) : RenameResult :=
  applyNativeRenamePlan sampleHost sampleFaults "/w" "f" "g" ["/w/a/x.go"] response spacedDisk

/-- The character before the names has two units and four bytes. -/
theorem spaced_either_order :
    bytesAt sampleHost (spacedResult spacedResponse).disk "/w/a/x.go" = some (spacedText "g") ∧
      spacedResult
          (spacedResponse.reorder (spacedPlan [3, 5]) (spacedPlan [5, 3]).documentChanges) =
        spacedResult spacedResponse ∧
      ∃ files, List.Forall₂ (fun entry file ↦ ∃ doc, entry = some doc ∧
        Substituted sampleHost sampleFaults "/w" "f" "g" spacedDisk doc file)
        (spacedPlan [3, 5]).documentChanges files := by
  have hnone : (spacedResult spacedResponse).error = none := by decide +kernel
  obtain ⟨horder, ⟨e, hrefused⟩ | ⟨files, hfiles, -⟩⟩ :=
    rename_substitutes sampleHost sampleFaults "/w" "g" spacedDisk (show "f" ≠ "" by decide)
      ["/w/a/x.go"] spacedResponse (spacedPlan [3, 5]) rfl
  · rw [spacedResult, hrefused] at hnone
    cases hnone
  · exact ⟨by decide +kernel, horder _ (.cons (.some ⟨rfl, rfl, .swap _ _ _⟩) .nil), files, hfiles⟩

end Documents

end MiLsp.Rename
