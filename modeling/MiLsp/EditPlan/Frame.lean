import Mathlib.Data.List.Sort
import MiLsp.Library.Splice
import MiLsp.EditPlan.Apply

namespace MiLsp.EditPlan

open Library Strings Lines Splice Attempt List Table

variable {host : Host} {root : String} {denyPaths : List String}

abbrev Region := Span String UInt8

abbrev TargetEntry (host : Host) (root : String) (denyPaths : List String) :=
  String × EditPlanResolvedTarget host root denyPaths

def TargetEntry.startLine (entry : TargetEntry host root denyPaths) : ℤ :=
  entry.2.target.range.startLine

def TargetEntry.endLine (entry : TargetEntry host root denyPaths) : ℤ :=
  entry.2.target.range.endLine

variable (entry : TargetEntry host root denyPaths)

def TargetEntry.region : Region where
  name := entry.1
  start := entry.2.startByte
  stop := entry.2.endByte
  text := (entry.2.before.take entry.2.endByte).drop entry.2.startByte

variable (targets : EditPlanTargets host root denyPaths)

def entriesOn (relPath : String) : List (TargetEntry host root denyPaths) :=
  (targets.byID.rows.filter fun entry ↦ entry.2.relPath = relPath).insertionSort
    fun a b ↦ TargetEntry.startLine a ≤ TargetEntry.startLine b

def editPlanRegions (relPath : String) : List Region :=
  (entriesOn targets relPath).map TargetEntry.region

variable (requireCleanMatch : Bool) (targets : EditPlanTargets host root denyPaths)

/-- What an operation is meant to do: it edits its own target, wherever that now stands. -/
def editRegion (relPath : String) (before : Bytes) (regions : List Region)
    (operation : EditPlanOperation) : Except OperationError (List Region) :=
  match targets.byID.find? operation.targetID,
      regions.find? fun region ↦ region.name = operation.targetID with
  | some (_, target), some region =>
    if target.relPath = relPath then do
      match ← editRangeText host requireCleanMatch operation
        (detectEditPlanLineEnding (splice before 0 regions)) region.text with
      | none => return regions
      | some (text, _) => return setText operation.targetID text regions
    else .ok regions
  | _, _ => .ok regions

def expectedRegions (relPath : String) (before : Bytes) (operations : List EditPlanOperation) :
    Except OperationError (List Region) :=
  operations.foldlM (editRegion requireCleanMatch targets relPath before)
    (editPlanRegions targets relPath)

def DisjointTargets (relPath : String) : Prop :=
  ∀ a ∈ targets.byID.rows, ∀ b ∈ targets.byID.rows, a.2.relPath = relPath →
    b.2.relPath = relPath → a.1 ≠ b.1 →
    TargetEntry.endLine a < TargetEntry.startLine b ∨
      TargetEntry.endLine b < TargetEntry.startLine a

instance (relPath : String) : Decidable (DisjointTargets targets relPath) :=
  inferInstanceAs (Decidable (∀ a ∈ _, ∀ b ∈ _, _))

structure RegionsOn (targets : EditPlanTargets host root denyPaths) (relPath : String)
    (regions : List Region) : Prop where
  ascending : Ascending 0 regions
  nodup : (regions.map Span.name).Nodup
  ofTarget : ∀ region ∈ regions, ∃ target,
    targets.byID.find? region.name = some (region.name, target) ∧ target.relPath = relPath ∧
      region.start = target.startByte ∧ region.stop = target.endByte
  ofEntry : ∀ id target, targets.byID.find? id = some (id, target) → target.relPath = relPath →
    ∃ region ∈ regions, region.name = id

open TargetEntry

theorem TargetEntry.lineSpan : 0 < startLine entry ∧ Lines.lineSpan newline entry.2.before
      (startLine entry).toNat (endLine entry).toNat =
        some (entry.2.startByte, entry.2.endByte) := by
  have h := (editPlanLineRangeOffsets_eq_ok entry.2.endLine_pos).mp entry.2.range_ok
  exact ⟨h.1, h.2.2⟩

theorem TargetEntry.startLine_le : startLine entry ≤ endLine entry := by
  obtain ⟨hpos, hspan⟩ := lineSpan entry
  have hle := (lineSpan_eq_some newline hspan).2.1
  omega

variable {targets : EditPlanTargets host root denyPaths} {relPath : String} {before : Bytes}
  {regions : List Region} {target : EditPlanResolvedTarget host root denyPaths} {region : Region}

theorem mem_entriesOn {entry : TargetEntry host root denyPaths} :
    entry ∈ entriesOn targets relPath ↔
      entry ∈ targets.byID.rows ∧ entry.2.relPath = relPath := by
  simp [entriesOn]

theorem nodup_entriesOn (targets : EditPlanTargets host root denyPaths) (relPath : String) :
    ((entriesOn targets relPath).map Prod.fst).Nodup := by
  refine ((perm_insertionSort _ _).map _).nodup_iff.mpr ?_
  exact (filter_sublist.map _).nodup targets.byID.nodup

theorem pairwise_entriesOn (hdisjoint : DisjointTargets targets relPath) :
    (entriesOn targets relPath).Pairwise fun a b ↦
      endLine a < startLine b := by
  let order : TargetEntry host root denyPaths → TargetEntry host root denyPaths → Prop :=
    fun a b ↦ startLine a ≤ startLine b
  have hsorted : (entriesOn targets relPath).Pairwise order := pairwise_insertionSort order _
  have hnames : (entriesOn targets relPath).Pairwise fun a b ↦ a.1 ≠ b.1 :=
    pairwise_map.mp (nodup_entriesOn targets relPath)
  refine (hsorted.and hnames).imp_of_mem ?_
  intro a b ha hb h
  obtain ⟨ha, hapath⟩ := mem_entriesOn.mp ha
  obtain ⟨hb, hbpath⟩ := mem_entriesOn.mp hb
  rcases hdisjoint a ha b hb hapath hbpath h.2 with hlt | hlt
  · exact hlt
  · have hle : startLine a ≤ startLine b := h.1
    have hrange := startLine_le b
    omega

theorem TargetEntry.region_disjoint {a b : TargetEntry host root denyPaths}
    (hpath : a.2.relPath = b.2.relPath) (h : endLine a < startLine b) :
    a.2.endByte ≤ b.2.startByte := by
  obtain ⟨-, ha⟩ := lineSpan a
  obtain ⟨hpos, hb⟩ := lineSpan b
  rw [← EditPlanResolvedTarget.before_eq hpath] at hb
  exact lineSpan_disjoint newline ha hb (by omega)

theorem TargetEntry.region_le :
    entry.2.startByte ≤ entry.2.endByte ∧ entry.2.endByte ≤ entry.2.before.length :=
  lineSpan_le newline (lineSpan entry).2

theorem ascending_regions {entries : List (TargetEntry host root denyPaths)}
    (hpath : ∀ entry ∈ entries, entry.2.relPath = relPath)
    (h : entries.Pairwise fun a b ↦ TargetEntry.endLine a < TargetEntry.startLine b) {pos : ℕ}
    (hpos : ∀ entry ∈ entries, pos ≤ entry.2.startByte) :
    Ascending pos (entries.map TargetEntry.region) := by
  induction entries generalizing pos with
  | nil => trivial
  | cons entry entries ih =>
    obtain ⟨hfirst, hrest⟩ := pairwise_cons.mp h
    have hpath' : ∀ entry' ∈ entries, entry'.2.relPath = relPath := fun entry' h' ↦
      hpath entry' (mem_cons_of_mem entry h')
    refine ⟨hpos entry (by simp), entry.region_le.1, ih hpath' hrest ?_⟩
    intro entry' h'
    refine TargetEntry.region_disjoint ?_ (hfirst entry' h')
    rw [hpath entry (by simp), hpath' entry' h']

theorem regionsOn_editPlanRegions (hdisjoint : DisjointTargets targets relPath) :
    RegionsOn targets relPath (editPlanRegions targets relPath) where
  ascending := by
    have hpath : ∀ entry ∈ entriesOn targets relPath, entry.2.relPath = relPath := fun entry h ↦
      (mem_entriesOn.mp h).2
    exact ascending_regions hpath (pairwise_entriesOn hdisjoint) (by simp)
  nodup := by
    have hnames : (editPlanRegions targets relPath).map Span.name =
        (entriesOn targets relPath).map Prod.fst := by
      rw [editPlanRegions, map_map]
      rfl
    rw [hnames]
    exact nodup_entriesOn targets relPath
  ofTarget := by
    intro region h
    obtain ⟨entry, hentry, rfl⟩ := mem_map.mp h
    obtain ⟨hmem, hpath⟩ := mem_entriesOn.mp hentry
    exact ⟨entry.2, find?_of_mem hmem, hpath, rfl, rfl⟩
  ofEntry := by
    intro id target h hpath
    have hmem : (id, target) ∈ entriesOn targets relPath :=
      mem_entriesOn.mpr ⟨mem_of_find? h, hpath⟩
    exact ⟨_, mem_map_of_mem hmem, rfl⟩

theorem map_setText {β : Type} (f : Region → β)
    (hf : ∀ region text, f { region with text } = f region)
    (name : String) (text : Bytes) (regions : List Region) :
    (setText name text regions).map f = regions.map f := by
  rw [setText, map_map]
  refine map_congr_left ?_
  intro region _
  rw [Function.comp_apply]
  split
  · exact hf region text
  · rfl

theorem RegionsOn.setText (h : RegionsOn targets relPath regions) (name : String) (text : Bytes) :
    RegionsOn targets relPath (setText name text regions) where
  ascending := h.ascending.setText
  nodup := by
    rw [map_setText Span.name fun _ _ ↦ rfl]
    exact h.nodup
  ofTarget := by
    intro region hmem
    obtain ⟨region, hregion, rfl⟩ := mem_map.mp hmem
    split
    · exact h.ofTarget region hregion
    · exact h.ofTarget region hregion
  ofEntry := by
    intro id target hfind hpath
    obtain ⟨region, hregion, hname⟩ := h.ofEntry id target hfind hpath
    refine ⟨_, mem_map_of_mem hregion, ?_⟩
    split
    · exact hname
    · exact hname

def above (regions : List Region) (id : String) : List Region :=
  regions.takeWhile fun region ↦ region.name ≠ id

def below (regions : List Region) (id : String) : List Region :=
  (regions.dropWhile fun region ↦ region.name ≠ id).tail

def textAbove (before : Bytes) (regions : List Region) (region : Region) : Bytes :=
  splice (before.take region.start) 0 (above regions region.name)

def textBelow (before : Bytes) (regions : List Region) (region : Region) : Bytes :=
  splice before region.stop (below regions region.name)

/-- As many whole lines as in the original file are above the region, and as many lines in it. Its
last line is terminated if anything is below it, and it is empty only with the whole file. -/
def LinesKeptAt (before : Bytes) (regions : List Region) (id : String) : Prop :=
  ∀ region ∈ regions.find? fun region ↦ region.name = id,
    profile newline (textAbove before regions region) =
      profile newline (before.take region.start) ∧
    lineCount newline region.text = lineCount newline (region.original before) ∧
    (textBelow before regions region = [] ∨ closed newline region.text = true) ∧
    (region.text = [] →
      textAbove before regions region = [] ∧ textBelow before regions region = [])

instance (before : Bytes) (regions : List Region) (id : String) :
    Decidable (LinesKeptAt before regions id) :=
  inferInstanceAs (Decidable (∀ region ∈ _, _))

section

variable (h : RegionsOn targets relPath regions) {id : String}
include h

theorem RegionsOn.find? (htarget : targets.byID.find? id = some (id, target))
    (hpath : target.relPath = relPath) :
    ∃ region, (regions.find? fun region ↦ region.name = id) = some region ∧
      region.start = target.startByte ∧ region.stop = target.endByte := by
  obtain ⟨region, hregion⟩ : ∃ region,
      (regions.find? fun region ↦ region.name = id) = some region := by
    obtain ⟨region, hmem, hname⟩ := h.ofEntry id target htarget hpath
    exact Option.isSome_iff_exists.mp (find?_isSome.mpr ⟨region, hmem, by simpa using hname⟩)
  obtain ⟨target', htarget', -, hstart, hstop⟩ := h.ofTarget region (mem_of_find?_eq_some hregion)
  have hname : region.name = id := by simpa using find?_some hregion
  rw [hname, htarget] at htarget'
  cases htarget'
  exact ⟨region, hregion, hstart, hstop⟩

theorem RegionsOn.split (hregion : (regions.find? fun region ↦ region.name = id) = some region) :
    region.name = id ∧ regions = above regions id ++ region :: below regions id ∧
      ∀ text, Splice.setText id text regions =
        above regions id ++ { region with text } :: below regions id := by
  obtain ⟨hname, l, rest, hregions, hl⟩ := find?_eq_some_iff_append.mp hregion
  replace hname : region.name = id := by simpa using hname
  replace hl : ∀ region ∈ l, region.name ≠ id := by simpa using hl
  have habove : above regions id = l := by
    rw [above, hregions, takeWhile_append_of_pos (by simpa using hl)]
    simp [hname]
  have hbelow : below regions id = rest := by
    rw [below, hregions, dropWhile_append_of_pos (by simpa using hl)]
    simp [hname]
  have hnodup := h.nodup
  rw [hregions, map_append, map_cons, nodup_append] at hnodup
  have hrest : ∀ region' ∈ rest, region'.name ≠ id := by
    intro region' h' hname'
    refine (nodup_cons.mp hnodup.2.1).1 ?_
    rw [hname, ← hname']
    exact mem_map_of_mem h'
  refine ⟨hname, by rw [habove, hbelow, hregions], ?_⟩
  intro text
  rw [habove, hbelow, hregions, setText_append hname hl hrest]

theorem RegionsOn.pieces (hregion : (regions.find? fun region ↦ region.name = id) = some region)
    (text : Bytes) :
    splice before 0 (above regions id ++ { region with text } :: below regions id) =
      textAbove before regions region ++ text ++ textBelow before regions region := by
  obtain ⟨rfl, hregions, -⟩ := h.split hregion
  have hasc := h.ascending
  rw [hregions] at hasc
  exact splice_append fun region' h' ↦ (hasc.start_le.2 region' h').1

theorem RegionsOn.linesKeptAt_iff
    (hregion : (regions.find? fun region ↦ region.name = id) = some region)
    (hspan : region.start = target.startByte ∧ region.stop = target.endByte) :
    LinesKeptAt target.before regions id ↔
      Lines.lineSpan newline (splice target.before 0 regions) (startLine (id, target)).toNat
        (endLine (id, target)).toNat = some ((textAbove target.before regions region).length,
          (textAbove target.before regions region).length + region.text.length) := by
  obtain ⟨-, hregions, -⟩ := h.split hregion
  have hasc := h.ascending
  rw [hregions] at hasc
  have hle := hasc.right.1
  obtain ⟨-, hspan₀⟩ := lineSpan (id, target)
  obtain ⟨-, hstop⟩ := region_le (id, target)
  simp only [← hspan.1, ← hspan.2] at hspan₀ hstop
  have hlen : (target.before.take region.start).length = region.start := by
    rw [length_take]
    omega
  have hlen' : region.stop =
      (target.before.take region.start).length + (region.original target.before).length := by
    rw [Span.original, length_drop, length_take, length_take]
    omega
  have horiginal : Lines.lineSpan newline (target.before.take region.start ++
      region.original target.before ++ target.before.drop region.stop)
      (startLine (id, target)).toNat (endLine (id, target)).toNat =
        some ((target.before.take region.start).length,
          (target.before.take region.start).length + (region.original target.before).length) := by
    rw [original_append hle, ← hlen', hlen]
    exact hspan₀
  have hpieces := @pieces _ _ _ _ _ target.before _ _ h _ hregion region.text
  rw [← hregions] at hpieces
  rw [hpieces, lineSpan_kept_iff newline horiginal, LinesKeptAt, hregion]
  simp only [Option.mem_def, Option.some.injEq, forall_eq']

theorem RegionsOn.range_eq {start stop count : ℕ}
    (hregion : (regions.find? fun region ↦ region.name = id) = some region)
    (hspan : region.start = target.startByte ∧ region.stop = target.endByte)
    (hkept : LinesKeptAt target.before regions id)
    (hrange : editPlanLineRangeOffsets (splice target.before 0 regions)
      target.target.range.startLine target.target.range.endLine = .ok (start, stop, count)) :
    (splice target.before 0 regions).take start = textAbove target.before regions region ∧
      ((splice target.before 0 regions).take stop).drop start = region.text ∧
      (splice target.before 0 regions).drop stop = textBelow target.before regions region := by
  have hnow := (h.linesKeptAt_iff hregion hspan).mp hkept
  have hfound := ((editPlanLineRangeOffsets_eq_ok target.endLine_pos).mp hrange).2.2
  rw [startLine, endLine, hfound] at hnow
  cases hnow
  have hpieces := @pieces _ _ _ _ _ target.before _ _ h _ hregion region.text
  rw [← (h.split hregion).2.1] at hpieces
  rw [hpieces]
  exact cut_append _ _ _

end

def Tracks (targets : EditPlanTargets host root denyPaths) (relPath : String) (before : Bytes)
    (acc : List EditPlanOperationResult × EditPlanFileStates) (regions : List Region) : Prop :=
  RegionsOn targets relPath regions ∧ ∃ state, acc.2.find? relPath = some state ∧
    state.before = before ∧ state.after = splice before 0 regions

section

variable {requireCleanMatch : Bool} {acc acc' : List EditPlanOperationResult × EditPlanFileStates}
  {operation : EditPlanOperation}

theorem tracks_other (htracks : Tracks targets relPath before acc regions)
    (htarget : targets.byID.find? operation.targetID = some (operation.targetID, target))
    (hpath : target.relPath ≠ relPath) (hupdate : acc'.2 = acc.2 ∨ ∃ f hf, acc'.2 =
      acc.2.update (fun s ↦ s.relPath = target.relPath) f hf) :
    editRegion requireCleanMatch targets relPath before regions operation = .ok regions ∧
      Tracks targets relPath before acc' regions := by
  obtain ⟨hregions, state, hstate, hafter⟩ := htracks
  constructor
  · rw [editRegion, htarget]
    split
    next h _ =>
      cases h
      rw [if_neg hpath]
    · rfl
  · refine ⟨hregions, state, ?_, hafter⟩
    rcases hupdate with heq | ⟨f, hf, heq⟩
    · rw [heq, hstate]
    · have hkey : state.relPath = relPath := key_of_find? hstate
      rw [heq, find?_update, hstate]
      simp [hkey, Ne.symm hpath]

theorem tracks_step (hbefore : ∀ entry ∈ entriesOn targets relPath, entry.2.before = before)
    (htracks : Tracks targets relPath before acc regions)
    (hkept : LinesKeptAt before regions operation.targetID)
    (h : applyEditPlanOperation requireCleanMatch targets acc operation = .ok acc') :
    ∃ regions', editRegion requireCleanMatch targets relPath before regions operation =
      .ok regions' ∧ Tracks targets relPath before acc' regions' := by
  obtain ⟨target, state, start, stop, count, edit, htarget, hstate, hrange, hedit, hacc⟩ :=
    applyEditPlanOperation_eq_ok h
  by_cases hpath : target.relPath = relPath
  · obtain ⟨hregions, state', hstate', hstateBefore, hafter⟩ := htracks
    rw [hpath, hstate'] at hstate
    cases hstate
    obtain ⟨region, hregion, hspan⟩ := hregions.find? htarget hpath
    obtain ⟨-, -, hset⟩ := hregions.split hregion
    have htargetBefore : target.before = before :=
      hbefore (operation.targetID, target) (mem_entriesOn.mpr ⟨mem_of_find? htarget, hpath⟩)
    subst htargetBefore
    rw [hafter] at hrange
    obtain ⟨habove, htext, hbelow⟩ := hregions.range_eq hregion hspan hkept hrange
    rw [hafter, htext] at hedit
    rw [hafter, habove, hbelow] at hacc
    cases edit with
    | none =>
      refine ⟨regions, ?_, hregions, state, by rw [hacc, hstate'], hstateBefore, hafter⟩
      simp only [editRegion, htarget, hregion, if_pos hpath, hedit]
      rfl
    | some edit =>
      have hkey : state.relPath = relPath := key_of_find? hstate'
      refine ⟨Splice.setText operation.targetID edit.1 regions, ?_, hregions.setText _ _,
        { state with
          after := splice target.before 0 (Splice.setText operation.targetID edit.1 regions) },
        ?_, hstateBefore, rfl⟩
      · simp only [editRegion, htarget, hregion, if_pos hpath, hedit]
        rfl
      · rw [hacc, find?_update, hstate', Option.map_some, if_pos (by simp [hkey, hpath]),
          hset, hregions.pieces hregion]
  · refine ⟨regions, tracks_other htracks htarget hpath ?_⟩
    cases edit with
    | none => exact .inl hacc
    | some edit => exact .inr ⟨_, _, hacc⟩

end

variable (requireCleanMatch : Bool)

/-- The operations before each one kept the lines above its target, and its own. -/
def LinesKept (targets : EditPlanTargets host root denyPaths)
    (relPath : String) (before : Bytes) (operations : List EditPlanOperation) : Prop :=
  ∀ n, (hn : n < operations.length) →
    ∀ regions ∈ (expectedRegions requireCleanMatch targets relPath before
      (operations.take n)).toOption, LinesKeptAt before regions operations[n].targetID

instance (targets : EditPlanTargets host root denyPaths)
    (relPath : String) (before : Bytes) (operations : List EditPlanOperation) :
    Decidable (LinesKept requireCleanMatch targets relPath before operations) :=
  inferInstanceAs (Decidable (∀ n, (hn : n < _) → ∀ regions ∈ _, _))

theorem tracks_initial {state : EditPlanFileState} (hdisjoint : DisjointTargets targets relPath)
    (hbefore : ∀ entry ∈ entriesOn targets relPath, entry.2.before = before)
    (hstate : (editPlanInitialFileStates targets).find? relPath = some state)
    (hstateBefore : state.before = before) (hafter : state.after = before) :
    Tracks targets relPath before ([], editPlanInitialFileStates targets)
      (editPlanRegions targets relPath) := by
  have hregions := regionsOn_editPlanRegions hdisjoint
  refine ⟨hregions, state, hstate, hstateBefore, ?_⟩
  have htext : ∀ region ∈ editPlanRegions targets relPath,
      region.text = region.original before := by
    intro region h
    obtain ⟨entry, hentry, rfl⟩ := mem_map.mp h
    rw [← hbefore entry hentry]
    rfl
  rw [splice_original hregions.ascending htext, hafter, drop_zero]

/-- The original content with each target's lines replaced by what its operations make of them. -/
def TouchesOnlyTargets (targets : EditPlanTargets host root denyPaths)
    (relPath : String) (before after : Bytes) (operations : List EditPlanOperation) : Prop :=
  ∃ regions ∈ (expectedRegions requireCleanMatch targets relPath before operations).toOption,
    after = splice before 0 regions

instance (targets : EditPlanTargets host root denyPaths)
    (relPath : String) (before after : Bytes) (operations : List EditPlanOperation) :
    Decidable (TouchesOnlyTargets requireCleanMatch targets relPath before after operations) :=
  inferInstanceAs (Decidable (∃ regions ∈ _, _))

def sampleHost : Host where
  lstat _ := .present
  evalSymlinks := .ok
  stat _ := .ok ⟨false, 6⟩
  readFile _ := .ok [97, newline, 98, newline, 99, newline]
  sha256Hex _ := ""
  toLower := id
  pathMatch _ _ := false
  compile _ := .error ""

def sampleOperation (id : String) (kind : EditPlanKind) (targetID : String)
    (find content : Bytes) : EditPlanOperation :=
  ⟨id, kind, targetID, find, content, content, "", 0⟩

variable (operations : List EditPlanOperation)

def samplePacket : EditPlanRequest where
  version := "edit-plan-v1"
  targets := [⟨"t1", "f.txt", "", ⟨1, 1⟩, "", "", none⟩, ⟨"t2", "f.txt", "", ⟨3, 3⟩, "", "", none⟩]
  operations
  constraints := ⟨true, false, [], 0⟩

def samplePlan : Except EditPlanError (ValidatedEditPlan sampleHost "/w") :=
  validateEditPlanPacket sampleHost "/w" (samplePacket operations) ⟨false, false, false, false⟩

theorem applyEditPlanInMemory_touchesOnlyTargets {plan : ValidatedEditPlan host root} {id : String}
    {target : EditPlanResolvedTarget host root plan.denyPaths}
    {results : List EditPlanOperationResult} {states : EditPlanFileStates}
    (htarget : plan.targets.byID.find? id = some (id, target))
    (hdisjoint : DisjointTargets plan.targets target.relPath)
    (hkept : LinesKept plan.packet.constraints.requireCleanMatch plan.targets target.relPath
      target.before plan.packet.operations)
    (happly : applyEditPlanInMemory plan.packet plan.targets
      (editPlanInitialFileStates plan.targets) = .ok (results, states)) :
    ∃ state, states.find? target.relPath = some state ∧ state.before = target.before ∧
      TouchesOnlyTargets plan.packet.constraints.requireCleanMatch plan.targets target.relPath
        state.before state.after plan.packet.operations := by
  have hbefore : ∀ entry ∈ entriesOn plan.targets target.relPath,
      entry.2.before = target.before := by
    intro entry hentry
    exact EditPlanResolvedTarget.before_eq (mem_entriesOn.mp hentry).2
  obtain ⟨state₀, hstate₀, hbefore₀, hafter₀⟩ := editPlanInitialFileStates_find? htarget
  have hstart := tracks_initial hdisjoint hbefore hstate₀ hbefore₀ hafter₀
  obtain ⟨regions, hregions, -, state, hstate, hstateBefore, hafter⟩ :=
    foldlM_simulation (g := editRegion plan.packet.constraints.requireCleanMatch plan.targets
      target.relPath target.before) (R := Tracks plan.targets target.relPath target.before)
      (fun earlier operation later hops acc regions acc' htracks hearlier hstep ↦ by
        refine tracks_step hbefore htracks ?_ hstep
        have hlen : earlier.length < plan.packet.operations.length := by simp [hops]
        have h := hkept earlier.length hlen regions
        simp only [hops, take_left, getElem_append_right (Nat.le_refl _), Nat.sub_self,
          getElem_cons_zero] at h
        refine h ?_
        rw [expectedRegions, hearlier]
        rfl) hstart happly
  refine ⟨state, hstate, hstateBefore, regions, ?_, ?_⟩
  · rw [hstateBefore, expectedRegions, hregions]
    rfl
  · rw [hstateBefore]
    exact hafter

/-- Replacing the first line's text and deleting the last line keeps to the two lines. -/
theorem touchesOnlyTargets_replace_delete :
    ∃ plan ∈ (samplePlan [sampleOperation "o1" .replaceLiteral "t1" [97] [120],
        sampleOperation "o2" .deleteRange "t2" [] []]).toOption,
      ∃ entry ∈ plan.targets.byID.find? "t2", ∃ out ∈ (applyEditPlanInMemory plan.packet
        plan.targets (editPlanInitialFileStates plan.targets)).toOption,
      ∃ state, out.2.find? entry.2.relPath = some state ∧ state.before = entry.2.before ∧
        TouchesOnlyTargets plan.packet.constraints.requireCleanMatch plan.targets
          entry.2.relPath state.before state.after plan.packet.operations := by
  have hsample : ∃ plan ∈ (samplePlan [sampleOperation "o1" .replaceLiteral "t1" [97] [120],
        sampleOperation "o2" .deleteRange "t2" [] []]).toOption,
      ∃ entry ∈ plan.targets.byID.find? "t2", entry.1 = "t2" ∧
      ∃ out ∈ (applyEditPlanInMemory plan.packet
        plan.targets (editPlanInitialFileStates plan.targets)).toOption,
      DisjointTargets plan.targets entry.2.relPath ∧
      LinesKept plan.packet.constraints.requireCleanMatch plan.targets entry.2.relPath
        entry.2.before plan.packet.operations := by decide +kernel
  obtain ⟨plan, hplan, ⟨_, target⟩, hentry, rfl, out, hout, hdisjoint, hkept⟩ := hsample
  refine ⟨plan, hplan, _, hentry, out, hout, ?_⟩
  exact applyEditPlanInMemory_touchesOnlyTargets hentry hdisjoint hkept (toOption_eq_some.mp hout)

/-- A line inserted above shifts the next operation's range: the line before the last is deleted. -/
theorem touchesOnlyTargets_insert_delete_fails :
    ∃ plan ∈ (samplePlan [sampleOperation "o1" .insertBefore "t1" [] [120, newline],
        sampleOperation "o2" .deleteRange "t2" [] []]).toOption,
      plan.version = .v1 ∧ DisjointTargets plan.targets "f.txt" ∧
      ∃ out ∈ (applyEditPlanInMemory plan.packet
        plan.targets (editPlanInitialFileStates plan.targets)).toOption,
      ∃ state ∈ out.2.find? "f.txt",
        state.before = [97, newline, 98, newline, 99, newline] ∧
        state.after = [120, newline, 97, newline, 99, newline] ∧
        ¬TouchesOnlyTargets plan.packet.constraints.requireCleanMatch plan.targets "f.txt"
          state.before state.after plan.packet.operations := by
  decide +kernel

end MiLsp.EditPlan
