import MiLsp.EditPlan.Validate

namespace MiLsp.EditPlan

open Library Strings Attempt List EditPlanResolvedTarget

structure EditPlanFileState where
  relPath : String
  absPath : String
  before : Bytes
  after : Bytes

abbrev EditPlanFileStates := Table EditPlanFileState.relPath

inductive EditPlanStatus
  | ok
  | noMatch

structure EditPlanOperationResult where
  id : String
  kind : EditPlanKind
  targetID : String
  path : String
  status : EditPlanStatus
  replacements : ℕ

variable {host : Host} {root : String} {denyPaths : List String}
  {targets : EditPlanTargets host root denyPaths}

def EditPlanResolvedTarget.fileState (t : EditPlanResolvedTarget host root denyPaths) :
    EditPlanFileState :=
  ⟨t.relPath, t.absPath, t.before, t.before⟩

def editPlanInitialFileStates (targets : EditPlanTargets host root denyPaths) :
    EditPlanFileStates :=
  targets.byID.rows.foldl (fun states entry ↦ states.insertNew entry.2.fileState) .empty

def editRangeText (host : Host) (requireCleanMatch : Bool) (operation : EditPlanOperation)
    (lineEnding rangeText : Bytes) : Except OperationError (Option (Bytes × ℕ)) :=
  match operation.kind with
  | .replaceLiteral =>
    let count := count rangeText operation.find
    if count = 0 then
      if requireCleanMatch then .error (.matchNotFound .replaceLiteral) else .ok none
    else if operation.maxReplacements > 0 ∧ (count : ℤ) > operation.maxReplacements then
      .error (.tooManyMatches .replaceLiteral count operation.maxReplacements)
    else
      let limit :=
        if operation.maxReplacements > 0 then some operation.maxReplacements.toNat else none
      .ok (some (replace rangeText operation.find
        (normalizeEditPlanLineEndings operation.replace lineEnding) limit, count))
  | .replaceRegexLimited => do
    let re ← (host.compile operation.find).mapError .invalidRegex
    let count := (re.findAllStringIndex rangeText).length
    if count = 0 then
      if requireCleanMatch then .error (.matchNotFound .replaceRegexLimited) else .ok none
    else if (count : ℤ) > operation.maxReplacements then
      .error (.tooManyMatches .replaceRegexLimited count operation.maxReplacements)
    else
      .ok (some (re.replaceAllString rangeText
        (normalizeEditPlanLineEndings operation.replace lineEnding), count))
  | .insertBefore =>
    .ok (some (normalizeEditPlanLineEndings operation.content lineEnding ++ rangeText, 0))
  | .insertAfter =>
    .ok (some (rangeText ++ normalizeEditPlanLineEndings operation.content lineEnding, 0))
  | .deleteRange => .ok (some ([], 0))
  | .replaceRange =>
    .ok (some (normalizeEditPlanLineEndings operation.content lineEnding, 0))
  | kind => .error (.unsupportedKind kind)

/-- The range is looked up in the file as earlier operations left it, the target as the packet
spells it. -/
def applyEditPlanOperation (requireCleanMatch : Bool)
    (targets : EditPlanTargets host root denyPaths)
    (acc : List EditPlanOperationResult × EditPlanFileStates) (operation : EditPlanOperation) :
    Except EditPlanError (List EditPlanOperationResult × EditPlanFileStates) := do
  let some (_, target) := targets.byID.find? operation.targetID
    | throw (.operation operation.id .nilFileState)
  let some state := acc.2.find? target.relPath
    | throw (.operation operation.id .nilFileState)
  let (start, stop, _) ←
    (editPlanLineRangeOffsets state.after target.target.range.startLine
      target.target.range.endLine).mapError fun cause ↦
        .operation operation.id (.rangeNoLongerValid cause)
  let before := state.after.take start
  let rangeText := (state.after.take stop).drop start
  let suffix := state.after.drop stop
  let edit ← (editRangeText host requireCleanMatch operation
    (detectEditPlanLineEnding state.after) rangeText).mapError (.operation operation.id)
  match edit with
  | none =>
    return (acc.1 ++ [⟨operation.id, operation.kind, operation.targetID, target.relPath,
      .noMatch, 0⟩], acc.2)
  | some (text, replacements) =>
    return (acc.1 ++ [⟨operation.id, operation.kind, operation.targetID, target.relPath, .ok,
      replacements⟩], acc.2.update (fun s ↦ s.relPath = target.relPath)
        (fun s ↦ { s with after := before ++ text ++ suffix }) fun _ ↦ rfl)

def applyEditPlanInMemory (packet : EditPlanRequest) (targets : EditPlanTargets host root denyPaths)
    (fileStates : EditPlanFileStates) :
    Except EditPlanError (List EditPlanOperationResult × EditPlanFileStates) :=
  packet.operations.foldlM
    (applyEditPlanOperation packet.constraints.requireCleanMatch targets) ([], fileStates)

theorem applyEditPlanOperation_eq_ok {requireCleanMatch : Bool}
    {acc acc' : List EditPlanOperationResult × EditPlanFileStates} {operation : EditPlanOperation}
    (h : applyEditPlanOperation requireCleanMatch targets acc operation = .ok acc') :
    ∃ target state start stop count edit,
      targets.byID.find? operation.targetID = some (operation.targetID, target) ∧
      acc.2.find? target.relPath = some state ∧
      editPlanLineRangeOffsets state.after target.target.range.startLine
        target.target.range.endLine = .ok (start, stop, count) ∧
      editRangeText host requireCleanMatch operation (detectEditPlanLineEnding state.after)
        ((state.after.take stop).drop start) = .ok edit ∧
      acc'.2 = match edit with
        | none => acc.2
        | some (text, _) => acc.2.update (fun s ↦ s.relPath = target.relPath)
          (fun s ↦ { s with after := state.after.take start ++ text ++ state.after.drop stop })
          fun _ ↦ rfl := by
  unfold applyEditPlanOperation at h
  split at h
  next id target htarget =>
    have hid : id = operation.targetID := Table.key_of_find? htarget
    subst hid
    split at h
    next state hstate =>
      obtain ⟨⟨start, stop, count⟩, hrange, h⟩ := bind_eq_ok.mp h
      obtain ⟨edit, hedit, h⟩ := bind_eq_ok.mp h
      rw [mapError_eq_ok] at hrange hedit
      refine ⟨target, state, start, stop, count, edit, htarget, hstate, hrange, hedit, ?_⟩
      cases edit with
      | none =>
        rw [pure_eq_ok] at h
        rw [← h]
      | some edit =>
        rw [pure_eq_ok] at h
        rw [← h]
    · cases h
  · cases h

theorem EditPlanResolvedTarget.before_eq {t u : EditPlanResolvedTarget host root denyPaths}
    (h : t.relPath = u.relPath) : t.before = u.before := by
  have habs : t.absPath = u.absPath := by
    rw [resolveEditPlanPath_abs host t.path_ok, resolveEditPlanPath_abs host u.path_ok, h]
  have hread := t.before_ok
  rw [habs, u.before_ok, Except.ok.injEq] at hread
  exact hread.symm

theorem foldl_insertNew_find? (rows : List (String × EditPlanResolvedTarget host root denyPaths))
    (states : EditPlanFileStates) (relPath : String) :
    (rows.foldl (fun states entry ↦ states.insertNew entry.2.fileState) states).find? relPath =
      (states.find? relPath).or
        ((rows.find? fun entry ↦ entry.2.relPath = relPath).map fun entry ↦ entry.2.fileState) := by
  induction rows generalizing states with
  | nil => simp
  | cons entry rows ih =>
    rw [foldl_cons, ih, Table.find?_insertNew, Option.or_assoc, find?_cons]
    by_cases h : entry.2.relPath = relPath
    · simp [h, fileState]
    · simp [h, fileState]

theorem editPlanInitialFileStates_find? {id : String}
    {target : EditPlanResolvedTarget host root denyPaths}
    (h : targets.byID.find? id = some (id, target)) :
    ∃ state, (editPlanInitialFileStates targets).find? target.relPath = some state ∧
      state.before = target.before ∧ state.after = target.before := by
  obtain ⟨entry, hentry⟩ : ∃ entry,
      (targets.byID.rows.find? fun entry ↦ entry.2.relPath = target.relPath) = some entry :=
    Option.isSome_iff_exists.mp
      (find?_isSome.mpr ⟨(id, target), Table.mem_of_find? h, by simp⟩)
  have hpath : entry.2.relPath = target.relPath := by simpa using find?_some hentry
  refine ⟨entry.2.fileState, ?_, before_eq hpath, before_eq hpath⟩
  rw [editPlanInitialFileStates, foldl_insertNew_find?, hentry]
  rfl

end MiLsp.EditPlan
