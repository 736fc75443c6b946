import MiLsp.EditPlan.Frame

namespace MiLsp.EditPlan

open Library Strings Attempt Option

abbrev GoASTEdit :=
  EditPlanOperation → EditPlanTarget → String → Bytes → Bool →
    Except String (Bytes × ℕ × EditPlanStatus)

variable {host : Host} {root : String} {denyPaths : List String} (applyGoASTEdit : GoASTEdit)

def applyEditPlanV2Operation (requireCleanMatch : Bool)
    (targets : EditPlanTargets host root denyPaths)
    (acc : List EditPlanOperationResult × EditPlanFileStates) (operation : EditPlanOperation) :
    Except EditPlanError (List EditPlanOperationResult × EditPlanFileStates) := do
  let some (_, target) := targets.byID.find? operation.targetID
    | throw (.operation operation.id .nilFileState)
  let some state := acc.2.find? target.relPath
    | throw (.operation operation.id .nilFileState)
  let (after, replacements, status) ←
    (applyGoASTEdit operation target.target target.relPath state.after requireCleanMatch).mapError
      fun cause ↦ .operation operation.id (.goAST cause)
  return (acc.1 ++ [⟨operation.id, operation.kind, operation.targetID, target.relPath, status,
    replacements⟩], acc.2.update (fun s ↦ s.relPath = target.relPath)
      (fun s ↦ { s with after }) fun _ ↦ rfl)

def applyEditPlanV2InMemory (packet : EditPlanRequest)
    (targets : EditPlanTargets host root denyPaths) (fileStates : EditPlanFileStates) :
    Except EditPlanError (List EditPlanOperationResult × EditPlanFileStates) :=
  packet.operations.foldlM
    (applyEditPlanV2Operation applyGoASTEdit packet.constraints.requireCleanMatch targets)
    ([], fileStates)

variable (edit : GoASTEdit) (plan : ValidatedEditPlan host root)

def ValidatedEditPlan.step (acc : List EditPlanOperationResult × EditPlanFileStates)
    (operation : EditPlanOperation) :
    Except EditPlanError (List EditPlanOperationResult × EditPlanFileStates) :=
  match plan.version with
  | .v1 =>
    applyEditPlanOperation plan.packet.constraints.requireCleanMatch plan.targets acc operation
  | .v2 =>
    applyEditPlanV2Operation edit plan.packet.constraints.requireCleanMatch plan.targets acc
      operation

def ValidatedEditPlan.apply :
    Except EditPlanError (List EditPlanOperationResult × EditPlanFileStates) :=
  match plan.version with
  | .v1 => applyEditPlanInMemory plan.packet plan.targets (editPlanInitialFileStates plan.targets)
  | .v2 =>
    applyEditPlanV2InMemory edit plan.packet plan.targets (editPlanInitialFileStates plan.targets)

def ValidatedEditPlan.Reaches (operations : List EditPlanOperation)
    (acc : List EditPlanOperationResult × EditPlanFileStates) : Prop :=
  operations <+: plan.packet.operations ∧
    operations.foldlM (plan.step edit) ([], editPlanInitialFileStates plan.targets) = .ok acc

def Panics {α : Type} (result : Except EditPlanError α) : Prop :=
  ∃ id, result = .error (.operation id .nilFileState)

/-- Each operation is applied to the target that validation found, whose file has a state. -/
def ValidatedEditPlan.AppliesAsValidated : Prop :=
  ∀ operation ∈ plan.packet.operations, ∀ earlier acc, plan.Reaches edit earlier acc →
    ∃ target state,
      plan.targets.byID.find? (trimSpace operation.targetID) =
        some (trimSpace operation.targetID, target) ∧
      plan.targets.byID.find? operation.targetID = some (operation.targetID, target) ∧
      acc.2.find? target.relPath = some state ∧ ¬Panics (plan.step edit acc operation)

variable {edit plan} {flags : EditPlanFlags} {packet : EditPlanRequest}
  {operation : EditPlanOperation} {acc : List EditPlanOperationResult × EditPlanFileStates}
  {targets : EditPlanTargets host root denyPaths} {version : EditPlanVersion}

theorem addEditPlanTarget_byID {maxFileBytes : ℤ} {requireEvidence : Bool}
    {targets' : EditPlanTargets host root denyPaths} {target : EditPlanTarget}
    (h : addEditPlanTarget host root denyPaths flags version maxFileBytes requireEvidence targets
      target = .ok targets') :
    ∃ resolved, targets'.byID = targets.byID.put (trimSpace target.id, resolved) := by
  obtain ⟨-, h⟩ := guarded_eq_ok.mp h
  obtain ⟨-, h⟩ := guarded_eq_ok.mp h
  obtain ⟨resolved, -, h⟩ := bind_eq_ok.mp h
  obtain ⟨warnings, -, h⟩ := bind_eq_ok.mp h
  exact ⟨resolved, congrArg EditPlanTargets.byID (pure_eq_ok.mp h).symm⟩

theorem trimmed_of_validated (h : validateEditPlanPacket host root packet flags = .ok plan)
    {id : String} {entry : String × EditPlanResolvedTarget host root plan.denyPaths}
    (hentry : plan.targets.byID.find? id = some entry) : trimSpace id = id := by
  unfold validateEditPlanPacket at h
  split at h
  next version =>
    obtain ⟨-, h⟩ := guarded_eq_ok.mp h
    obtain ⟨-, h⟩ := guarded_eq_ok.mp h
    obtain ⟨targets, htargets, h⟩ := bind_eq_ok.mp h
    obtain ⟨_, -, h⟩ := bind_eq_ok.mp h
    obtain rfl := pure_eq_ok.mp h
    refine foldlM_invariant (I := fun targets ↦ ∀ id entry,
      targets.byID.find? id = some entry → trimSpace id = id) ?_ ?_ htargets id entry hentry
    · intro targets target _ targets' ih hstep id entry hfind
      obtain ⟨resolved, hput⟩ := addEditPlanTarget_byID hstep
      rw [hput, Table.find?_put] at hfind
      split at hfind
      next hid =>
        rw [← hid]
        exact trimSpace_trimSpace target.id
      · exact ih id entry hfind
    · intro id entry hfind
      cases hfind
  · cases h

theorem checkEditPlanOperation_target {seen seen' : List String × List (String × String)}
    (h : checkEditPlanOperation host root denyPaths version targets seen operation = .ok seen') :
    ∃ target, targets.byID.find? (trimSpace operation.targetID) =
      some (trimSpace operation.targetID, target) := by
  obtain ⟨-, h⟩ := guarded_eq_ok.mp h
  obtain ⟨-, h⟩ := guarded_eq_ok.mp h
  obtain ⟨-, h⟩ := guarded_eq_ok.mp h
  split at h
  next id target hfind =>
    obtain rfl : id = trimSpace operation.targetID := Table.key_of_find? hfind
    exact ⟨target, hfind⟩
  · cases h

theorem target_of_validated (h : validateEditPlanPacket host root packet flags = .ok plan) :
    plan.packet.operations = packet.operations ∧
      ∀ operation ∈ packet.operations, ∃ target,
        plan.targets.byID.find? (trimSpace operation.targetID) =
          some (trimSpace operation.targetID, target) := by
  unfold validateEditPlanPacket at h
  split at h
  next version =>
    obtain ⟨-, h⟩ := guarded_eq_ok.mp h
    obtain ⟨-, h⟩ := guarded_eq_ok.mp h
    obtain ⟨targets, -, h⟩ := bind_eq_ok.mp h
    obtain ⟨_, hoperations, h⟩ := bind_eq_ok.mp h
    obtain rfl := pure_eq_ok.mp h
    refine ⟨rfl, ?_⟩
    intro operation hmem
    obtain ⟨_, _, hcheck⟩ := foldlM_accepts hoperations hmem
    exact checkEditPlanOperation_target hcheck
  · cases h

theorem ValidatedEditPlan.step_isSome {acc' : List EditPlanOperationResult × EditPlanFileStates}
    (h : plan.step edit acc operation = .ok acc') (path : String) :
    (acc'.2.find? path).isSome = (acc.2.find? path).isSome := by
  unfold step at h
  split at h
  · obtain ⟨target, state, start, stop, count, change, -, -, -, -, hacc⟩ :=
      applyEditPlanOperation_eq_ok h
    rw [hacc]
    split
    · rfl
    · rw [Table.find?_update, isSome_map]
  · unfold applyEditPlanV2Operation at h
    split at h
    · split at h
      · obtain ⟨⟨after, replacements, status⟩, -, h⟩ := bind_eq_ok.mp h
        rw [← pure_eq_ok.mp h, Table.find?_update, isSome_map]
      · cases h
    · cases h

theorem ValidatedEditPlan.Reaches.isSome {earlier : List EditPlanOperation}
    (h : plan.Reaches edit earlier acc) (path : String) :
    (acc.2.find? path).isSome = ((editPlanInitialFileStates plan.targets).find? path).isSome := by
  refine foldlM_invariant (I := fun acc ↦ (acc.2.find? path).isSome =
    ((editPlanInitialFileStates plan.targets).find? path).isSome) ?_ rfl h.2
  intro acc operation _ acc' ih hstep
  rw [step_isSome hstep, ih]

theorem editRangeText_ne_nilFileState {requireCleanMatch : Bool} {lineEnding rangeText : Bytes} :
    editRangeText host requireCleanMatch operation lineEnding rangeText ≠ .error .nilFileState := by
  unfold editRangeText
  split
  case h_1 =>
    dsimp only
    split_ifs <;> simp
  case h_2 =>
    cases host.compile operation.find with
    | error cause => simp [bind, Except.bind, Except.mapError]
    | ok re =>
      simp only [bind, Except.bind, Except.mapError]
      split_ifs <;> simp
  all_goals simp

theorem ValidatedEditPlan.step_not_panics {id : String}
    {target : EditPlanResolvedTarget host root plan.denyPaths} {state : EditPlanFileState}
    (htarget : plan.targets.byID.find? operation.targetID = some (id, target))
    (hstate : acc.2.find? target.relPath = some state) :
    ¬Panics (plan.step edit acc operation) := by
  rintro ⟨id', h⟩
  unfold step at h
  split at h
  · simp only [applyEditPlanOperation, htarget, hstate] at h
    cases hrange : editPlanLineRangeOffsets state.after target.target.range.startLine
        target.target.range.endLine with
    | error cause => simp [hrange, bind, Except.bind, Except.mapError] at h
    | ok offsets =>
      cases hedit : editRangeText host plan.packet.constraints.requireCleanMatch operation
          (detectEditPlanLineEnding state.after)
          ((state.after.take offsets.2.1).drop offsets.1) with
      | error cause =>
        simp only [hrange, hedit, bind, Except.bind, Except.mapError, Except.error.injEq,
          EditPlanError.operation.injEq] at h
        rw [h.2] at hedit
        exact editRangeText_ne_nilFileState hedit
      | ok change =>
        simp only [hrange, hedit, bind, Except.bind, Except.mapError] at h
        cases change <;> cases h
  · simp only [applyEditPlanV2Operation, htarget, hstate] at h
    cases hedit : edit operation target.target target.relPath state.after
        plan.packet.constraints.requireCleanMatch with
    | error cause => simp [hedit, bind, Except.bind, Except.mapError] at h
    | ok out => simp [hedit, bind, Except.bind, Except.mapError, pure, Except.pure] at h

theorem ValidatedEditPlan.apply_eq_foldlM : plan.apply edit =
    plan.packet.operations.foldlM (plan.step edit)
      ([], editPlanInitialFileStates plan.targets) := by
  have hstep : plan.step edit = match plan.version with
      | .v1 => applyEditPlanOperation plan.packet.constraints.requireCleanMatch plan.targets
      | .v2 =>
        applyEditPlanV2Operation edit plan.packet.constraints.requireCleanMatch plan.targets := by
    funext acc operation
    rw [step]
    cases plan.version <;> rfl
  rw [apply, hstep]
  cases plan.version <;> rfl

theorem ValidatedEditPlan.AppliesAsValidated.not_panics (h : plan.AppliesAsValidated edit) :
    ¬Panics (plan.apply edit) := by
  rintro ⟨id, herror⟩
  rw [apply_eq_foldlM] at herror
  obtain ⟨before, operation, after, acc, hsplit, hbefore, hlast⟩ := foldlM_eq_error herror
  obtain ⟨-, -, -, -, -, hnot⟩ := h operation (by simp [hsplit]) before acc
    ⟨hsplit ▸ List.prefix_append _ _, hbefore⟩
  exact hnot ⟨id, hlast⟩

/-- An accepted packet is executed on what was validated exactly when no target id has outer white
space. -/
theorem appliesAsValidated_iff {packet : EditPlanRequest} {flags : EditPlanFlags}
    (h : validateEditPlanPacket host root packet flags = .ok plan) :
    plan.AppliesAsValidated edit ↔
      ∀ operation ∈ packet.operations, trimSpace operation.targetID = operation.targetID := by
  obtain ⟨hoperations, htargets⟩ := target_of_validated h
  constructor
  · intro happlies operation hmem
    obtain ⟨target, _, -, hfind, -, -⟩ := happlies operation (hoperations ▸ hmem) []
      ([], editPlanInitialFileStates plan.targets) ⟨List.nil_prefix, rfl⟩
    exact trimmed_of_validated h hfind
  · intro htrimmed operation hmem earlier acc hreaches
    rw [hoperations] at hmem
    obtain ⟨target, hfind⟩ := htargets operation hmem
    have hraw := hfind
    rw [htrimmed operation hmem] at hraw
    obtain ⟨state₀, hstate₀, -, -⟩ := editPlanInitialFileStates_find? hraw
    have hsome := hreaches.isSome target.relPath
    rw [hstate₀, isSome_some] at hsome
    obtain ⟨state, hstate⟩ := isSome_iff_exists.mp hsome
    exact ⟨target, state, hfind, hraw, hstate, ValidatedEditPlan.step_not_panics hraw hstate⟩

theorem appliesAsValidated_sample :
    ∃ plan, samplePlan [sampleOperation "o1" .replaceLiteral "t1" [97] [120],
        sampleOperation "o2" .deleteRange "t2" [] []] = .ok plan ∧
      plan.AppliesAsValidated fun _ _ _ content _ ↦ .ok (content, 0, .ok) := by
  have hsample : (samplePlan [sampleOperation "o1" .replaceLiteral "t1" [97] [120],
      sampleOperation "o2" .deleteRange "t2" [] []]).toOption.isSome = true := by decide +kernel
  obtain ⟨plan, hplan⟩ := isSome_iff_exists.mp hsample
  refine ⟨plan, toOption_eq_some.mp hplan, ?_⟩
  exact (appliesAsValidated_iff (toOption_eq_some.mp hplan)).mpr (by decide)

/-- A blank after the target id is accepted, and the operation dereferences a nil file state. -/
theorem padded_target_id_panics :
    ∃ plan ∈ (samplePlan [sampleOperation "o1" .replaceLiteral "t1 " [97] [120]]).toOption,
      plan.version = .v1 ∧ ((plan.targets.byID.find? (trimSpace "t1 ")).isSome = true) ∧
      applyEditPlanInMemory plan.packet plan.targets (editPlanInitialFileStates plan.targets) =
        .error (.operation "o1" .nilFileState) := by
  have hsample : ∃ plan ∈
      (samplePlan [sampleOperation "o1" .replaceLiteral "t1 " [97] [120]]).toOption,
      plan.version = .v1 ∧ ((plan.targets.byID.find? (trimSpace "t1 ")).isSome = true) ∧
      (plan.targets.byID.find? "t1 ").isNone = true ∧
      plan.packet.operations = [sampleOperation "o1" .replaceLiteral "t1 " [97] [120]] := by
    decide +kernel
  obtain ⟨plan, hplan, hversion, hsome, hnone, hoperations⟩ := hsample
  refine ⟨plan, hplan, hversion, hsome, ?_⟩
  rw [applyEditPlanInMemory, hoperations, List.foldlM_cons, applyEditPlanOperation]
  simp only [sampleOperation, isNone_iff_eq_none.mp hnone]
  rfl

end MiLsp.EditPlan
