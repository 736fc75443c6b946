import MiLsp.Store.Transitions

namespace MiLsp.Store

open MiLsp.Graph Library Attempt

def Database.control (db : Database) := (db.jobs, db.ownership, db.generations, db.graph)

variable {db db₁ db' : Database} {host : GraphHost} {clock : Clock} {call : JobCall}
  {mode : IndexMode} {counts : Counts} {graph : Option GraphPublication}

theorem Database.leases_of_control (h : db'.control = db.control) : db'.leases = db.leases :=
  congrArg (fun c ↦ (c.1, c.2.1)) h

section Bodies

theorem replaceCatalog_control {scan : CatalogScan} (h : replaceCatalog db scan = .ok db') :
    db'.control = db.control := by
  obtain ⟨catalog, -, rfl⟩ := map_eq_ok.mp h
  rfl

theorem replaceDocs_control {scan : DocScan} (h : replaceDocs db scan = .ok db') :
    db'.control = db.control := by
  obtain ⟨docs, -, rfl⟩ := map_eq_ok.mp h
  rfl

section

variable {changes : List IncrementalDocChange} {actual : Bool}

theorem applyDocChanges_control (h : applyDocChanges db changes = .ok (db', actual)) :
    db'.control = db.control := by
  obtain ⟨⟨docs, actual'⟩, -, h⟩ := map_eq_ok.mp h
  cases h
  rfl

theorem applyOptionalDocChanges_control
    (h : applyOptionalDocChanges db changes = .ok (db', actual)) : db'.control = db.control := by
  unfold applyOptionalDocChanges at h
  split at h
  · cases h
    rfl
  · exact applyDocChanges_control h

end

theorem setActiveDocsGenerationTx_eq_ok {generationID : String} :
    setActiveDocsGenerationTx db generationID = .ok db' ↔
      Strings.trimSpace generationID ≠ "" ∧
        db' = { db with
          info := { db.info with
            activeDocsGeneration := some generationID
            activeMemoryGeneration := some generationID } } := by
  unfold setActiveDocsGenerationTx
  split
  next h => simp [h]
  next h => simp [h, eq_comm]

theorem PublicationBody.eval_control {body : PublicationBody}
    (h : body.eval clock db = .ok (db', graph)) : db'.control = db.control := by
  cases body with
  | index scan docScan g =>
    obtain ⟨db₁, h₁, h⟩ := bind_eq_ok.mp h
    obtain ⟨db₂, h₂, h⟩ := bind_eq_ok.mp h
    cases h
    exact (replaceDocs_control h₂).trans (replaceCatalog_control h₁)
  | docs docScan g =>
    obtain ⟨db₁, h₁, h⟩ := bind_eq_ok.mp h
    cases h
    exact replaceDocs_control h₁
  | catalog scan =>
    obtain ⟨db₁, h₁, h⟩ := bind_eq_ok.mp h
    cases h
    exact replaceCatalog_control h₁
  | files changes g =>
    cases h
    rfl
  | graphOnly g =>
    cases h
    rfl
  | docChanges changes =>
    obtain ⟨⟨db₁, actual⟩, h₁, h⟩ := bind_eq_ok.mp h
    have hcontrol := applyDocChanges_control h₁
    cases actual with
    | false =>
      cases h
      exact hcontrol
    | true =>
      cases h
      exact hcontrol
  | mixed generationID fileChanges changes =>
    obtain ⟨⟨db₁, actual⟩, h₁, h⟩ := bind_eq_ok.mp h
    have hcontrol := applyOptionalDocChanges_control h₁
    cases actual with
    | false =>
      cases h
      exact hcontrol
    | true =>
      obtain ⟨db₂, h₂, h⟩ := bind_eq_ok.mp h
      cases h
      obtain ⟨-, rfl⟩ := setActiveDocsGenerationTx_eq_ok.mp h₂
      exact hcontrol

end Bodies

theorem publishGenerationForJobTx_leases
    (h : publishGenerationForJobTx db clock call mode counts = .ok db') :
    db'.leases = db.leases := by
  unfold publishGenerationForJobTx at h
  split at h
  · cases h
    rfl
  · obtain ⟨generations, -, rfl⟩ := map_eq_ok.mp h
    rfl

theorem ownedGenerationTx_leases (h : ownedGenerationTx clock db call mode counts graph = .ok db') :
    db'.leases = db.leases := by
  unfold ownedGenerationTx at h
  split at h
  · split at h
    · obtain ⟨generations, -, rfl⟩ := map_eq_ok.mp h
      rfl
    · exact publishGenerationForJobTx_leases h
  · exact publishGenerationForJobTx_leases h

theorem publishGraphTx_eq_ok {graph : GraphPublication}
    (h : publishGraphTx host clock db graph = .ok db') :
    ∃ activated, db' = { db with graph := activated } := by
  obtain ⟨staged, -, h⟩ := bind_eq_ok.mp h
  obtain ⟨activated, -, h⟩ := bind_eq_ok.mp h
  cases h
  exact ⟨activated, rfl⟩

theorem ownedRuntimeState_control {generationID : String} :
    (ownedRuntimeState db generationID mode graph).control = db.control := by
  unfold ownedRuntimeState
  repeat' split
  all_goals rfl

theorem publishOwned_eq_ok
    {body : Database → Except StoreError (Database × Option GraphPublication)}
    (h : publishOwned host clock db call mode counts body = .ok db') :
    ∃ db₁ db₂ db₃ graph activated, beginPublicationTx clock db call = .ok db₁ ∧
      body db₁ = .ok (db₂, graph) ∧ ownedGenerationTx clock db₂ call mode counts graph = .ok db₃ ∧
      completeIndexJobTx
        (ownedRuntimeState { db₃ with graph := activated } call.generationID mode graph) call.jobID
        counts.files counts.symbols counts.docs call.fence true clock.text = .ok db' := by
  obtain ⟨-, h⟩ := seq_eq_ok.mp h
  obtain ⟨-, h⟩ := guarded_eq_ok.mp h
  obtain ⟨db₁, h₁, h⟩ := bind_eq_ok.mp h
  obtain ⟨⟨db₂, graph⟩, h₂, h⟩ := bind_eq_ok.mp h
  obtain ⟨db₃, h₃, h⟩ := bind_eq_ok.mp h
  obtain ⟨db₄, h₄, h⟩ := bind_eq_ok.mp h
  cases graph with
  | none =>
    cases h₄
    exact ⟨db₁, db₂, db₃, none, db₃.graph, h₁, h₂, h₃, h⟩
  | some g =>
    obtain ⟨activated, rfl⟩ := publishGraphTx_eq_ok h₄
    exact ⟨db₁, db₂, db₃, some g, activated, h₁, h₂, h₃, h⟩

theorem publishOwned_ended
    {body : Database → Except StoreError (Database × Option GraphPublication)}
    (hbody : ∀ {db db' graph}, body db = .ok (db', graph) → db'.control = db.control)
    (h : publishOwned host clock db call mode counts body = .ok db') :
    Ended db db' call.jobID call.fence := by
  obtain ⟨db₁, db₂, db₃, graph, activated, h₁, h₂, h₃, h⟩ := publishOwned_eq_ok h
  obtain ⟨job, hkey, hguard, hbegin, -⟩ :=
    markIndexJob_moves h₁ fun job hjob ↦ ⟨rfl, publishable_steps hjob⟩
  obtain ⟨job₁, job', db₅, hkey₁, -, hstatus, hcomplete, hrelease⟩ := completeIndexJobTx_moves h
  -- between the first and the last statement on the job nothing touches it
  have hleases : (ownedRuntimeState { db₃ with graph := activated } call.generationID mode
      graph).leases = db₁.leases := by
    rw [Database.leases_of_control ownedRuntimeState_control,
      ← Database.leases_of_control (hbody h₂), ← ownedGenerationTx_leases h₃]
    rfl
  have hframe := hbegin.frame hleases
  have hfound := hcomplete.found
  rw [hkey₁, ← hkey, hframe.sets.find?] at hfound
  cases hfound
  rw [← hkey] at hrelease ⊢
  exact releaseIndexJobOwnershipTx_ended (hframe.trans hcomplete) hrelease rfl
    (publishable_isActive hguard) (isActive_of_status_eq hstatus)

end MiLsp.Store
