import MiLsp.Store.Publications

namespace MiLsp.Store

open MiLsp.Graph Library Attempt

def Database.registry (db : Database) : List (String × String) :=
  db.generations.rows.map fun g ↦ (g.generationID, g.jobID)

/-- Job management changes no rows, no graph and nothing served. At most it declares the graph
stale. -/
structure Bookkeeping (db db' : Database) : Prop where
  registry : db'.registry = db.registry
  catalog : db'.catalog = db.catalog
  docs : db'.docs = db.docs
  graph : db'.graph = db.graph
  info : db'.info = db.info ∨
    db'.info = { db.info with graphRuntimeState := some .stale, graphCatalogGeneration := none }

variable {host : GraphHost} {world : World} {db db₁ db' : Database} {jobID now : String}
  {fence : IndexJobFence}

namespace Bookkeeping

theorem refl (db : Database) : Bookkeeping db db := ⟨rfl, rfl, rfl, rfl, .inl rfl⟩

theorem trans (h : Bookkeeping db db₁) (h' : Bookkeeping db₁ db') : Bookkeeping db db' where
  registry := h'.registry.trans h.registry
  catalog := h'.catalog.trans h.catalog
  docs := h'.docs.trans h.docs
  graph := h'.graph.trans h.graph
  info := by
    obtain hinfo | hinfo := h.info
    · rw [← hinfo]
      exact h'.info
    · obtain hinfo' | hinfo' := h'.info
      · exact .inr (hinfo'.trans hinfo)
      · rw [hinfo] at hinfo'
        exact .inr hinfo'

section

variable {guard : IndexJob → Bool} {set : IndexJob → IndexJob}
  {hset : ∀ job, (set job).jobID = job.jobID}

theorem of_updateJob (h : db.updateJob jobID guard set hset = .ok db') : Bookkeeping db db' := by
  obtain ⟨-, rfl⟩ := updateJob_eq_ok.mp h
  exact ⟨rfl, rfl, rfl, rfl, .inl rfl⟩

theorem of_markIndexJob (h : markIndexJob db jobID fence guard set hset = .ok db') :
    Bookkeeping db db' := by
  obtain ⟨-, h⟩ := seq_eq_ok.mp h
  exact of_updateJob h

end

theorem of_updateOwnership {set : IndexJobOwnership → IndexJobOwnership}
    {hset : ∀ o, (set o).workspaceRoot = o.workspaceRoot}
    (h : db.updateOwnership jobID fence set hset = .ok db') : Bookkeeping db db' := by
  obtain ⟨-, rfl⟩ := updateOwnership_eq_ok.mp h
  exact ⟨rfl, rfl, rfl, rfl, .inl rfl⟩

theorem of_endGeneration {from_ : List IndexGenerationStatus} {status : IndexGenerationStatus}
    {error : String} (h : db.endGeneration jobID from_ status error = .ok db') :
    Bookkeeping db db' := by
  obtain ⟨generations, hupdate, rfl⟩ := map_eq_ok.mp h
  rw [orElse_eq_ok] at hupdate
  exact ⟨Table.map_updateOne hupdate fun _ ↦ rfl, rfl, rfl, rfl, .inl rfl⟩

theorem of_setGraphRuntimeStateTx (db : Database) :
    Bookkeeping db (setGraphRuntimeStateTx db .stale "") :=
  ⟨rfl, rfl, rfl, rfl, .inr rfl⟩

theorem of_completeIndexJobTx {files symbols docs : ℤ} {publication : Bool}
    (h : completeIndexJobTx db jobID files symbols docs fence publication now = .ok db') :
    Bookkeeping db db' := by
  obtain ⟨db₁, h₁, h⟩ := bind_eq_ok.mp h
  exact (of_updateJob h₁).trans (of_updateOwnership h)

theorem of_markIndexJobRunning {pid : ℤ} {phase : String}
    (h : markIndexJobRunning db jobID pid phase fence now = .ok db') : Bookkeeping db db' := by
  obtain ⟨db₁, h₁, h⟩ := bind_eq_ok.mp h
  exact (of_markIndexJob h₁).trans (of_updateOwnership h)

variable {message : String}

theorem of_markIndexGenerationSkipped
    (h : markIndexGenerationSkipped db jobID message fence = .ok db') : Bookkeeping db db' := by
  obtain ⟨-, h⟩ := seq_eq_ok.mp h
  obtain ⟨-, h⟩ := guarded_eq_ok.mp h
  exact of_endGeneration h

theorem of_markIndexJobFailed (h : markIndexJobFailed db jobID message fence now = .ok db') :
    Bookkeeping db db' := by
  obtain ⟨db₁, h₁, h⟩ := bind_eq_ok.mp h
  obtain ⟨db₂, h₂, h⟩ := bind_eq_ok.mp h
  have hended := (of_markIndexJob h₁).trans (of_endGeneration h₂)
  split at h
  · refine hended.trans (.trans ?_ (of_updateOwnership h))
    split
    · exact refl db₂
    · exact of_setGraphRuntimeStateTx db₂
  · cases h

theorem of_markIndexJobCanceled (h : markIndexJobCanceled db jobID fence now = .ok db') :
    Bookkeeping db db' := by
  obtain ⟨db₁, h₁, h⟩ := bind_eq_ok.mp h
  obtain ⟨db₂, h₂, h⟩ := bind_eq_ok.mp h
  exact ((of_markIndexJob h₁).trans (of_endGeneration h₂)).trans (of_updateOwnership h)

theorem of_cancelQueuedTx (h : cancelQueuedTx db jobID now = .ok db') : Bookkeeping db db' := by
  obtain ⟨db₁, h₁, h⟩ := bind_eq_ok.mp h
  split at h
  · obtain ⟨-, h⟩ := guarded_eq_ok.mp h
    obtain ⟨db₂, h₂, h⟩ := bind_eq_ok.mp h
    exact ((of_updateJob h₁).trans (of_endGeneration h₂)).trans (of_updateOwnership h)
  · cases h

theorem of_cancelTx (h : cancelTx jobID now db = .ok db') : Bookkeeping db db' := by
  unfold cancelTx at h
  split at h
  · exact of_cancelQueuedTx h
  · split at h
    next h₁ =>
      cases h
      exact of_updateJob h₁
    next =>
      cases h
      exact refl db

theorem of_apply {op : Operation} (hop : op.publishes = false)
    (h : op.apply host world db = .ok db') : Bookkeeping db db' := by
  cases op with
  | running jobID pid name fence => exact of_markIndexJobRunning h
  | phase jobID status name fence =>
    simp only [Operation.apply, markIndexJobPhase] at h
    split at h
    · cases h
    · exact of_markIndexJob h
  | progress jobID made fence => exact of_markIndexJob h
  | succeeded jobID counts fence =>
    obtain ⟨-, h⟩ := seq_eq_ok.mp h
    exact of_completeIndexJobTx h
  | skipped jobID message fence => exact of_markIndexGenerationSkipped h
  | failed jobID message fence => exact of_markIndexJobFailed h
  | canceled jobID fence => exact of_markIndexJobCanceled h
  | publish call mode counts body => cases hop
  | requestCancel jobID => exact of_cancelTx h
  | terminating jobID fence => exact of_updateJob h

end Bookkeeping

section Registry

variable {clock : Clock} {call : JobCall} {mode : IndexMode} {counts : Counts}
  {graph : Option GraphPublication}

theorem Database.registry_of_control (h : db'.control = db.control) :
    db'.registry = db.registry := by
  have hgenerations : db'.generations = db.generations := congrArg (·.2.2.1) h
  rw [Database.registry, hgenerations]
  rfl

theorem publishGenerationForJobTx_registry
    (h : publishGenerationForJobTx db clock call mode counts = .ok db') :
    db'.registry = db.registry := by
  unfold publishGenerationForJobTx at h
  split at h
  · cases h
    rfl
  · obtain ⟨generations, hupdate, rfl⟩ := map_eq_ok.mp h
    rw [orElse_eq_ok] at hupdate
    exact Table.map_updateOne hupdate fun _ ↦ rfl

theorem ownedGenerationTx_registry
    (h : ownedGenerationTx clock db call mode counts graph = .ok db') :
    db'.registry = db.registry := by
  unfold ownedGenerationTx at h
  split at h
  · split at h
    · obtain ⟨generations, hupdate, rfl⟩ := map_eq_ok.mp h
      rw [orElse_eq_ok] at hupdate
      exact Table.map_updateOne hupdate fun _ ↦ rfl
    · exact publishGenerationForJobTx_registry h
  · exact publishGenerationForJobTx_registry h

theorem publishOwned_registry
    {body : Database → Except StoreError (Database × Option GraphPublication)}
    (hbody : ∀ {db db' graph}, body db = .ok (db', graph) → db'.control = db.control)
    (h : publishOwned host clock db call mode counts body = .ok db') :
    db'.registry = db.registry := by
  obtain ⟨db₁, db₂, db₃, graph, activated, h₁, h₂, h₃, h⟩ := publishOwned_eq_ok h
  have h₄ : Database.registry { db₃ with graph := activated } = db₃.registry := rfl
  rw [(Bookkeeping.of_completeIndexJobTx h).registry,
    Database.registry_of_control ownedRuntimeState_control, h₄, ownedGenerationTx_registry h₃,
    Database.registry_of_control (hbody h₂), (Bookkeeping.of_markIndexJob h₁).registry]

theorem Operation.apply_registry {op : Operation} (h : op.apply host world db = .ok db') :
    db'.registry = db.registry := by
  cases hop : op.publishes with
  | false => exact (Bookkeeping.of_apply hop h).registry
  | true =>
    cases op with
    | publish call mode counts body => exact publishOwned_registry PublicationBody.eval_control h
    | _ => cases hop

end Registry

end MiLsp.Store
