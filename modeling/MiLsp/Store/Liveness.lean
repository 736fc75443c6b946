import MiLsp.Store.Reclaim

namespace MiLsp.Store

open MiLsp.Graph Library Attempt

def Refused (result : Except StoreError (Database × LoadedJob)) : Prop :=
  ∃ active, result = .error (.activeIndexJob active) ∨
    ∃ goOffline noEmbeddings, result =
      .error (.indexJobPolicyMismatch active goOffline noEmbeddings)

/-- A job is refused exactly when the workspace has an active job that a read would not call stale;
a dead reservation is taken over under a larger token. -/
structure AgreesOnLiveness (db : Database) (processes : Processes) (ids : NewIndexIDs)
    (request : IndexJobRequest) (now : String) : Prop where
  refused : Refused (createIndexJob db processes ids request now) ↔
    ∃ job ∈ db.jobs.rows, job.workspaceRoot = request.workspaceRoot ∧ job.isActive = true ∧
      staleIndexJobForRead db processes job = false
  takeover : ∀ o, db.ownership.find? request.workspaceRoot = some o → o.releasedAt = none →
    0 < o.pid → processes o.pid = false →
      ∃ db' loaded o', createIndexJob db processes ids request now = .ok (db', loaded) ∧
        db'.ownership.find? request.workspaceRoot = some o' ∧
        o.fence.fencingToken < o'.fence.fencingToken

variable {host : GraphHost} {log : List LoadedJob} {db : Database} {processes : Processes}
  {ids : NewIndexIDs} {request : IndexJobRequest} {mode : IndexMode} {now : String}
  {job : IndexJob}

theorem refused_policyError (job : IndexJob) (active : ActiveJob) :
    Refused (.error (policyError job (.activeIndexJob active))) := by
  refine ⟨active, ?_⟩
  simp only [policyError]
  split
  · exact .inr ⟨_, _, rfl⟩
  · exact .inl rfl

section Create

variable (h : Fenced db) (hmode : normalizeIndexMode request.mode = .ok mode)
  (hfresh : db.jobs.find? (newIndexID "idxjob" ids.job) = none)

include h hmode hfresh

theorem Fenced.createIndexJob_of_active (hjob : db.jobs.find? job.jobID = some job)
    (hroot : job.workspaceRoot = request.workspaceRoot) (hactive : job.isActive = true) :
    Refused (createIndexJob db processes ids request now) := by
  obtain ⟨jobs, hjobs⟩ := Table.insert?_of_fresh (r := newIndexJob ids request mode now) hfresh
  obtain ⟨legacy, hlegacy⟩ := h.reserveIndexJobTx_of_active processes
    (newIndexID "idxowner" ids.owner) now hjobs hjob hroot hactive
  unfold createIndexJob
  simp only [hmode, hjobs, orElse, hlegacy, Except.mapError, bind, Except.bind]
  exact refused_policyError (newIndexJob ids request mode now) legacy.activeJob

theorem Fenced.createIndexJob_of_idle (hidle : db.Idle request.workspaceRoot) :
    ¬Refused (createIndexJob db processes ids request now) := by
  obtain ⟨jobs, hjobs⟩ := Table.insert?_of_fresh (r := newIndexJob ids request mode now) hfresh
  have hreserve := h.reserveIndexJobTx_of_idle processes (newIndexID "idxowner" ids.owner) now hjobs
    hidle
  rintro ⟨active, hrefused⟩
  unfold createIndexJob at hrefused
  simp only [hmode, hjobs, orElse, hreserve, Except.mapError, bind, Except.bind] at hrefused
  cases hgenerations : db.generations.insert? (newIndexJob ids request mode now).generation with
  | none => simp [hgenerations] at hrefused
  | some generations => simp [hgenerations, pure, Except.pure] at hrefused

end Create

/-- In every run: reservation and reads agree exactly when no process that holds the workspace has
died. -/
theorem agreesOnLiveness_iff (h : Run host log db)
    (hmode : normalizeIndexMode request.mode = .ok mode)
    (hfresh : db.jobs.find? (newIndexID "idxjob" ids.job) = none) :
    AgreesOnLiveness db processes ids request now ↔
      ¬∃ o, db.ownership.find? request.workspaceRoot = some o ∧ o.releasedAt = none ∧ 0 < o.pid ∧
        processes o.pid = false := by
  have hfenced := h.invariant.1
  have hsound := h.sound
  constructor
  · rintro hagrees ⟨o, ho, hheld, hpid, hdead⟩
    obtain ⟨db', loaded, -, hcreate, -⟩ := hagrees.takeover o ho hheld hpid hdead
    obtain ⟨-, -, -, -, hidle, -⟩ := hfenced.createIndexJob_eq_ok.mp hcreate
    exact hfenced.released_of_idle hidle ho hheld
  · intro halive
    refine ⟨?_, ?_⟩
    · constructor
      · intro hrefused
        have hbusy : ¬db.Idle request.workspaceRoot := by
          intro hidle
          exact hfenced.createIndexJob_of_idle hmode hfresh hidle hrefused
        simp only [Database.Idle, not_forall, Bool.not_eq_false] at hbusy
        obtain ⟨jobID, job, hjob, hroot, hactive⟩ := hbusy
        obtain ⟨o, ho, hjobID, hheld⟩ := hfenced.reserved jobID job hjob hactive
        rw [← Table.key_of_find? hjob] at hjobID
        refine ⟨job, Table.mem_of_find? hjob, hroot, hactive, ?_⟩
        rw [staleIndexJobForRead_eq hfenced hsound hactive (Table.mem_of_find? ho) hjobID hheld]
        by_contra hstale
        simp only [Bool.not_eq_false, Bool.and_eq_true, decide_eq_true_eq, Bool.not_eq_true']
          at hstale
        exact halive ⟨o, hroot ▸ ho, hheld, hstale⟩
      · rintro ⟨job, hjob, hroot, hactive, -⟩
        exact hfenced.createIndexJob_of_active hmode hfresh (Table.find?_of_mem hjob) hroot hactive
    · intro o ho hheld hpid hdead
      exact absurd ⟨o, ho, hheld, hpid, hdead⟩ halive

section Sample

theorem agreesOnLiveness_alive :
    AgreesOnLiveness sampleRunning (fun _ ↦ true)
      (sampleIDs "2") sampleRequest sampleWorld.now := by
  obtain ⟨log, hrun⟩ := sampleRunning_run
  have hmode : normalizeIndexMode sampleRequest.mode = .ok .full := rfl
  have hfresh : sampleRunning.jobs.find? (newIndexID "idxjob" (sampleIDs "2").job) = none := rfl
  refine (agreesOnLiveness_iff hrun hmode hfresh).mpr ?_
  rintro ⟨o, -, -, -, hdead⟩
  cases hdead

/-- The owner's process is gone: a read calls the job stale, and yet a new job is refused. -/
theorem dead_owner_refuses : ∃ log o job, Run sampleHost log sampleRunning ∧
    sampleRunning.ownership.find? sampleRequest.workspaceRoot = some o ∧ o.releasedAt = none ∧
    0 < o.pid ∧ sampleRunning.jobs.rows = [job] ∧
    staleIndexJobForRead sampleRunning (fun _ ↦ false) job = true ∧
    Refused (createIndexJob sampleRunning (fun _ ↦ false) (sampleIDs "2") sampleRequest
      sampleWorld.now) ∧
    ¬AgreesOnLiveness sampleRunning (fun _ ↦ false) (sampleIDs "2") sampleRequest
      sampleWorld.now := by
  obtain ⟨log, hrun⟩ := sampleRunning_run
  refine ⟨log, _, _, hrun, rfl, rfl, by decide, rfl, rfl, ⟨_, .inl rfl⟩, ?_⟩
  intro hagrees
  obtain ⟨db', loaded, -, hcreate, -⟩ := hagrees.takeover _ rfl rfl (by decide) rfl
  cases hcreate

end Sample

end MiLsp.Store
