import MiLsp.Store.Bookkeeping
import MiLsp.Store.Runs

namespace MiLsp.Store

open MiLsp.Graph Library Attempt Session Relation

def Database.pointers (db : Database) :
    Option String × Option String × Option String × Option GraphDigest :=
  (db.info.activeCatalogGeneration, db.info.activeDocsGeneration, db.info.activeMemoryGeneration,
    db.graph.active)

def Evolves (db db' : Database) : Prop :=
  ∀ jobID job, db.jobs.find? jobID = some job →
    ∃ job', db'.jobs.find? jobID = some job' ∧ job.state.Steps job'.state

inductive Acts (host : GraphHost) (db : Database) : Database → Prop
  | create {db' : Database} {loaded : LoadedJob} (world : World) (ids : NewIndexIDs)
      (request : IndexJobRequest)
      (h : createIndexJob db world.processes ids request world.now = .ok (db', loaded)) :
      Acts host db db'
  | call (world : World) (call : Call) : Acts host db ((call.run host world).exec db).2

abbrev Interleaves (host : GraphHost) : Database → Database → Prop := ReflTransGen (Acts host)

/-- A call may act for a job; a search for a workspace's active job may meet any. -/
def Call.actsFor (jobID : String) : Call → Prop
  | operate op => op.jobID = jobID
  | get id | requestCancel id | cancel _ id _ => id = jobID
  | active _ => True

variable {host : GraphHost} {world : World} {db db₁ db' : Database} {job job' : IndexJob}
  {jobID now : String} {fence : IndexJobFence}

namespace Evolves

theorem of_jobs (h : db'.jobs = db.jobs) : Evolves db db' := by
  intro jobID job hjob
  exact ⟨job, h ▸ hjob, .refl⟩

theorem trans (h : Evolves db db₁) (h' : Evolves db₁ db') : Evolves db db' := by
  intro jobID job hjob
  obtain ⟨job₁, hjob₁, hsteps⟩ := h jobID job hjob
  obtain ⟨job', hjob', hsteps'⟩ := h' jobID job₁ hjob₁
  exact ⟨job', hjob', hsteps.trans hsteps'⟩

theorem of_sets (hfound : db.jobs.find? job.jobID = some job) (hkey : job'.jobID = job.jobID)
    (hsteps : job.state.Steps job'.state) (hsets : db.jobs.Sets db'.jobs job') :
    Evolves db db' := by
  intro id j hj
  by_cases hid : job'.jobID = id
  · rw [← hid, hkey, hfound] at hj
    cases hj
    exact ⟨job', hid ▸ hsets.find?, hsteps⟩
  · exact ⟨j, (hsets.find?_of_ne hid).trans hj, .refl⟩

theorem of_operates (h : Operates host db db') : Evolves db db' := by
  obtain ⟨world, op, hop⟩ := h
  obtain hleases | ⟨fence, job, job', o, o', -, -, hmoves⟩ := Operation.apply_moved hop
  · exact of_jobs (congrArg Prod.fst hleases)
  · exact of_sets hmoves.found (IndexJob.identity_jobID hmoves.identity) hmoves.steps hmoves.jobs

theorem of_call (world : World) (call : Call) : Evolves db ((call.run host world).exec db).2 := by
  have hcall := call.run_operates host world db
  generalize ((call.run host world).exec db).2 = db' at hcall
  induction hcall with
  | refl => exact of_jobs rfl
  | tail _ hop ih => exact ih.trans (of_operates hop)

variable {processes : Processes}

theorem of_retireLegacyJob (h : retireLegacyJob db processes job now = .ok db') :
    Evolves db db' := by
  unfold retireLegacyJob at h
  split at h
  · cases h
    exact of_jobs rfl
  · dsimp only at h
    split at h
    · cases h
    · obtain ⟨legacy, -, -, hmoves⟩ := updateJob_moves h fun job hjob ↦
        ⟨rfl, .single (.fail hjob _ _)⟩
      exact of_sets hmoves.found (IndexJob.identity_jobID hmoves.identity) hmoves.steps hmoves.sets

theorem of_reserveIndexJobTx {owner : String}
    (h : reserveIndexJobTx db processes job owner now = .ok db') : Evolves db db' := by
  obtain ⟨db₁, h₁, h⟩ := bind_eq_ok.mp h
  obtain ⟨db₂, h₂, h⟩ := bind_eq_ok.mp h
  refine (of_retireLegacyJob h₁).trans (of_jobs ?_)
  -- the rest is about the reservation only
  have hrelease : db₂.jobs = db₁.jobs := by
    unfold releaseStaleReservation at h₂
    repeat' split at h₂
    all_goals cases h₂
    all_goals rfl
  rw [← hrelease]
  unfold takeReservation at h
  split at h
  all_goals cases h
  rfl

theorem of_create {ids : NewIndexIDs} {request : IndexJobRequest} {loaded : LoadedJob}
    (h : createIndexJob db processes ids request now = .ok (db', loaded)) : Evolves db db' := by
  unfold createIndexJob at h
  simp only [bind_eq_ok, orElse_eq_ok, mapError_eq_ok, pure_eq_ok, Prod.mk.injEq] at h
  obtain ⟨mode, -, jobs, hinsert, db₁, hreserve, generations, -, rfl, -⟩ := h
  have hinserted : Evolves db { db with jobs } := by
    intro id j hj
    refine ⟨j, ?_, .refl⟩
    rw [← hj]
    refine (Table.Sets.of_insert hinsert).find?_of_ne ?_
    rintro rfl
    rw [(Table.insert?_eq_some hinsert).1] at hj
    cases hj
  exact (hinserted.trans (of_reserveIndexJobTx hreserve)).trans (of_jobs rfl)

theorem of_interleaves (h : Interleaves host db db') : Evolves db db' := by
  induction h with
  | refl => exact of_jobs rfl
  | tail _ hact ih =>
    refine ih.trans ?_
    cases hact with
    | create world ids request h => exact of_create h
    | call world call => exact of_call world call

end Evolves

section Pointers

theorem Bookkeeping.pointers (h : Bookkeeping db db') : db'.pointers = db.pointers := by
  obtain hinfo | hinfo := h.info
  · simp only [Database.pointers, hinfo, h.graph]
  · simp only [Database.pointers, hinfo, h.graph]

theorem Manages.pointers_of_run (h : ReflTransGen (Manages host) db db') :
    db'.pointers = db.pointers := by
  induction h with
  | refl => rfl
  | tail _ hop ih =>
    obtain ⟨world, op, hpublishes, hop⟩ := hop
    exact (Bookkeeping.of_apply hpublishes hop).pointers.trans ih

theorem publishOwned_requestedCancel {clock : Clock} {call : JobCall} {mode : IndexMode}
    {counts : Counts} {body : Database → Except StoreError (Database × Option GraphPublication)}
    (hjob : db.jobs.find? call.jobID = some job) (hcancel : job.requestedCancel = true) :
    publishOwned host clock db call mode counts body ≠ .ok db' := by
  intro h
  obtain ⟨-, h⟩ := seq_eq_ok.mp h
  obtain ⟨-, h⟩ := guarded_eq_ok.mp h
  obtain ⟨db₁, h, -⟩ := bind_eq_ok.mp h
  obtain ⟨-, h⟩ := seq_eq_ok.mp h
  obtain ⟨⟨job', hjob', hguard⟩, -⟩ := updateJob_eq_ok.mp h
  rw [hjob] at hjob'
  cases hjob'
  simp [IndexJob.publishable, hcancel] at hguard

theorem Call.pointers_of_requestedCancel {call : Call} (hcall : call.actsFor jobID)
    (hjob : db.jobs.find? jobID = some job) (hcancel : job.requestedCancel = true) :
    ((call.run host world).exec db).2.pointers = db.pointers := by
  by_cases hpublishes : ∀ op, call = .operate op → op.publishes = false
  · exact Manages.pointers_of_run (call.run_managing hpublishes host world db)
  · obtain ⟨op, rfl, hop⟩ : ∃ op, call = .operate op ∧ ¬op.publishes = false := by
      simpa using hpublishes
    cases op with
    | publish c mode counts body =>
      cases hcall
      simp only [Call.run, exec_transact]
      split
      next h => exact absurd h (publishOwned_requestedCancel hjob hcancel)
      · rfl
    | _ => exact absurd rfl hop

end Pointers

/-- In whatever order: a job that is over stays as it ended, and a job asked to stop neither
succeeds nor publishes. -/
theorem cancel_excludes_publication (h : Interleaves host db db')
    (hjob : db.jobs.find? jobID = some job) :
    ∃ job', db'.jobs.find? jobID = some job' ∧
      (job.isActive = false → job'.status = job.status) ∧
      (job.status = .succeeded → job'.status ≠ .canceled) ∧
      (job.requestedCancel = true → job'.requestedCancel = true ∧
        (job.status ≠ .succeeded → job'.status ≠ .succeeded) ∧
        ∀ (world : World) (call : Call), call.actsFor jobID →
          ((call.run host world).exec db').2.pointers = db'.pointers) := by
  obtain ⟨job', hjob', hsteps⟩ := Evolves.of_interleaves h jobID job hjob
  refine ⟨job', hjob', ?_, ?_, ?_⟩
  · intro hinactive
    exact congrArg JobState.status (hsteps.eq_of_inactive hinactive)
  · intro hsucceeded
    have hstate := hsteps.eq_of_inactive (congrArg isIndexJobActive hsucceeded)
    rw [show job'.status = job.status from congrArg JobState.status hstate, hsucceeded]
    simp
  · intro hcancel
    obtain ⟨hcancel', hstatus⟩ := hsteps.requestedCancel hcancel
    exact ⟨hcancel', hstatus, fun world call hcall ↦
      call.pointers_of_requestedCancel hcall hjob' hcancel'⟩

section Sample

def sampleCanceling : Database := sampleCall (.requestCancel "idxjob-1") sampleRunning

theorem cancel_excludes_publication_sample :
    ∃ job, sampleCanceling.jobs.find? "idxjob-1" = some job ∧ job.requestedCancel = true ∧
      job.status = .cancelRequested ∧
      ∃ job', (sampleCall (.operate (.canceled "idxjob-1" sampleFence)) sampleCanceling).jobs.find?
          "idxjob-1" = some job' ∧ job'.status ≠ .succeeded := by
  refine ⟨_, rfl, rfl, rfl, ?_⟩
  have hacts : Interleaves sampleHost sampleCanceling
      (sampleCall (.operate (.canceled "idxjob-1" sampleFence)) sampleCanceling) :=
    .single (.call sampleWorld _)
  obtain ⟨job', hjob', -, -, hcancel⟩ := cancel_excludes_publication hacts
    (show sampleCanceling.jobs.find? "idxjob-1" = some _ from rfl)
  exact ⟨job', hjob', (hcancel rfl).2.1 (by decide)⟩

end Sample

end MiLsp.Store
