import MiLsp.Store.Lifecycle
import MiLsp.Store.Operations

namespace MiLsp.Store

open Library Attempt List IndexJob JobState.Step Database Table

def Database.leases (db : Database) := (db.jobs, db.ownership)

def IndexJob.identity (job : IndexJob) : String × String × String :=
  (job.jobID, job.generationID, job.workspaceRoot)

structure JobMoves (db db' : Database) (job job' : IndexJob) : Prop where
  found : db.jobs.find? job.jobID = some job
  identity : job'.identity = job.identity
  steps : job.state.Steps job'.state
  sets : db.jobs.Sets db'.jobs job'
  ownership : db'.ownership = db.ownership

/-- A job and its reservation move together: it is held as long as the job is active. -/
structure Moves (db db' : Database) (job job' : IndexJob) (o o' : IndexJobOwnership) : Prop where
  found : db.jobs.find? job.jobID = some job
  active : job.isActive = true
  identity : job'.identity = job.identity
  steps : job.state.Steps job'.state
  jobs : db.jobs.Sets db'.jobs job'
  reserved : db.ownership.find? o.workspaceRoot = some o
  jobID : o.jobID = job.jobID
  held : o.releasedAt = none
  workspaceRoot_eq : o'.workspaceRoot = o.workspaceRoot
  jobID_eq : o'.jobID = o.jobID
  fence_eq : o'.fence = o.fence
  released : o'.releasedAt = none ↔ job'.isActive = true
  ownership : db.ownership.Sets db'.ownership o'

variable {db db₁ db₂ db' : Database} {job job₁ job' : IndexJob} {jobID now : String}
  {fence : IndexJobFence}

theorem IndexJob.identity_jobID (h : job'.identity = job.identity) : job'.jobID = job.jobID :=
  congrArg Prod.fst h

theorem IndexJob.identity_workspaceRoot (h : job'.identity = job.identity) :
    job'.workspaceRoot = job.workspaceRoot := congrArg (·.2.2) h

theorem JobMoves.trans {job'' : IndexJob} (h : JobMoves db db₁ job job')
    (h' : JobMoves db₁ db₂ job' job'') : JobMoves db db₂ job job'' where
  found := h.found
  identity := h'.identity.trans h.identity
  steps := h.steps.trans h'.steps
  sets := h.sets.trans h'.sets (identity_jobID h'.identity)
  ownership := h'.ownership.trans h.ownership

theorem JobMoves.frame (h : JobMoves db db₁ job job') (hleases : db₂.leases = db₁.leases) :
    JobMoves db db₂ job job' where
  found := h.found
  identity := h.identity
  steps := h.steps
  sets := by
    have hjobs : db₂.jobs = db₁.jobs := congrArg Prod.fst hleases
    exact hjobs ▸ h.sets
  ownership := (congrArg Prod.snd hleases : db₂.ownership = db₁.ownership).trans h.ownership

section Statements

theorem resolveIndexJobFence_eq_ok : resolveIndexJobFence fence = .ok () ↔
    fence.ownerToken ≠ "" ∧ 0 < fence.fencingToken := by
  unfold resolveIndexJobFence
  split
  next h => simp_all [← Classical.or_iff_not_imp_left]
  next h => simpa using h

theorem Database.owns_iff : db.owns jobID fence = true ↔
    ∃ o ∈ db.ownership.rows, o.jobID = jobID ∧ o.fence = fence ∧ o.releasedAt = none := by
  simp [owns, and_assoc]

theorem Database.reserved_iff : db.reserved jobID = true ↔
    ∃ o ∈ db.ownership.rows, o.jobID = jobID ∧ o.releasedAt = none := by
  simp [reserved]

variable {guard : IndexJob → Bool} {set : IndexJob → IndexJob}
  {hset : ∀ job, (set job).jobID = job.jobID}

theorem updateJob_eq_ok :
    db.updateJob jobID guard set hset = .ok db' ↔
      (∃ job, db.jobs.find? jobID = some job ∧ guard job = true) ∧
        db' = { db with
          jobs := db.jobs.update (fun job ↦ job.jobID = jobID && guard job) set hset } := by
  have hkey : ∀ job : IndexJob, (decide (job.jobID = jobID) && guard job) = true →
      job.jobID = jobID := by
    intro job hjob
    simp only [Bool.and_eq_true, decide_eq_true_eq] at hjob
    exact hjob.1
  unfold updateJob
  simp only [map_eq_ok, orElse_eq_ok, updateOne_eq_some hkey]
  constructor
  · rintro ⟨jobs, ⟨⟨job, hjob, hguard⟩, rfl⟩, rfl⟩
    exact ⟨⟨job, hjob, (Bool.and_eq_true_iff.mp hguard).2⟩, rfl⟩
  · rintro ⟨⟨job, hjob, hguard⟩, rfl⟩
    refine ⟨_, ⟨⟨job, hjob, ?_⟩, rfl⟩, rfl⟩
    simp [key_of_find? hjob, hguard]

theorem updateOwnership_eq_ok {set : IndexJobOwnership → IndexJobOwnership}
    {hset : ∀ o, (set o).workspaceRoot = o.workspaceRoot} :
    db.updateOwnership jobID fence set hset = .ok db' ↔
      (∃ o ∈ db.ownership.rows, (o.jobID = jobID ∧ o.fence = fence ∧ o.releasedAt = none) ∧
        ∀ o' ∈ db.ownership.rows, o'.jobID = jobID → o'.fence = fence → o'.releasedAt = none →
          o' = o) ∧
        db' = { db with
          ownership := db.ownership.update
            (fun o ↦ o.jobID = jobID && o.fence = fence && o.releasedAt.isNone) set hset } := by
  unfold updateOwnership
  simp only [map_eq_ok, orElse_eq_ok, updateOne_eq_some_unique, Bool.and_eq_true,
    decide_eq_true_eq, Option.isNone_iff_eq_none, and_imp, and_assoc]
  constructor
  · rintro ⟨ownership, hown, rfl, rfl⟩
    exact ⟨hown, rfl⟩
  · rintro ⟨hown, rfl⟩
    exact ⟨_, hown, rfl, rfl⟩

theorem updateJob_moves (h : db.updateJob jobID guard set hset = .ok db')
    (hmove : ∀ job, guard job = true →
      (set job).identity = job.identity ∧ job.state.Steps (set job).state) :
    ∃ job, job.jobID = jobID ∧ guard job = true ∧ JobMoves db db' job (set job) := by
  obtain ⟨⟨job, hjob, hguard⟩, rfl⟩ := updateJob_eq_ok.mp h
  have hkey : job.jobID = jobID := key_of_find? hjob
  have hmem := mem_of_find? hjob
  obtain ⟨hidentity, hsteps⟩ := hmove job hguard
  refine ⟨job, hkey, hguard, hkey ▸ hjob, hidentity, hsteps, ?_, rfl⟩
  refine Table.Sets.of_update hset hmem (by simp [hkey, hguard]) fun r hr hpr ↦ ?_
  simp only [Bool.and_eq_true, decide_eq_true_eq] at hpr
  exact Option.some.inj ((find?_eq_some_iff.mpr ⟨hr, hpr.1⟩).symm.trans hjob)

theorem JobMoves.advance (h : JobMoves db db' job job') (hactive : job.isActive = true)
    (hactive' : job'.isActive = true) {o : IndexJobOwnership} (ho : o ∈ db.ownership.rows)
    (hjobID : o.jobID = job.jobID) (hheld : o.releasedAt = none) : Moves db db' job job' o o where
  found := h.found
  active := hactive
  identity := h.identity
  steps := h.steps
  jobs := h.sets
  reserved := find?_of_mem ho
  jobID := hjobID
  held := hheld
  workspaceRoot_eq := rfl
  jobID_eq := rfl
  fence_eq := rfl
  released := iff_of_true hheld hactive'
  ownership := by
    intro root
    rw [h.ownership]
    split
    next hroot => exact hroot ▸ find?_of_mem ho
    · rfl

theorem JobMoves.settle (h : JobMoves db db₁ job job') (hactive : job.isActive = true)
    {set : IndexJobOwnership → IndexJobOwnership}
    {hset : ∀ o, (set o).workspaceRoot = o.workspaceRoot}
    (h' : db₁.updateOwnership job.jobID fence set hset = .ok db')
    (hsettle : ∀ o, (set o).jobID = o.jobID ∧ (set o).fence = o.fence ∧
      (o.releasedAt = none → ((set o).releasedAt = none ↔ job'.isActive = true))) :
    ∃ o, o.fence = fence ∧ Moves db db' job job' o (set o) := by
  obtain ⟨⟨o, ho, ⟨hjobID, hfence, hheld⟩, hunique⟩, rfl⟩ := updateOwnership_eq_ok.mp h'
  obtain ⟨hjobID', hfence', hreleased⟩ := hsettle o
  rw [h.ownership] at ho hunique
  refine ⟨o, hfence, h.found, hactive, h.identity, h.steps, h.sets, find?_of_mem ho, hjobID,
    hheld, hset o, hjobID', hfence', hreleased hheld, ?_⟩
  rw [← h.ownership] at ho hunique ⊢
  refine Table.Sets.of_update hset ho (by simp [hjobID, hfence, hheld]) fun r hr hpr ↦ ?_
  simp only [Bool.and_eq_true, decide_eq_true_eq, Option.isNone_iff_eq_none] at hpr
  exact hunique r hr hpr.1.1 hpr.1.2 hpr.2

theorem markIndexJob_of_guard (hfence : resolveIndexJobFence fence = .ok ())
    (howns : db.owns jobID fence = true) (hjob : db.jobs.find? jobID = some job)
    (guard : IndexJob → Bool) (hguard : guard job = true) (set : IndexJob → IndexJob)
    (hset : ∀ job, (set job).jobID = job.jobID) :
    ∃ jobs, markIndexJob db jobID fence guard set hset = .ok { db with jobs } ∧
      jobs.find? jobID = some (set job) := by
  refine ⟨_, seq_eq_ok.mpr ⟨hfence, updateJob_eq_ok.mpr ⟨⟨job, hjob, ?_⟩, rfl⟩⟩, ?_⟩
  · rw [hguard, howns]
    rfl
  · simp [hjob, key_of_find? hjob, hguard, howns]

theorem markIndexJob_moves (h : markIndexJob db jobID fence guard set hset = .ok db')
    (hmove : ∀ job, guard job = true →
      (set job).identity = job.identity ∧ job.state.Steps (set job).state) :
    ∃ job, job.jobID = jobID ∧ guard job = true ∧ JobMoves db db' job (set job) ∧
      ∃ o ∈ db.ownership.rows, o.jobID = job.jobID ∧ o.fence = fence ∧ o.releasedAt = none := by
  obtain ⟨-, h⟩ := seq_eq_ok.mp h
  obtain ⟨job, rfl, hguard, hmoves⟩ := updateJob_moves h fun job hjob ↦
    hmove job (Bool.and_eq_true_iff.mp hjob).1
  rw [Bool.and_eq_true_iff, owns_iff] at hguard
  exact ⟨job, rfl, hguard.1, hmoves, hguard.2⟩

theorem endGeneration_eq_ok {from_ : List IndexGenerationStatus} {status : IndexGenerationStatus}
    {error : String} (h : db.endGeneration jobID from_ status error = .ok db') :
    ∃ generations, db' = { db with generations } := by
  obtain ⟨generations, -, rfl⟩ := map_eq_ok.mp h
  exact ⟨generations, rfl⟩

end Statements

def Moved (db db' : Database) (jobID : String) (fence : IndexJobFence) : Prop :=
  ∃ job job' o o', job.jobID = jobID ∧ o.fence = fence ∧ Moves db db' job job' o o'

def Ended (db db' : Database) (jobID : String) (fence : IndexJobFence) : Prop :=
  ∃ job job' o o', job.jobID = jobID ∧ o.fence = fence ∧ job'.isActive = false ∧
    Moves db db' job job' o o'

theorem Ended.moved (h : Ended db db' jobID fence) : Moved db db' jobID fence := by
  obtain ⟨job, job', o, o', hkey, hfence, -, hmoves⟩ := h
  exact ⟨job, job', o, o', hkey, hfence, hmoves⟩

section Marks

theorem IndexJob.isActive_of_mem {statuses : List IndexJobStatus} (h : job.status ∈ statuses)
    (hstatuses : ∀ status ∈ statuses, isIndexJobActive status = true) : job.isActive = true :=
  hstatuses job.status h

theorem releaseIndexJobOwnershipTx_ended (h : JobMoves db db₁ job job')
    (h' : releaseIndexJobOwnershipTx db₂ job.jobID fence now = .ok db')
    (hleases : db₂.leases = db₁.leases) (hactive : job.isActive = true)
    (hactive' : job'.isActive = false) : Ended db db' job.jobID fence := by
  obtain ⟨o, hfence, hmoves⟩ :=
    (h.frame hleases).settle hactive h' fun o ↦ ⟨rfl, rfl, fun _ ↦ by simp [hactive']⟩
  exact ⟨job, job', o, _, rfl, hfence, hactive', hmoves⟩

theorem markIndexJobRunning_moved {pid : ℤ} {phase : String}
    (h : markIndexJobRunning db jobID pid phase fence now = .ok db') :
    Moved db db' jobID fence := by
  obtain ⟨db₁, h, h'⟩ := bind_eq_ok.mp h
  obtain ⟨job, rfl, hguard, hmoves, -⟩ := markIndexJob_moves h fun job hjob ↦ by
    simp only [Bool.and_eq_true, Bool.not_eq_true', mem_cons, not_mem_nil, or_false,
      decide_eq_true_eq] at hjob
    refine ⟨rfl, ?_⟩
    obtain ⟨hcancel, hstatus | hstatus⟩ := hjob
    · simpa only [state, hcancel, hstatus] using .single (.start _)
    · simpa only [state, hstatus] using .refl
  rw [Bool.and_eq_true_iff, decide_eq_true_eq] at hguard
  have hactive := isActive_of_mem hguard.2 (by decide)
  obtain ⟨o, hfence, hmoves⟩ :=
    hmoves.settle hactive h' fun o ↦ ⟨rfl, rfl, fun ho ↦ iff_of_true ho rfl⟩
  exact ⟨job, _, o, _, rfl, hfence, hmoves⟩

theorem IndexJob.publishable_iff : job.publishable = true ↔
    job.state = ⟨.running, false, false⟩ ∨ job.state = ⟨.publishing, false, true⟩ := by
  simp only [publishable, state, JobState.mk.injEq, Bool.and_eq_true,
    Bool.or_eq_true, Bool.not_eq_true', decide_eq_true_eq]
  tauto

theorem publishable_steps (h : job.publishable = true) :
    job.state.Steps ⟨.publishing, job.requestedCancel, true⟩ := by
  obtain h | h := publishable_iff.mp h
  · have hcancel : job.requestedCancel = false := congrArg JobState.requestedCancel h
    rw [h, hcancel]
    exact .single .publish
  · have hcancel : job.requestedCancel = false := congrArg JobState.requestedCancel h
    rw [h, hcancel]

theorem publishable_isActive (h : job.publishable = true) : job.isActive = true := by
  obtain h | h := publishable_iff.mp h <;>
    exact congrArg (fun s ↦ isIndexJobActive s.status) h

theorem markIndexJobPhase_moved {status : IndexJobStatus} {phase : String}
    (h : markIndexJobPhase db jobID status phase fence now = .ok db') :
    Moved db db' jobID fence := by
  unfold markIndexJobPhase at h
  split at h
  · cases h
  obtain ⟨job, rfl, hguard, hmoves, o, ho, hjobID, hfence, hheld⟩ :=
    markIndexJob_moves h fun job hjob ↦ ⟨rfl, publishable_steps hjob⟩
  exact ⟨job, _, o, o, rfl, hfence,
    hmoves.advance (publishable_isActive hguard) rfl ho hjobID hheld⟩

theorem markIndexJobProgress_moved {progress : IndexJobProgress}
    (h : markIndexJobProgress db jobID progress fence now = .ok db') :
    Moved db db' jobID fence := by
  -- the status is set to the one of the two that it has
  have hsame : ∀ job : IndexJob, job.status ∈ [.running, .publishing] →
      (if job.status = .publishing then .publishing else .running) = job.status := by
    intro job hjob
    simp only [mem_cons, not_mem_nil, or_false] at hjob
    obtain hstatus | hstatus := hjob <;> simp [hstatus]
  obtain ⟨job, rfl, hguard, hmoves, o, ho, hjobID, hfence, hheld⟩ :=
    markIndexJob_moves h fun job hjob ↦ by
      rw [Bool.and_eq_true_iff, decide_eq_true_eq] at hjob
      refine ⟨rfl, ?_⟩
      simp only [state, hsame job hjob.2]
      exact .refl
  rw [Bool.and_eq_true_iff, decide_eq_true_eq] at hguard
  have hactive := isActive_of_mem hguard.2 (by decide)
  refine ⟨job, _, o, o, rfl, hfence, hmoves.advance hactive ?_ ho hjobID hheld⟩
  simp only [isActive, hsame job hguard.2]
  exact hactive

theorem completeIndexJobTx_moves {files symbols docs : ℤ} {publication : Bool}
    (h : completeIndexJobTx db jobID files symbols docs fence publication now = .ok db') :
    ∃ job job' db₁, job.jobID = jobID ∧
      job.state = (if publication then ⟨.publishing, false, true⟩ else ⟨.running, false, false⟩) ∧
      job'.status = .succeeded ∧ JobMoves db db₁ job job' ∧
      releaseIndexJobOwnershipTx db₁ jobID fence now = .ok db' := by
  obtain ⟨db₁, h, h'⟩ := bind_eq_ok.mp h
  have hstate : ∀ job : IndexJob, job.completable publication = true →
      job.state = if publication then ⟨.publishing, false, true⟩ else ⟨.running, false, false⟩ := by
    intro job hjob
    cases publication <;> simp_all [completable, state]
  obtain ⟨job, hkey, hguard, hmoves⟩ := updateJob_moves h fun job hjob ↦ by
    have hjob := hstate job (Bool.and_eq_true_iff.mp hjob).1
    refine ⟨rfl, .single ?_⟩
    cases publication
    · obtain ⟨hstatus, hcancel, hstarted⟩ := (JobState.mk.injEq _ _ _ _ _ _).mp hjob
      simpa only [state, completed, hstatus, hcancel, hstarted] using
        skip
    · obtain ⟨hstatus, hcancel, hstarted⟩ := (JobState.mk.injEq _ _ _ _ _ _).mp hjob
      simpa only [state, completed, hstatus, hcancel, hstarted] using
        succeed
  exact ⟨job, _, db₁, hkey, hstate job (Bool.and_eq_true_iff.mp hguard).1, rfl, hmoves, h'⟩

theorem isActive_of_status_eq {status : IndexJobStatus} (h : job.status = status) :
    job.isActive = isIndexJobActive status := congrArg isIndexJobActive h

theorem markIndexJobSucceeded_ended {files symbols docs : ℤ}
    (h : markIndexJobSucceeded db jobID files symbols docs fence now = .ok db') :
    Ended db db' jobID fence := by
  obtain ⟨-, h⟩ := seq_eq_ok.mp h
  obtain ⟨job, job', db₁, rfl, hstate, hstatus, hmoves, h'⟩ := completeIndexJobTx_moves h
  exact releaseIndexJobOwnershipTx_ended hmoves h' rfl
    (isActive_of_status_eq (congrArg JobState.status hstate)) (isActive_of_status_eq hstatus)

theorem markIndexGenerationSkipped_eq_ok {message : String}
    (h : markIndexGenerationSkipped db jobID message fence = .ok db') :
    ∃ generations, db' = { db with generations } := by
  obtain ⟨-, h⟩ := seq_eq_ok.mp h
  obtain ⟨-, h⟩ := guarded_eq_ok.mp h
  exact endGeneration_eq_ok h

theorem markIndexJobFailed_ended {message : String}
    (h : markIndexJobFailed db jobID message fence now = .ok db') : Ended db db' jobID fence := by
  obtain ⟨db₁, h, h'⟩ := bind_eq_ok.mp h
  obtain ⟨job, rfl, hguard, hmoves, -⟩ := markIndexJob_moves h fun job hjob ↦ by
    rw [Bool.and_eq_true_iff, decide_eq_true_eq] at hjob
    exact ⟨rfl, .single (.fail (isActive_of_mem hjob.2 (by decide)) _ _)⟩
  rw [Bool.and_eq_true_iff, decide_eq_true_eq] at hguard
  have hactive := isActive_of_mem hguard.2 (by decide)
  obtain ⟨db₂, h₂, h'⟩ := bind_eq_ok.mp h'
  obtain ⟨generations, rfl⟩ := endGeneration_eq_ok h₂
  split at h'
  next job₂ _ =>
    refine releaseIndexJobOwnershipTx_ended hmoves h' ?_ hactive rfl
    split <;> rfl
  · cases h'

theorem markIndexJobCanceled_ended (h : markIndexJobCanceled db jobID fence now = .ok db') :
    Ended db db' jobID fence := by
  obtain ⟨db₁, h, h'⟩ := bind_eq_ok.mp h
  obtain ⟨job, rfl, hguard, hmoves, -⟩ := markIndexJob_moves h fun job hjob ↦ by
    simp only [Bool.and_eq_true, decide_eq_true_eq, Bool.not_eq_true'] at hjob
    obtain ⟨⟨hcancel, hstarted⟩, hstatus⟩ := hjob
    refine ⟨rfl, .single ?_⟩
    simpa only [state, hcancel, hstarted] using cancel hstatus
  rw [Bool.and_eq_true_iff, decide_eq_true_eq] at hguard
  have hactive := isActive_of_mem hguard.2 (by decide)
  obtain ⟨db₂, h₂, h'⟩ := bind_eq_ok.mp h'
  obtain ⟨generations, rfl⟩ := endGeneration_eq_ok h₂
  exact releaseIndexJobOwnershipTx_ended hmoves h' rfl hactive rfl

theorem terminatingTx_moved (h : terminatingTx jobID now fence db = .ok db') :
    Moved db db' jobID fence := by
  obtain ⟨job, rfl, hguard, hmoves⟩ := updateJob_moves h fun job _ ↦ ⟨rfl, .refl⟩
  simp only [Bool.and_eq_true, decide_eq_true_eq, owns_iff] at hguard
  obtain ⟨⟨hstatus, -⟩, o, ho, hjobID, hfence, hheld⟩ := hguard
  have hactive := isActive_of_status_eq hstatus
  exact ⟨job, _, o, o, rfl, hfence, hmoves.advance hactive hactive ho hjobID hheld⟩

theorem requestCancelTx_moved (h : requestCancelTx db jobID now = .ok db') :
    ∃ fence, Moved db db' jobID fence := by
  obtain ⟨job, rfl, hguard, hmoves⟩ := updateJob_moves h fun job hjob ↦ by
    simp only [Bool.and_eq_true, decide_eq_true_eq, Bool.not_eq_true'] at hjob
    obtain ⟨⟨hcancel, hstatus⟩, -⟩ := hjob
    refine ⟨rfl, .single ?_⟩
    simpa only [state, hcancel, hstatus] using requestCancel _
  simp only [Bool.and_eq_true, decide_eq_true_eq, reserved_iff] at hguard
  obtain ⟨⟨-, hstatus⟩, o, ho, hjobID, hheld⟩ := hguard
  exact ⟨o.fence, job, _, o, o, rfl, rfl,
    hmoves.advance (isActive_of_status_eq hstatus) rfl ho hjobID hheld⟩

theorem cancelQueuedTx_ended (h : cancelQueuedTx db jobID now = .ok db') :
    ∃ fence, Ended db db' jobID fence := by
  obtain ⟨db₁, h, h'⟩ := bind_eq_ok.mp h
  obtain ⟨job, rfl, hguard, hmoves⟩ := updateJob_moves h fun job hjob ↦ by
    simp only [Bool.and_eq_true, decide_eq_true_eq, Bool.not_eq_true'] at hjob
    obtain ⟨⟨hcancel, hstatus⟩, -⟩ := hjob
    refine ⟨rfl, .single ?_⟩
    simpa only [state, hcancel, hstatus] using cancelQueued _
  simp only [Bool.and_eq_true, decide_eq_true_eq] at hguard
  split at h'
  next o _ =>
    obtain ⟨-, h'⟩ := guarded_eq_ok.mp h'
    obtain ⟨db₂, h₂, h'⟩ := bind_eq_ok.mp h'
    obtain ⟨generations, rfl⟩ := endGeneration_eq_ok h₂
    exact ⟨o.fence, releaseIndexJobOwnershipTx_ended hmoves h' rfl
      (isActive_of_status_eq hguard.1.2) rfl⟩
  · cases h'

theorem cancelTx_moved (h : cancelTx jobID now db = .ok db') :
    db' = db ∨ ∃ fence, Moved db db' jobID fence := by
  unfold cancelTx at h
  split at h
  · obtain ⟨fence, hended⟩ := cancelQueuedTx_ended h
    exact .inr ⟨fence, hended.moved⟩
  · split at h
    next h₁ =>
      cases h
      exact .inr (requestCancelTx_moved h₁)
    next => exact .inl (Except.ok.inj h).symm

end Marks

end MiLsp.Store
