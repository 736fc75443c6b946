import MiLsp.Store.Soundness

namespace MiLsp.Store

open MiLsp.Graph Library Attempt Session List IndexJob Table

/-- The job was not asked to stop, its publication has not begun, and its generation is being built.
-/
def Recoverable (db : Database) (job : IndexJob) : Prop :=
  job.requestedCancel = false ∧ job.publicationStarted = false ∧
    ∃ g ∈ db.generations.rows, g.jobID = job.jobID ∧ g.status ∈ [.building, .staged]

/-- The job is over, its reservation is released, and the workspace takes the next job. -/
structure Reclaimed (db : Database) (job : IndexJob) : Prop where
  ended : ∃ job', db.jobs.find? job.jobID = some job' ∧ job'.isActive = false
  released : ∃ o, db.ownership.find? job.workspaceRoot = some o ∧ o.releasedAt ≠ none
  reserves : ∀ (world : World) (ids : NewIndexIDs) (request : IndexJobRequest) mode,
    request.workspaceRoot = job.workspaceRoot → normalizeIndexMode request.mode = .ok mode →
    db.jobs.find? (newIndexID "idxjob" ids.job) = none →
    db.generations.find? (newIndexID "idxgen" ids.generation) = none →
      ∃ db' loaded, createIndexJob db world.processes ids request world.now = .ok (db', loaded)

inductive JobRead
  | get
  | active

namespace JobRead

def call (job : IndexJob) : JobRead → Call
  | get => .get job.jobID
  | active => .active job.workspaceRoot

def sees (db : Database) (job : IndexJob) : JobRead → Prop
  | get => True
  | active => job ∈ (db.jobs.rows.reverse.filter IndexJob.isActive).take 128

end JobRead

variable {host : GraphHost} {world : World} {log : List LoadedJob} {db db' : Database}
  {job : IndexJob} {o : IndexJobOwnership} {message now : String} {fence : IndexJobFence}

section Failed

theorem endGeneration_of_mem (db : Database) {g : IndexGeneration} (hg : g ∈ db.generations.rows)
    (hunique : ∀ g' ∈ db.generations.rows, g'.jobID = g.jobID → g' = g)
    {from_ : List IndexGenerationStatus} (hstatus : g.status ∈ from_)
    (status : IndexGenerationStatus) (error : String) :
    ∃ generations, db.endGeneration g.jobID from_ status error = .ok { db with generations } := by
  refine ⟨_, map_eq_ok.mpr ⟨_, orElse_eq_ok.mpr (updateOne_eq_some_unique.mpr ⟨?_, rfl⟩), rfl⟩⟩
  refine ⟨g, hg, by simp [hstatus], ?_⟩
  intro g' hg' hpass
  simp only [Bool.and_eq_true, decide_eq_true_eq] at hpass
  exact hunique g' hg' hpass.1

theorem releaseIndexJobOwnershipTx_of_mem (ho : o ∈ db.ownership.rows)
    (hunique : ∀ o' ∈ db.ownership.rows, o'.jobID = o.jobID → o' = o) (hheld : o.releasedAt = none)
    (now : String) : ∃ db', releaseIndexJobOwnershipTx db o.jobID o.fence now = .ok db' :=
  ⟨_, updateOwnership_eq_ok.mpr ⟨⟨o, ho, ⟨rfl, rfl, hheld⟩, fun o' ho' hjobID _ _ ↦
    hunique o' ho' hjobID⟩, rfl⟩⟩

variable (hfenced : Fenced db) (hsound : Sound db) (hjob : db.jobs.find? job.jobID = some job)
  (hactive : job.isActive = true) (ho : o ∈ db.ownership.rows) (hjobID : o.jobID = job.jobID)
  (hheld : o.releasedAt = none)

include hfenced hsound hjob hactive ho hjobID hheld

theorem markIndexJobFailed_of_recoverable (h : Recoverable db job) (message now : String) :
    ∃ db', markIndexJobFailed db job.jobID message o.fence now = .ok db' := by
  obtain ⟨hcancel, hstarted, g, hg, hgjob, hgstatus⟩ := h
  have howns : db.owns job.jobID o.fence = true :=
    Database.owns_iff.mpr ⟨o, ho, hjobID, rfl, hheld⟩
  have hstatus : job.status ∈ [IndexJobStatus.queued, .running, .publishing] := by
    have hconsistent := hsound.consistent _ job hjob
    simp only [isActive, JobState.Consistent, state] at hactive hconsistent
    cases hs : job.status <;> simp_all [isIndexJobActive]
  have hvalid := hsound.valid _ o (find?_of_mem ho)
  obtain ⟨jobs, hmark, hfound⟩ := markIndexJob_of_guard hvalid howns hjob
    (fun job ↦ !job.requestedCancel && !job.publicationStarted &&
      job.status ∈ [.queued, .running, .publishing]) (by simpa [hcancel, hstarted] using hstatus)
    (fun job ↦ { job with
      status := .failed
      phase := "failed"
      currentStage := "failed"
      error := some message
      finishedAt := some now
      updatedAt := now }) fun _ ↦ rfl
  refine exists_bind hmark ?_
  obtain ⟨generations, hend⟩ := endGeneration_of_mem { db with jobs } hg
    (fun g' hg' hsame ↦ hsound.eq_of_jobID hg' hg hsame) hgstatus .failed message
  rw [hgjob] at hend
  refine exists_bind hend ?_
  simp only [hfound]
  rw [← hjobID]
  refine releaseIndexJobOwnershipTx_of_mem ?_ ?_ hheld now
  · split <;> exact ho
  · intro o' ho' hsame
    refine hfenced.eq_of_jobID ?_ ho hsame
    split at ho' <;> exact ho'

end Failed

theorem recoverable_of_markIndexJobFailed (hjob : db.jobs.find? job.jobID = some job)
    (h : markIndexJobFailed db job.jobID message fence now = .ok db') : Recoverable db job := by
  obtain ⟨db₁, h₁, h⟩ := bind_eq_ok.mp h
  obtain ⟨db₂, h₂, -⟩ := bind_eq_ok.mp h
  obtain ⟨-, h₁⟩ := seq_eq_ok.mp h₁
  obtain ⟨⟨job', hjob', hguard⟩, rfl⟩ := updateJob_eq_ok.mp h₁
  rw [hjob] at hjob'
  cases hjob'
  obtain ⟨generations, hupdate, -⟩ := map_eq_ok.mp h₂
  obtain ⟨⟨g, hg, hpass, -⟩, -⟩ := updateOne_eq_some_unique.mp (orElse_eq_ok.mp hupdate)
  simp only [Bool.and_eq_true, Bool.not_eq_true', decide_eq_true_eq] at hguard hpass
  exact ⟨hguard.1.1.1, hguard.1.1.2, g, hg, hpass.1, hpass.2⟩

theorem Fenced.candidates_eq (hfenced : Fenced db) (hjob : db.jobs.find? job.jobID = some job)
    (hactive : job.isActive = true) (rows : List IndexJob)
    (hrows : rows.Sublist db.jobs.rows.reverse)
    (hall : ∀ j ∈ rows, j.isActive = true) :
    rows.filter (fun j ↦ j.workspaceRoot = job.workspaceRoot) =
      if job ∈ rows then [job] else [] := by
  have hmem : ∀ j ∈ rows.filter (fun j ↦ j.workspaceRoot = job.workspaceRoot), j = job := by
    intro j hj
    rw [mem_filter, decide_eq_true_eq] at hj
    exact hfenced.eq_of_active (mem_reverse.mp (hrows.subset hj.1)) (mem_of_find? hjob)
      (hall j hj.1) hactive hj.2
  have hnodup : (rows.filter fun j ↦ j.workspaceRoot = job.workspaceRoot).Nodup :=
    (filter_sublist.trans hrows).nodup
      (nodup_reverse.mpr (List.Nodup.of_map _ db.jobs.nodup))
  have hreplicate := eq_replicate_of_mem hmem
  rw [hreplicate, nodup_replicate] at hnodup
  split
  next hjobrows =>
    have hpos := length_pos_of_mem (mem_filter.mpr ⟨hjobrows, decide_eq_true rfl⟩ :
      job ∈ rows.filter fun j ↦ j.workspaceRoot = job.workspaceRoot)
    rw [hreplicate, show (rows.filter fun j ↦ j.workspaceRoot = job.workspaceRoot).length = 1 by
      omega]
    rfl
  next hjobrows =>
    rw [filter_eq_nil_iff]
    intro j hj hroot
    have hj' := hmem j (mem_filter.mpr ⟨hj, hroot⟩)
    exact hjobrows (hj' ▸ hj)

theorem newest_sublist (db : Database) :
    ((db.jobs.rows.reverse.filter isActive).take 128).Sublist db.jobs.rows.reverse :=
  (take_sublist _ _).trans filter_sublist

theorem newest_active (db : Database) :
    ∀ j ∈ (db.jobs.rows.reverse.filter isActive).take 128, j.isActive = true := by
  intro j hj
  exact (mem_filter.mp (mem_of_mem_take hj)).2

def committed (db : Database) : Except StoreError Database → Database
  | .ok db' => db'
  | .error _ => db

section Read

variable (hfenced : Fenced db) (hsound : Sound db) (hjob : db.jobs.find? job.jobID = some job)
  (hactive : job.isActive = true) (ho : o ∈ db.ownership.rows) (hjobID : o.jobID = job.jobID)
  (hheld : o.releasedAt = none) (hpid : 0 < o.pid) (hdead : world.processes o.pid = false)

include hfenced hsound hactive ho hjobID hheld hpid hdead

theorem reconcileIndexJobRead_dead :
    ((reconcileIndexJobRead world job).exec db).2 =
      committed db (markIndexJobFailed db job.jobID "stale index job process exited" o.fence
        world.now) := by
  have howner : attachIndexJobOwner db job = ⟨job, some o.fence⟩ := by
    rw [attachIndexJobOwner, ← hjobID, hfenced.currentIndexJobOwner_eq ho hheld]
  have hvalid := resolveIndexJobFence_eq_ok.mp (hsound.valid _ o (find?_of_mem ho))
  have hstale : staleIndexJobForRead db world.processes job = true := by
    rw [staleIndexJobForRead_eq hfenced hsound hactive ho hjobID hheld]
    simp [hpid, hdead]
  simp only [reconcileIndexJobRead, exec_bind, exec_get, howner, hstale, hvalid.1, exec_tryCatch,
    exec_transact, Bool.not_true, decide_false, Bool.or_self, Bool.false_eq_true, if_false]
  cases markIndexJobFailed db job.jobID "stale index job process exited" o.fence world.now with
  | ok db' => rfl
  | error e =>
    dsimp only
    split_ifs
    · rfl
    · rfl

include hjob

theorem JobRead.exec_of_sees (read : JobRead) (hsees : read.sees db job) :
    (((read.call job).run host world).exec db).2 =
      committed db (markIndexJobFailed db job.jobID "stale index job process exited" o.fence
        world.now) := by
  rw [← reconcileIndexJobRead_dead hfenced hsound hactive ho hjobID hheld hpid hdead]
  cases read with
  | get =>
    refine (exec_bind_snd _ (fun _ _ ↦ rfl) db).trans ?_
    simp only [getIndexJob, exec_bind, exec_get, hjob]
  | active =>
    refine (exec_bind_snd _ (fun _ _ ↦ rfl) db).trans ?_
    simp only [activeIndexJob, exec_bind, exec_get]
    simp only [JobRead.sees] at hsees
    rw [hfenced.candidates_eq hjob hactive _ (newest_sublist db) (newest_active db), if_pos hsees]
    refine exec_bind_snd _ ?_ db
    intro loaded s
    cases loaded with
    | none => rfl
    | some loaded =>
      dsimp only
      split <;> rfl

end Read

theorem activeIndexJob_unseen (hfenced : Fenced db) (hjob : db.jobs.find? job.jobID = some job)
    (hactive : job.isActive = true) (hsees : ¬JobRead.active.sees db job) :
    (((JobRead.active.call job).run host world).exec db).2 = db := by
  refine (exec_bind_snd _ (fun _ _ ↦ rfl) db).trans ?_
  simp only [activeIndexJob, exec_bind, exec_get]
  simp only [JobRead.sees] at hsees
  rw [hfenced.candidates_eq hjob hactive _ (newest_sublist db) (newest_active db), if_neg hsees]
  rfl

theorem Reclaimed.of_ended (hfenced : Fenced db) (hjob : db.jobs.find? job.jobID = some job)
    (h : Ended db db' job.jobID fence) : Reclaimed db' job := by
  obtain ⟨j, job', o, o', hkey, -, hinactive, hmoves⟩ := h
  have hfound := hmoves.found
  rw [hkey, hjob] at hfound
  cases hfound
  have hfenced' := hfenced.moves hmoves
  have hkey' := identity_jobID hmoves.identity
  have hroot : o'.workspaceRoot = job.workspaceRoot := by
    rw [hmoves.workspaceRoot_eq]
    exact (hfenced.workspaceRoot_eq (hmoves.jobID ▸ hjob) hmoves.reserved).symm
  have ho' := hmoves.ownership.find?
  rw [hroot] at ho'
  have hreleased : o'.releasedAt ≠ none := by
    rw [Ne, hmoves.released, hinactive]
    simp
  have hidle : db'.Idle job.workspaceRoot := by
    intro id j hj hjroot
    by_contra hjactive
    obtain ⟨p, hp, -, hheld⟩ := hfenced'.reserved id j hj (by simpa using hjactive)
    rw [hjroot, ho'] at hp
    cases hp
    exact hreleased hheld
  refine ⟨⟨job', hkey' ▸ hmoves.jobs.find?, hinactive⟩, ⟨o', ho', hreleased⟩, ?_⟩
  intro world ids request mode hrequest hmode hfresh hfresh'
  obtain ⟨jobs, hjobs⟩ :=
    insert?_of_fresh (r := newIndexJob ids request mode world.now) hfresh
  obtain ⟨generations, hgenerations⟩ :=
    insert?_of_fresh (r := (newIndexJob ids request mode world.now).generation) hfresh'
  exact ⟨_, _, hfenced'.createIndexJob_eq_ok.mpr
    ⟨mode, jobs, generations, hmode, hrequest ▸ hidle, hjobs, hgenerations, rfl, rfl⟩⟩

theorem not_reclaimed_of_active {job' : IndexJob} (hjob : db.jobs.find? job.jobID = some job')
    (hactive : job'.isActive = true) : ¬Reclaimed db job := by
  intro hreclaimed
  obtain ⟨job'', hjob', hinactive⟩ := hreclaimed.ended
  rw [hjob] at hjob'
  cases hjob'
  rw [hactive] at hinactive
  cases hinactive

/-- A read reclaims a dead owner's workspace exactly when it gets to the job and the mark as failed
goes through. -/
theorem dead_owner_reclaimed_iff (h : Run host log db)
    (hjob : db.jobs.find? job.jobID = some job) (hactive : job.isActive = true)
    (ho : db.ownership.find? job.workspaceRoot = some o) (hheld : o.releasedAt = none)
    (hpid : 0 < o.pid) (hdead : world.processes o.pid = false) (read : JobRead) :
    Reclaimed (((read.call job).run host world).exec db).2 job ↔
      Recoverable db job ∧ read.sees db job := by
  have hfenced := h.invariant.1
  have hsound := h.sound
  obtain ⟨o', ho', hjobID, -⟩ := hfenced.reserved _ job hjob hactive
  rw [ho] at ho'
  cases ho'
  have ho := Table.mem_of_find? ho
  have hsame : ¬Reclaimed db job := not_reclaimed_of_active hjob hactive
  by_cases hsees : read.sees db job
  · rw [read.exec_of_sees hfenced hsound hjob hactive ho hjobID hheld hpid hdead hsees]
    constructor
    · intro hreclaimed
      refine ⟨?_, hsees⟩
      cases hfailed : markIndexJobFailed db job.jobID "stale index job process exited" o.fence
          world.now with
      | ok db' => exact recoverable_of_markIndexJobFailed hjob hfailed
      | error e =>
        rw [hfailed] at hreclaimed
        exact absurd hreclaimed hsame
    · intro hrecoverable
      obtain ⟨db', hfailed⟩ := markIndexJobFailed_of_recoverable hfenced hsound hjob hactive ho
        hjobID hheld hrecoverable.1 "stale index job process exited" world.now
      rw [hfailed]
      exact .of_ended hfenced hjob (markIndexJobFailed_ended hfailed)
  · refine iff_of_false ?_ (fun hboth ↦ hsees hboth.2)
    cases read with
    | get => exact absurd trivial hsees
    | active =>
      rw [activeIndexJob_unseen hfenced hjob hactive hsees]
      exact hsame

section Sample

def deadWorld : World := { sampleWorld with processes := fun _ ↦ false }

def sampleRead (read : JobRead) (job : IndexJob) (db : Database) : Database :=
  (((read.call job).run sampleHost deadWorld).exec db).2

theorem dead_owner_reclaimed_running :
    ∃ job, sampleRunning.jobs.find? "idxjob-1" = some job ∧ job.status = .running ∧
      Reclaimed (sampleRead .get job sampleRunning) job ∧
      Reclaimed (sampleRead .active job sampleRunning) job := by
  obtain ⟨log, hrun⟩ := sampleRunning_run
  have hrecoverable : ∃ job, sampleRunning.jobs.find? "idxjob-1" = some job ∧
      Recoverable sampleRunning job := ⟨_, rfl, rfl, rfl, _, mem_singleton_self _, rfl, by decide⟩
  obtain ⟨job, hjob, hrecoverable⟩ := hrecoverable
  cases hjob
  refine ⟨_, rfl, rfl, ?_, ?_⟩
  · exact (dead_owner_reclaimed_iff hrun rfl rfl rfl rfl (by decide) rfl .get).mpr
      ⟨hrecoverable, trivial⟩
  · exact (dead_owner_reclaimed_iff hrun rfl rfl rfl rfl (by decide) rfl .active).mpr
      ⟨hrecoverable, mem_singleton_self _⟩

/-- The active job's owner dies after the call, and neither read takes the job back. -/
def StuckAfter (call : Call) : Prop :=
  ∃ log job o, Run sampleHost log (sampleCall call sampleRunning) ∧
    (sampleCall call sampleRunning).jobs.find? "idxjob-1" = some job ∧ job.isActive = true ∧
    (sampleCall call sampleRunning).ownership.find? job.workspaceRoot = some o ∧
    o.releasedAt = none ∧ 0 < o.pid ∧ deadWorld.processes o.pid = false ∧
    ¬Reclaimed (sampleRead .get job (sampleCall call sampleRunning)) job ∧
    ¬Reclaimed (sampleRead .active job (sampleCall call sampleRunning)) job

/-- A job whose process died while asked to stop, or once it was publishing, stays active for good.
-/
theorem dead_owner_stuck :
    StuckAfter (.requestCancel "idxjob-1") ∧
      StuckAfter (.operate (.phase "idxjob-1" .publishing "publish" sampleFence)) := by
  obtain ⟨log, hrun⟩ := sampleRunning_run
  constructor
  · exact ⟨log, _, _, hrun.call sampleWorld _, rfl, rfl, rfl, rfl, by decide, rfl,
      not_reclaimed_of_active rfl rfl, not_reclaimed_of_active rfl rfl⟩
  · exact ⟨log, _, _, hrun.call sampleWorld _, rfl, rfl, rfl, rfl, by decide, rfl,
      not_reclaimed_of_active rfl rfl, not_reclaimed_of_active rfl rfl⟩

end Sample

end MiLsp.Store
