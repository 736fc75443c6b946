import MiLsp.Store.Fencing

namespace MiLsp.Store

open Library Attempt List Option Table

def Database.nextFencingToken (db : Database) (workspaceRoot : String) : ℤ :=
  ((db.ownership.find? workspaceRoot).map (·.fence.fencingToken + 1)).getD 1

def IndexJob.reservation (job : IndexJob) (fence : IndexJobFence) : IndexJobOwnership where
  workspaceRoot := job.workspaceRoot
  jobID := job.jobID
  fence
  pid := 0
  acquiredAt := job.createdAt
  releasedAt := none

def Database.Idle (db : Database) (workspaceRoot : String) : Prop :=
  ∀ jobID job, db.jobs.find? jobID = some job → job.workspaceRoot = workspaceRoot →
    job.isActive = false

variable {db db' : Database} {job active : IndexJob} {o p : IndexJobOwnership}
  {jobs : Table IndexJob.jobID} {processes : Processes} {ids : NewIndexIDs}
  {request : IndexJobRequest} {mode : IndexMode} {root now owner : String}

theorem Database.lt_nextFencingToken (db : Database) (ho : db.ownership.find? root = some o) :
    o.fence.fencingToken < db.nextFencingToken root := by
  simp only [Database.nextFencingToken, ho, map_some, getD_some]
  omega

theorem loadActiveIndexJobTx_eq_some (h : loadActiveIndexJobTx db root job.jobID = some active) :
    db.jobs.find? active.jobID = some active ∧ active.workspaceRoot = root ∧
      active.jobID ≠ job.jobID ∧ active.isActive = true := by
  have hmem := mem_reverse.mp (mem_of_find?_eq_some h)
  have hactive := find?_some h
  simp only [Bool.and_eq_true, decide_eq_true_eq] at hactive
  exact ⟨find?_of_mem hmem, hactive.1.1, hactive.1.2, hactive.2⟩

theorem loadActiveIndexJobTx_eq_none :
    loadActiveIndexJobTx db root job.jobID = none ↔
      ∀ jobID j, db.jobs.find? jobID = some j → j.workspaceRoot = root → jobID ≠ job.jobID →
        j.isActive = false := by
  simp only [loadActiveIndexJobTx, find?_eq_none, mem_reverse, Bool.and_eq_true,
    decide_eq_true_eq, not_and, Bool.not_eq_true, and_imp]
  constructor
  · intro h id j hj hroot hne
    exact h j (mem_of_find? hj) hroot (key_of_find? hj ▸ hne)
  · intro h j hj hroot hne
    exact h j.jobID j (find?_of_mem hj) hroot hne

namespace Fenced

section

variable (h : Fenced db) {loaded : LoadedJob}
include h

theorem eq_of_jobID (ho : o ∈ db.ownership.rows) (hp : p ∈ db.ownership.rows)
    (hjobID : o.jobID = p.jobID) : o = p := by
  obtain ⟨job, hjob, hroot, -⟩ := h.known _ o (find?_of_mem ho)
  obtain ⟨job', hjob', hroot', -⟩ := h.known _ p (find?_of_mem hp)
  rw [← hjobID, hjob] at hjob'
  cases hjob'
  have hfind := find?_of_mem ho
  rw [← hroot, hroot', find?_of_mem hp] at hfind
  exact (Option.some.inj hfind).symm

theorem ownershipByJob (ho : o ∈ db.ownership.rows) : db.ownershipByJob o.jobID = some o := by
  obtain ⟨p, hp⟩ := isSome_iff_exists.mp
    (find?_isSome.mpr ⟨o, ho, by simp⟩ : (db.ownershipByJob o.jobID).isSome)
  have hjobID := find?_some hp
  rw [decide_eq_true_eq] at hjobID
  rw [Database.ownershipByJob, hp, h.eq_of_jobID (mem_of_find?_eq_some hp) ho hjobID]

theorem owner_of_active (hjob : db.jobs.find? job.jobID = some job)
    (hactive : job.isActive = true) :
    ∃ o, db.ownershipByJob job.jobID = some o ∧ o.releasedAt = none ∧
      db.ownership.find? job.workspaceRoot = some o := by
  obtain ⟨o, ho, hjobID, hheld⟩ := h.reserved _ job hjob hactive
  exact ⟨o, hjobID ▸ h.ownershipByJob (mem_of_find? ho), hheld, ho⟩

theorem released_of_idle (hidle : db.Idle root) (ho : db.ownership.find? root = some o) :
    o.releasedAt ≠ none := by
  intro hheld
  obtain ⟨job, hjob, hroot, hactive⟩ := h.known root o ho
  have hinactive := hidle _ job hjob hroot
  rw [hactive hheld] at hinactive
  cases hinactive

theorem reserveIndexJobTx_of_active (processes : Processes) (owner now : String)
    (hinsert : db.jobs.insert? job = some jobs) (hjob : db.jobs.find? active.jobID = some active)
    (hroot : active.workspaceRoot = job.workspaceRoot) (hactive : active.isActive = true) :
    ∃ legacy : IndexJob, reserveIndexJobTx { db with jobs } processes job owner now =
      .error (.activeIndexJob legacy.activeJob) := by
  have hsets := Table.Sets.of_insert hinsert
  have hfresh := (insert?_eq_some hinsert).1
  cases hload : loadActiveIndexJobTx { db with jobs } job.workspaceRoot job.jobID with
  | none =>
    have hne : active.jobID ≠ job.jobID := by
      intro hsame
      rw [hsame, hfresh] at hjob
      cases hjob
    have hinactive := loadActiveIndexJobTx_eq_none.mp hload active.jobID active
      ((hsets.find?_of_ne hne.symm).trans hjob) hroot hne
    rw [hactive] at hinactive
    cases hinactive
  | some legacy =>
    obtain ⟨hlegacy, -, hne, hlegacyActive⟩ := loadActiveIndexJobTx_eq_some hload
    have hlegacy := (hsets.find?_of_ne hne.symm).symm.trans hlegacy
    obtain ⟨o, ho, hheld, -⟩ := h.owner_of_active hlegacy hlegacyActive
    have howned : (Database.ownershipByJob { db with jobs } legacy.jobID).any
        (·.releasedAt.isNone) = true := by
      have hsame : Database.ownershipByJob { db with jobs } legacy.jobID =
        db.ownershipByJob legacy.jobID := rfl
      simp [hsame, ho, hheld]
    refine ⟨legacy, ?_⟩
    have hretire : retireLegacyJob { db with jobs } processes job now =
        .error (.activeIndexJob legacy.activeJob) := by
      simp only [retireLegacyJob, hload, howned, Bool.true_or, if_true]
    simp [reserveIndexJobTx, hretire, bind, Except.bind]

theorem reserveIndexJobTx_of_idle (processes : Processes) (owner now : String)
    (hinsert : db.jobs.insert? job = some jobs) (hidle : db.Idle job.workspaceRoot) :
    reserveIndexJobTx { db with jobs } processes job owner now =
      .ok { db with
        jobs
        ownership := db.ownership.put
          (job.reservation ⟨owner, db.nextFencingToken job.workspaceRoot⟩) } := by
  have hsets := Table.Sets.of_insert hinsert
  have hretire : retireLegacyJob { db with jobs } processes job now = .ok { db with jobs } := by
    have hload : loadActiveIndexJobTx { db with jobs } job.workspaceRoot job.jobID = none := by
      rw [loadActiveIndexJobTx_eq_none]
      intro id j hj hroot hne
      exact hidle id j ((hsets.find?_of_ne hne.symm).symm.trans hj) hroot
    simp only [retireLegacyJob, hload]
  unfold reserveIndexJobTx
  rw [hretire]
  cases ho : db.ownership.find? job.workspaceRoot with
  | none =>
    simp [bind, Except.bind, releaseStaleReservation, takeReservation, ho, IndexJob.reservation,
      Database.nextFencingToken]
  | some o =>
    obtain ⟨_, jobID, _, _, _, releasedAt⟩ := o
    cases releasedAt with
    | none => exact absurd rfl (h.released_of_idle hidle ho)
    | some at_ =>
      simp [bind, Except.bind, releaseStaleReservation, takeReservation, ho, IndexJob.reservation,
        Database.nextFencingToken]

theorem currentIndexJobOwner_eq (ho : o ∈ db.ownership.rows) (hheld : o.releasedAt = none) :
    currentIndexJobOwner db o.jobID = some o.fence := by
  unfold currentIndexJobOwner
  cases hp : db.ownership.rows.find? fun p ↦ p.jobID = o.jobID && p.releasedAt.isNone with
  | none => simpa [hheld] using find?_eq_none.mp hp o ho
  | some p =>
    have hjobID := find?_some hp
    simp only [Bool.and_eq_true, decide_eq_true_eq] at hjobID
    rw [h.eq_of_jobID (mem_of_find?_eq_some hp) ho hjobID.1, map_some]

theorem createIndexJob_eq_ok :
    createIndexJob db processes ids request now = .ok (db', loaded) ↔
      ∃ mode jobs generations, normalizeIndexMode request.mode = .ok mode ∧
        db.Idle request.workspaceRoot ∧
        db.jobs.insert? (newIndexJob ids request mode now) = some jobs ∧
        db.generations.insert? (newIndexJob ids request mode now).generation = some generations ∧
        db' = { db with
          jobs
          ownership := db.ownership.put ((newIndexJob ids request mode now).reservation
            ⟨newIndexID "idxowner" ids.owner, db.nextFencingToken request.workspaceRoot⟩)
          generations } ∧
        loaded = attachIndexJobOwner db' (newIndexJob ids request mode now) := by
  unfold createIndexJob
  simp only [bind_eq_ok, orElse_eq_ok, mapError_eq_ok, pure_eq_ok, Prod.mk.injEq]
  constructor
  · rintro ⟨mode, hmode, jobs, hjobs, db₁, hreserve, generations, hgenerations, rfl, rfl⟩
    have hidle : db.Idle request.workspaceRoot := by
      intro id active hactive hroot
      by_contra hne
      obtain ⟨legacy, hlegacy⟩ := h.reserveIndexJobTx_of_active processes _ now hjobs
        (key_of_find? hactive ▸ hactive) hroot (by simpa using hne)
      rw [hlegacy] at hreserve
      cases hreserve
    rw [h.reserveIndexJobTx_of_idle _ _ _ hjobs hidle] at hreserve
    cases hreserve
    exact ⟨mode, jobs, generations, hmode, hidle, hjobs, hgenerations, rfl, rfl⟩
  · rintro ⟨mode, jobs, generations, hmode, hidle, hjobs, hgenerations, rfl, rfl⟩
    exact ⟨mode, hmode, jobs, hjobs, _, h.reserveIndexJobTx_of_idle _ _ _ hjobs hidle, generations,
      hgenerations, rfl, rfl⟩

theorem createIndexJob_reserves
    (hcreate : createIndexJob db processes ids request now = .ok (db', loaded)) :
    ∃ o, Reserves db db' loaded.job o ∧
      o.fence = ⟨newIndexID "idxowner" ids.owner,
        db.nextFencingToken loaded.job.workspaceRoot⟩ ∧
      loaded.job.workspaceRoot = request.workspaceRoot ∧ loaded.fence = some o.fence := by
  obtain ⟨mode, jobs, generations, -, hidle, hjobs, -, hdb', hloaded⟩ :=
    h.createIndexJob_eq_ok.mp hcreate
  let job := newIndexJob ids request mode now
  let o := job.reservation
    ⟨newIndexID "idxowner" ids.owner, db.nextFencingToken request.workspaceRoot⟩
  have hreserves : Reserves db db' job o := by
    subst hdb'
    exact ⟨(insert?_eq_some hjobs).1, rfl, fun o' ho' ↦ h.released_of_idle hidle ho', rfl,
      rfl, rfl, .of_insert hjobs, .of_put _ _⟩
  have howner := (h.reserves hreserves).currentIndexJobOwner_eq
    (mem_of_find? hreserves.ownership.find?) rfl
  subst hloaded
  exact ⟨o, hreserves, rfl, rfl, howner⟩

end

end Fenced

end MiLsp.Store
