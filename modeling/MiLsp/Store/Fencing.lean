import MiLsp.Store.Calls

namespace MiLsp.Store

open MiLsp.Graph

/-- An active job holds its workspace's reservation, and a reservation is held only while its job is
active. -/
structure Fenced (db : Database) : Prop where
  reserved : ∀ jobID job, db.jobs.find? jobID = some job → job.isActive = true →
    ∃ o, db.ownership.find? job.workspaceRoot = some o ∧ o.jobID = jobID ∧ o.releasedAt = none
  known : ∀ root o, db.ownership.find? root = some o →
    ∃ job, db.jobs.find? o.jobID = some job ∧ job.workspaceRoot = root ∧
      (o.releasedAt = none → job.isActive = true)

/-- A new job takes the reservation of its workspace, which nobody holds. -/
structure Reserves (db db' : Database) (job : IndexJob) (o : IndexJobOwnership) : Prop where
  fresh : db.jobs.find? job.jobID = none
  queued : job.state = ⟨.queued, false, false⟩
  free : ∀ o', db.ownership.find? job.workspaceRoot = some o' → o'.releasedAt ≠ none
  workspaceRoot : o.workspaceRoot = job.workspaceRoot
  jobID : o.jobID = job.jobID
  held : o.releasedAt = none
  jobs : db.jobs.Sets db'.jobs job
  ownership : db.ownership.Sets db'.ownership o

variable {host : GraphHost} {world : World} {db db' : Database} {job job' : IndexJob}
  {o o' : IndexJobOwnership} {fence : IndexJobFence}

namespace Fenced

theorem empty : Fenced .empty where
  reserved := by
    intro jobID job hjob
    cases hjob
  known := by
    intro root o ho
    cases ho

section

variable (h : Fenced db)
include h

theorem workspaceRoot_eq (hjob : db.jobs.find? o.jobID = some job)
    (ho : db.ownership.find? o.workspaceRoot = some o) : job.workspaceRoot = o.workspaceRoot := by
  obtain ⟨job', hjob', hroot, -⟩ := h.known _ o ho
  rw [hjob] at hjob'
  cases hjob'
  exact hroot

theorem sets (hjobs : db.jobs.Sets db'.jobs job') (hownership : db.ownership.Sets db'.ownership o')
    (hroot : o'.workspaceRoot = job'.workspaceRoot) (hjobID : o'.jobID = job'.jobID)
    (hheld : o'.releasedAt = none ↔ job'.isActive = true)
    (hreserved : ∀ p, db.ownership.find? o'.workspaceRoot = some p → p.releasedAt = none →
      p.jobID = job'.jobID)
    (hknown : ∀ j, db.jobs.find? job'.jobID = some j → j.workspaceRoot = o'.workspaceRoot) :
    Fenced db' := by
  constructor
  · intro id j hj hactive
    by_cases hid : job'.jobID = id
    · rw [hjobs id, if_pos hid] at hj
      cases hj
      exact ⟨o', hroot ▸ hownership.find?, hjobID.trans hid, hheld.mpr hactive⟩
    · rw [hjobs.find?_of_ne hid] at hj
      obtain ⟨p, hp, hpid, hfree⟩ := h.reserved id j hj hactive
      refine ⟨p, ?_, hpid, hfree⟩
      rwa [hownership.find?_of_ne]
      -- the two jobs are not of one workspace, since they do not share a reservation
      intro hsame
      exact hid ((hreserved p (hsame ▸ hp) hfree).symm.trans hpid)
  · intro root p hp
    by_cases hpr : o'.workspaceRoot = root
    · rw [hownership root, if_pos hpr] at hp
      cases hp
      exact ⟨job', hjobID ▸ hjobs.find?, hroot.symm.trans hpr, hheld.mp⟩
    · rw [hownership.find?_of_ne hpr] at hp
      obtain ⟨j, hj, hjroot, hactive⟩ := h.known root p hp
      refine ⟨j, ?_, hjroot, hactive⟩
      rwa [hjobs.find?_of_ne]
      intro hsame
      exact hpr ((hknown j (hsame ▸ hj)).symm.trans hjroot)

theorem moves (hmoves : Moves db db' job job' o o') : Fenced db' := by
  have hkey := IndexJob.identity_jobID hmoves.identity
  have hroot : job.workspaceRoot = o.workspaceRoot :=
    h.workspaceRoot_eq (hmoves.jobID ▸ hmoves.found) hmoves.reserved
  refine h.sets hmoves.jobs hmoves.ownership ?_ ?_ hmoves.released ?_ ?_
  · rw [hmoves.workspaceRoot_eq, ← hroot, IndexJob.identity_workspaceRoot hmoves.identity]
  · rw [hmoves.jobID_eq, hmoves.jobID, hkey]
  · rw [hmoves.workspaceRoot_eq, hmoves.reserved, hkey]
    rintro p ⟨⟩ -
    exact hmoves.jobID
  · rw [hmoves.workspaceRoot_eq, hkey, hmoves.found]
    rintro j ⟨⟩
    exact hroot

theorem reserves (hreserves : Reserves db db' job o) : Fenced db' := by
  have hactive := isActive_of_status_eq (congrArg JobState.status hreserves.queued)
  refine h.sets hreserves.jobs hreserves.ownership hreserves.workspaceRoot hreserves.jobID
    (iff_of_true hreserves.held hactive) ?_ ?_
  · rw [hreserves.workspaceRoot]
    intro p hp hheld
    exact absurd hheld (hreserves.free p hp)
  · rw [hreserves.fresh]
    intro j hj
    cases hj

theorem of_leases (hleases : db'.leases = db.leases) : Fenced db' := by
  have hjobs : db'.jobs = db.jobs := congrArg Prod.fst hleases
  have hownership : db'.ownership = db.ownership := congrArg Prod.snd hleases
  refine ⟨?_, ?_⟩
  · rw [hjobs, hownership]
    exact h.reserved
  · rw [hjobs, hownership]
    exact h.known

theorem operates (hop : Operates host db db') : Fenced db' := by
  obtain ⟨world, op, hop⟩ := hop
  obtain hleases | ⟨fence, job, job', o, o', -, -, hmoves⟩ := Operation.apply_moved hop
  · exact h.of_leases hleases
  · exact h.moves hmoves

end

end Fenced

end MiLsp.Store
