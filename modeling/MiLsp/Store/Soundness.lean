import MiLsp.Store.Bookkeeping
import MiLsp.Store.Runs

namespace MiLsp.Store

open MiLsp.Graph Library List

structure Sound (db : Database) : Prop where
  consistent : ∀ jobID job, db.jobs.find? jobID = some job → job.state.Consistent
  generation : ∀ g ∈ db.generations.rows,
    ∃ job, db.jobs.find? g.jobID = some job ∧ job.generationID = g.generationID
  valid : ∀ root o, db.ownership.find? root = some o → resolveIndexJobFence o.fence = .ok ()

variable {host : GraphHost} {log : List LoadedJob} {db db' : Database} {job job' : IndexJob}
  {o o' : IndexJobOwnership}

theorem newIndexID_ne_empty (kind random : String) : newIndexID kind random ≠ "" := by
  intro h
  have hlist := congrArg String.toList h
  simp [newIndexID] at hlist

theorem Database.exists_of_registry (h : db'.registry = db.registry) {g' : IndexGeneration}
    (hg' : g' ∈ db'.generations.rows) :
    ∃ g ∈ db.generations.rows, g.generationID = g'.generationID ∧ g.jobID = g'.jobID := by
  have hmem : (g'.generationID, g'.jobID) ∈ db.registry := by
    rw [← h]
    exact mem_map.mpr ⟨g', hg', rfl⟩
  obtain ⟨g, hg, heq⟩ := mem_map.mp hmem
  exact ⟨g, hg, congrArg Prod.fst heq, congrArg Prod.snd heq⟩

namespace Sound

theorem empty : Sound .empty where
  consistent := by
    intro jobID job hjob
    cases hjob
  generation := by
    intro g hg
    cases hg
  valid := by
    intro root o ho
    cases ho

section

variable (h : Sound db)
include h

theorem of_leases (hleases : db'.leases = db.leases) (hregistry : db'.registry = db.registry) :
    Sound db' := by
  have hjobs : db'.jobs = db.jobs := congrArg Prod.fst hleases
  have hownership : db'.ownership = db.ownership := congrArg Prod.snd hleases
  refine ⟨?_, ?_, ?_⟩
  · rw [hjobs]
    exact h.consistent
  · intro g' hg'
    obtain ⟨g, hg, hid, hjobID⟩ := Database.exists_of_registry hregistry hg'
    obtain ⟨job, hjob, hgeneration⟩ := h.generation g hg
    exact ⟨job, hjobs ▸ hjobID ▸ hjob, hgeneration.trans hid⟩
  · rw [hownership]
    exact h.valid

theorem moves (hmoves : Moves db db' job job' o o') (hregistry : db'.registry = db.registry) :
    Sound db' := by
  refine ⟨?_, ?_, ?_⟩
  · intro id j hj
    by_cases hid : job'.jobID = id
    · rw [hmoves.jobs id, if_pos hid] at hj
      cases hj
      exact hmoves.steps.consistent (h.consistent _ job hmoves.found)
    · exact h.consistent id j ((hmoves.jobs.find?_of_ne hid).symm.trans hj)
  · intro g' hg'
    obtain ⟨g, hg, hid, hjobID⟩ := Database.exists_of_registry hregistry hg'
    obtain ⟨j, hj, hgeneration⟩ := h.generation g hg
    rw [← hjobID, ← hid]
    by_cases hkey : job'.jobID = g.jobID
    · rw [← hkey, IndexJob.identity_jobID hmoves.identity, hmoves.found] at hj
      cases hj
      refine ⟨job', hkey ▸ hmoves.jobs.find?, ?_⟩
      rw [← hgeneration]
      exact congrArg (·.2.1) hmoves.identity
    · exact ⟨j, (hmoves.jobs.find?_of_ne hkey).trans hj, hgeneration⟩
  · intro root p hp
    by_cases hroot : o'.workspaceRoot = root
    · rw [hmoves.ownership root, if_pos hroot] at hp
      cases hp
      rw [hmoves.fence_eq]
      exact h.valid _ o hmoves.reserved
    · exact h.valid root p ((hmoves.ownership.find?_of_ne hroot).symm.trans hp)

theorem operates (hop : Operates host db db') : Sound db' := by
  obtain ⟨world, op, hop⟩ := hop
  have hregistry := Operation.apply_registry hop
  obtain hleases | ⟨fence, job, job', o, o', -, -, hmoves⟩ := Operation.apply_moved hop
  · exact h.of_leases hleases hregistry
  · exact h.moves hmoves hregistry

theorem nextFencingToken_pos (root : String) : 0 < db.nextFencingToken root := by
  unfold Database.nextFencingToken
  cases ho : db.ownership.find? root with
  | none => simp
  | some o =>
    have hvalid := (resolveIndexJobFence_eq_ok.mp (h.valid root o ho)).2
    simp only [Option.map_some, Option.getD_some]
    omega

theorem create {processes : Processes} {ids : NewIndexIDs} {request : IndexJobRequest}
    {now : String} {loaded : LoadedJob} (hfenced : Fenced db)
    (hcreate : createIndexJob db processes ids request now = .ok (db', loaded)) : Sound db' := by
  obtain ⟨mode, jobs, generations, -, -, hjobs, hgenerations, rfl, -⟩ :=
    hfenced.createIndexJob_eq_ok.mp hcreate
  have hsets := Table.Sets.of_insert hjobs
  refine ⟨?_, ?_, ?_⟩
  · intro id j hj
    by_cases hid : (newIndexJob ids request mode now).jobID = id
    · rw [hsets id, if_pos hid] at hj
      cases hj
      exact ⟨rfl, rfl⟩
    · exact h.consistent id j ((hsets.find?_of_ne hid).symm.trans hj)
  · intro g hg
    rw [(Table.insert?_eq_some hgenerations).2, mem_append, mem_singleton] at hg
    obtain hg | rfl := hg
    · obtain ⟨j, hj, hgeneration⟩ := h.generation g hg
      refine ⟨j, ?_, hgeneration⟩
      rw [← hj]
      refine hsets.find?_of_ne ?_
      intro hsame
      rw [← hsame, (Table.insert?_eq_some hjobs).1] at hj
      cases hj
    · exact ⟨_, hsets.find?, rfl⟩
  · intro root p hp
    rw [Table.find?_put] at hp
    split at hp
    · cases hp
      exact resolveIndexJobFence_eq_ok.mpr ⟨newIndexID_ne_empty _ _, h.nextFencingToken_pos _⟩
    · exact h.valid root p hp

theorem eq_of_jobID {g g' : IndexGeneration} (hg : g ∈ db.generations.rows)
    (hg' : g' ∈ db.generations.rows) (hjobID : g.jobID = g'.jobID) : g = g' := by
  obtain ⟨job, hjob, hid⟩ := h.generation g hg
  obtain ⟨job', hjob', hid'⟩ := h.generation g' hg'
  rw [← hjobID, hjob] at hjob'
  cases hjob'
  exact inj_on_of_nodup_map db.generations.nodup hg hg' (hid.symm.trans hid')

end

end Sound

theorem Run.sound (h : Run host log db) : Sound db :=
  h.rule .empty (fun hfenced hsound hcreate ↦ hsound.create hfenced hcreate)
    fun hsound hop ↦ hsound.operates hop

/-- In every run jobs and generations belong together, and no job has two. -/
theorem run_generations_owned (h : Run host log db) : Sound db ∧
    ∀ g ∈ db.generations.rows, ∀ g' ∈ db.generations.rows, g.jobID = g'.jobID → g = g' := by
  have hsound := h.sound
  exact ⟨hsound, fun _ hg _ hg' ↦ hsound.eq_of_jobID hg hg'⟩

theorem sampleRunning_owned : ∃ log, Run sampleHost log sampleRunning ∧ Sound sampleRunning := by
  obtain ⟨log, hrun⟩ := sampleRunning_run
  exact ⟨log, hrun, (run_generations_owned hrun).1⟩

theorem staleIndexJobForRead_eq {processes : Processes} (hfenced : Fenced db) (hsound : Sound db)
    (hactive : job.isActive = true) (ho : o ∈ db.ownership.rows)
    (hjobID : o.jobID = job.jobID) (hheld : o.releasedAt = none) :
    staleIndexJobForRead db processes job = (decide (0 < o.pid) && !processes o.pid) := by
  have hvalid := resolveIndexJobFence_eq_ok.mp (hsound.valid _ o (Table.find?_of_mem ho))
  have hfound := hfenced.ownershipByJob ho
  rw [hjobID] at hfound
  obtain ⟨_, _, fence, pid, _, releasedAt⟩ := o
  subst hheld
  simp [staleIndexJobForRead, hactive, hfound, hvalid]

end MiLsp.Store
