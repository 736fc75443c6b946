import MiLsp.Graph.Publication
import MiLsp.Store.Reservation

namespace MiLsp.Store

open MiLsp.Graph Library Session List

/-- Any number of processes create jobs and call upon them. The log lists the reservations, newest
first. -/
inductive Run (host : GraphHost) : List LoadedJob → Database → Prop
  | empty : Run host [] .empty
  | create {log : List LoadedJob} {db db' : Database} {loaded : LoadedJob} (world : World)
      (ids : NewIndexIDs) (request : IndexJobRequest) (h : Run host log db)
      (hcreate : createIndexJob db world.processes ids request world.now = .ok (db', loaded)) :
      Run host (loaded :: log) db'
  | call {log : List LoadedJob} {db : Database} (world : World) (call : Call)
      (h : Run host log db) : Run host log ((call.run host world).exec db).2

/-- The reservation is the one its workspace has now, and has not been released. -/
def LoadedJob.Holds (r : LoadedJob) (db : Database) : Prop :=
  ∃ o, db.ownership.find? r.job.workspaceRoot = some o ∧ r.fence = some o.fence ∧
    o.releasedAt = none

/-- Owner tokens are drawn at random: no two reservations of the log share one. -/
def DistinctTokens (log : List LoadedJob) : Prop :=
  (log.map fun r ↦ r.fence.map (·.ownerToken)).Nodup

structure Logged (log : List LoadedJob) (db : Database) : Prop where
  current : ∀ root o, db.ownership.find? root = some o →
    ∃ r ∈ log, r.job.workspaceRoot = root ∧ r.fence = some o.fence
  bounded : ∀ r ∈ log, ∃ o fence, db.ownership.find? r.job.workspaceRoot = some o ∧
    r.fence = some fence ∧ fence.fencingToken ≤ o.fence.fencingToken
  increasing : log.Pairwise fun newer older ↦ newer.job.workspaceRoot = older.job.workspaceRoot →
    ∃ fence fence', newer.fence = some fence ∧ older.fence = some fence' ∧
      fence'.fencingToken < fence.fencingToken

variable {host : GraphHost} {world : World} {db db' : Database} {log : List LoadedJob}
  {loaded r : LoadedJob} {ids : NewIndexIDs} {request : IndexJobRequest} {fence : IndexJobFence}

namespace Logged

theorem empty : Logged [] .empty where
  current := by
    intro root o ho
    cases ho
  bounded := by simp
  increasing := .nil

section

variable (h : Logged log db)
include h

theorem operates (hop : Operates host db db') : Logged log db' := by
  obtain ⟨world, op, hop⟩ := hop
  obtain hleases | ⟨-, job, job', o, o', -, -, hmoves⟩ := Operation.apply_moved hop
  · have hownership : db'.ownership = db.ownership := congrArg Prod.snd hleases
    exact ⟨hownership ▸ h.current, hownership ▸ h.bounded, h.increasing⟩
  refine ⟨?_, ?_, h.increasing⟩
  · intro root p hp
    by_cases hroot : o'.workspaceRoot = root
    · rw [hmoves.ownership root, if_pos hroot] at hp
      cases hp
      rw [hmoves.fence_eq]
      exact h.current root o (hroot ▸ hmoves.workspaceRoot_eq ▸ hmoves.reserved)
    · rw [hmoves.ownership.find?_of_ne hroot] at hp
      exact h.current root p hp
  · intro r hr
    obtain ⟨p, fence, hp, hfence, hle⟩ := h.bounded r hr
    by_cases hroot : o'.workspaceRoot = r.job.workspaceRoot
    · rw [← hroot, hmoves.workspaceRoot_eq, hmoves.reserved] at hp
      cases hp
      refine ⟨o', fence, hroot ▸ hmoves.ownership.find?, hfence, ?_⟩
      rwa [hmoves.fence_eq]
    · exact ⟨p, fence, (hmoves.ownership.find?_of_ne hroot).trans hp, hfence, hle⟩

theorem lt_nextFencingToken (hr : r ∈ log) :
    ∃ fence, r.fence = some fence ∧
      fence.fencingToken < db.nextFencingToken r.job.workspaceRoot := by
  obtain ⟨o, fence, ho, hfence, hle⟩ := h.bounded r hr
  exact ⟨fence, hfence, hle.trans_lt (db.lt_nextFencingToken ho)⟩

theorem create (hfenced : Fenced db)
    (hcreate : createIndexJob db world.processes ids request world.now = .ok (db', loaded)) :
    Logged (loaded :: log) db' := by
  obtain ⟨o, hreserves, hfence, -, hloaded⟩ := hfenced.createIndexJob_reserves hcreate
  have hroot := hreserves.workspaceRoot
  refine ⟨?_, ?_, ?_⟩
  · intro root p hp
    by_cases hpr : o.workspaceRoot = root
    · rw [hreserves.ownership root, if_pos hpr] at hp
      cases hp
      exact ⟨loaded, by simp, hroot.symm.trans hpr, hloaded⟩
    · rw [hreserves.ownership.find?_of_ne hpr] at hp
      obtain ⟨r, hr, hrr, hrf⟩ := h.current root p hp
      exact ⟨r, mem_cons_of_mem _ hr, hrr, hrf⟩
  · intro r hr
    obtain rfl | hr := mem_cons.mp hr
    · exact ⟨o, o.fence, hroot ▸ hreserves.ownership.find?, hloaded, le_refl _⟩
    · by_cases hrr : o.workspaceRoot = r.job.workspaceRoot
      · obtain ⟨fence, hrf, hlt⟩ := h.lt_nextFencingToken hr
        refine ⟨o, fence, hrr ▸ hreserves.ownership.find?, hrf, ?_⟩
        rw [← hrr, hroot] at hlt
        rw [hfence]
        exact hlt.le
      · obtain ⟨p, fence, hp, hrf, hle⟩ := h.bounded r hr
        exact ⟨p, fence, (hreserves.ownership.find?_of_ne hrr).trans hp, hrf, hle⟩
  · refine .cons ?_ h.increasing
    intro r hr hrr
    obtain ⟨fence, hrf, hlt⟩ := h.lt_nextFencingToken hr
    refine ⟨o.fence, fence, hloaded, hrf, ?_⟩
    rw [hfence]
    exact hrr ▸ hlt

theorem not_owns (hdistinct : DistinctTokens log) (hr : r ∈ log) (hfence : r.fence = some fence)
    (hholds : ¬r.Holds db) (jobID : String) : db.owns jobID fence = false := by
  by_contra howns
  rw [Bool.not_eq_false, Database.owns_iff] at howns
  obtain ⟨o, ho, -, rfl, hheld⟩ := howns
  have ho := Table.find?_of_mem ho
  obtain ⟨r', hr', hroot, hfence'⟩ := h.current _ o ho
  -- the owner token tells the reservation
  have hsame : r' = r := by
    refine inj_on_of_nodup_map hdistinct hr' hr ?_
    rw [hfence, hfence']
  subst hsame
  exact hholds ⟨o, hroot ▸ ho, hfence, hheld⟩

theorem not_holds_of_newer {newer older : List LoadedJob} (hlog : log = newer ++ r :: older)
    {r' : LoadedJob} (hr' : r' ∈ newer) (hroot : r'.job.workspaceRoot = r.job.workspaceRoot) :
    ¬r.Holds db := by
  rintro ⟨o, ho, hfence, -⟩
  obtain ⟨o', fence', ho', hfence', hle⟩ := h.bounded r' (by simp [hlog, hr'])
  rw [hroot, ho] at ho'
  cases ho'
  have hincreasing := h.increasing
  rw [hlog, pairwise_append] at hincreasing
  obtain ⟨f, f', hf, hf', hlt⟩ := hincreasing.2.2 r' hr' r (by simp) hroot
  rw [hfence'] at hf
  rw [hfence] at hf'
  cases hf
  cases hf'
  omega

end

end Logged

theorem Run.invariant (h : Run host log db) : Fenced db ∧ Logged log db := by
  induction h with
  | empty => exact ⟨.empty, .empty⟩
  | create world ids request h hcreate ih =>
    obtain ⟨hfenced, hlogged⟩ := ih
    obtain ⟨o, hreserves, -⟩ := hfenced.createIndexJob_reserves hcreate
    exact ⟨hfenced.reserves hreserves, hlogged.create hfenced hcreate⟩
  | @call log db world call h ih =>
    -- a call is a sequence of operations
    have hcall := call.run_operates host world db
    generalize ((call.run host world).exec db).2 = db' at hcall
    induction hcall with
    | refl => exact ih
    | tail _ hop ih => exact ⟨ih.1.operates hop, ih.2.operates hop⟩

theorem Run.rule {P : Database → Prop} (hempty : P .empty)
    (hcreate : ∀ {db db' world ids request loaded}, Fenced db → P db →
      createIndexJob db world.processes ids request (World.now world) = .ok (db', loaded) → P db')
    (hoperates : ∀ {db db'}, P db → Operates host db db' → P db') (h : Run host log db) : P db := by
  induction h with
  | empty => exact hempty
  | create world ids request h h' ih => exact hcreate h.invariant.1 ih h'
  | @call log db world call h ih =>
    have hcall := call.run_operates host world db
    generalize ((call.run host world).exec db).2 = db' at hcall
    induction hcall with
    | refl => exact ih
    | tail _ hop ih => exact hoperates ih hop

section Stale

variable {jobID now : String} {set : IndexJob → IndexJob} {guard : IndexJob → Bool}

theorem resolveIndexJobFence_error {e : StoreError} (h : resolveIndexJobFence fence = .error e) :
    e = .staleIndexJobOwner := by
  unfold resolveIndexJobFence at h
  split at h
  · exact (Except.error.inj h).symm
  · cases h

theorem updateJob_stale {hset : ∀ job, (set job).jobID = job.jobID}
    (hguard : ∀ job, db.jobs.find? jobID = some job → guard job = false) :
    db.updateJob jobID guard set hset = .error .staleIndexJobOwner := by
  cases h : db.updateJob jobID guard set hset with
  | ok db' =>
    obtain ⟨⟨job, hjob, hpass⟩, -⟩ := updateJob_eq_ok.mp h
    rw [hguard job hjob] at hpass
    cases hpass
  | error e =>
    unfold Database.updateJob at h
    cases hupdate : db.jobs.updateOne (fun job ↦ job.jobID = jobID && guard job) set hset with
    | some jobs =>
      rw [hupdate] at h
      cases h
    | none =>
      rw [hupdate] at h
      exact h.symm

theorem bind_stale {α β : Type} {x : Except StoreError α} {f : α → Except StoreError β}
    (h : x = .error .staleIndexJobOwner) : x >>= f = .error .staleIndexJobOwner := by
  rw [h]
  rfl

theorem resolveIndexJobFence_bind_stale {β : Type} {f : Unit → Except StoreError β}
    (h : f () = .error .staleIndexJobOwner) :
    resolveIndexJobFence fence >>= f = .error .staleIndexJobOwner := by
  cases hresolve : resolveIndexJobFence fence with
  | error e =>
    rw [resolveIndexJobFence_error hresolve]
    rfl
  | ok => exact h

theorem markIndexJob_stale (howns : db.owns jobID fence = false)
    {hset : ∀ job, (set job).jobID = job.jobID} :
    markIndexJob db jobID fence guard set hset = .error .staleIndexJobOwner :=
  resolveIndexJobFence_bind_stale (updateJob_stale fun job _ ↦ by simp [howns])

theorem Operation.apply_stale {op : Operation} (hfence : op.fence = some fence)
    (howns : db.owns op.jobID fence = false) :
    op.apply host world db =
      .error (if op.invalidPhase then .invalidIndexJobTransition else .staleIndexJobOwner) := by
  cases op with
  | running jobID pid name f =>
    cases hfence
    exact bind_stale (markIndexJob_stale howns)
  | phase jobID status name f =>
    cases hfence
    by_cases hstatus : status = .publishing
    · subst hstatus
      exact markIndexJob_stale howns
    · simp [Operation.apply, markIndexJobPhase, Operation.invalidPhase, hstatus]
  | progress jobID made f =>
    cases hfence
    exact markIndexJob_stale howns
  | succeeded jobID counts f =>
    cases hfence
    exact resolveIndexJobFence_bind_stale (bind_stale (updateJob_stale fun job _ ↦ by
      simp only [Operation.jobID] at howns
      simp [howns]))
  | skipped jobID message f =>
    cases hfence
    refine resolveIndexJobFence_bind_stale ?_
    simp only [Operation.jobID] at howns
    simp [howns, throw, throwThe, MonadExceptOf.throw, bind, Except.bind]
  | failed jobID message f =>
    cases hfence
    exact bind_stale (markIndexJob_stale howns)
  | canceled jobID f =>
    cases hfence
    exact bind_stale (markIndexJob_stale howns)
  | publish call mode counts body =>
    cases hfence
    refine resolveIndexJobFence_bind_stale ?_
    split
    · rfl
    · exact bind_stale (markIndexJob_stale howns)
  | requestCancel jobID => cases hfence
  | terminating jobID f =>
    cases hfence
    exact updateJob_stale fun job _ ↦ by
      simp only [Operation.jobID] at howns
      simp [howns]

end Stale

/-- A workspace has at most one active job, which its held reservation names. Tokens increase, and a
reservation that is over is of no use. -/
structure Exclusive (host : GraphHost) (log : List LoadedJob) (db : Database) : Prop where
  unique : ∀ job ∈ db.jobs.rows, ∀ job' ∈ db.jobs.rows, job.isActive = true →
    job'.isActive = true → job.workspaceRoot = job'.workspaceRoot → job = job'
  named : ∀ job ∈ db.jobs.rows, job.isActive = true ↔
    ∃ o ∈ db.ownership.rows, o.workspaceRoot = job.workspaceRoot ∧ o.jobID = job.jobID ∧
      o.releasedAt = none
  names : ∀ o ∈ db.ownership.rows, o.releasedAt = none →
    ∃ job ∈ db.jobs.rows, job.jobID = o.jobID ∧ job.workspaceRoot = o.workspaceRoot ∧
      job.isActive = true
  increasing : ∀ (world : World) (ids : NewIndexIDs) (request : IndexJobRequest) db' loaded,
    createIndexJob db world.processes ids request world.now = .ok (db', loaded) →
      ∃ o', db'.ownership.find? request.workspaceRoot = some o' ∧ loaded.fence = some o'.fence ∧
        ∀ o, db.ownership.find? request.workspaceRoot = some o →
          o.fence.fencingToken < o'.fence.fencingToken
  superseded : ∀ newer r older, log = newer ++ r :: older →
    (∃ r' ∈ newer, r'.job.workspaceRoot = r.job.workspaceRoot) → ¬r.Holds db
  stale : DistinctTokens log → ∀ r ∈ log, ¬r.Holds db → ∀ fence, r.fence = some fence →
    ∀ world op, op.fence = some fence →
      ((Call.operate op).run host world).exec db =
        (.error (if op.invalidPhase then .invalidIndexJobTransition else .staleIndexJobOwner), db)

theorem Fenced.eq_of_active (h : Fenced db) {job job' : IndexJob} (hjob : job ∈ db.jobs.rows)
    (hjob' : job' ∈ db.jobs.rows) (hactive : job.isActive = true) (hactive' : job'.isActive = true)
    (hroot : job.workspaceRoot = job'.workspaceRoot) : job = job' := by
  have hjob := Table.find?_of_mem hjob
  obtain ⟨o, ho, hjobID, -⟩ := h.reserved _ job hjob hactive
  obtain ⟨o', ho', hjobID', -⟩ := h.reserved _ job' (Table.find?_of_mem hjob') hactive'
  rw [← hroot, ho] at ho'
  cases ho'
  rw [← hjobID, hjobID', Table.find?_of_mem hjob'] at hjob
  exact (Option.some.inj hjob).symm

/-- In every run, whatever the processes do in whatever order, jobs exclude each other. -/
theorem exclusive_of_run (h : Run host log db) : Exclusive host log db := by
  obtain ⟨hfenced, hlogged⟩ := h.invariant
  refine ⟨fun _ hjob _ hjob' ↦ hfenced.eq_of_active hjob hjob', ?_, ?_, ?_, ?_, ?_⟩
  · intro job hjob
    have hjob := Table.find?_of_mem hjob
    constructor
    · intro hactive
      obtain ⟨o, ho, hjobID, hheld⟩ := hfenced.reserved _ job hjob hactive
      exact ⟨o, Table.mem_of_find? ho, Table.key_of_find? ho, hjobID, hheld⟩
    · rintro ⟨o, ho, -, hjobID, hheld⟩
      obtain ⟨job', hjob', -, hactive⟩ := hfenced.known _ o (Table.find?_of_mem ho)
      rw [hjobID, hjob] at hjob'
      cases hjob'
      exact hactive hheld
  · intro o ho hheld
    obtain ⟨job, hjob, hroot, hactive⟩ := hfenced.known _ o (Table.find?_of_mem ho)
    exact ⟨job, Table.mem_of_find? hjob, Table.key_of_find? hjob, hroot, hactive hheld⟩
  · intro world ids request db' loaded hcreate
    obtain ⟨o', hreserves, hfence, hroot, hloaded⟩ := hfenced.createIndexJob_reserves hcreate
    have hroot' := hreserves.workspaceRoot.trans hroot
    refine ⟨o', hroot' ▸ hreserves.ownership.find?, hloaded, ?_⟩
    intro o ho
    rw [hfence, hroot]
    exact db.lt_nextFencingToken ho
  · rintro newer r older hlog ⟨r', hr', hroot⟩
    exact hlogged.not_holds_of_newer hlog hr' hroot
  · intro hdistinct r hr hholds fence hfence world op hop
    have howns := hlogged.not_owns hdistinct hr hfence hholds op.jobID
    simp only [Call.run, exec_transact, op.apply_stale hop howns]

section Sample

def sampleWorld : World := ⟨⟨"2026-01-01T00:00:00Z", 1767225600, 1767225600⟩, fun _ ↦ true⟩

def sampleIDs (n : String) : NewIndexIDs := ⟨n, n, n⟩

def sampleRequest : IndexJobRequest := ⟨"shop", "/work/shop", "full", false, "", false, false⟩

def sampleFence : IndexJobFence := ⟨"idxowner-1", 1⟩

def sampleCall (call : Call) (db : Database) : Database :=
  ((call.run sampleHost sampleWorld).exec db).2

def sampleCreated : Database :=
  ((createIndexJob .empty sampleWorld.processes (sampleIDs "1") sampleRequest
    sampleWorld.now).map Prod.fst).toOption.getD .empty

def sampleRunning : Database :=
  sampleCall (.operate (.running "idxjob-1" 17 "scan" sampleFence)) sampleCreated

theorem sampleRunning_run : ∃ log, Run sampleHost log sampleRunning := by
  have hempty : Run sampleHost [] .empty := .empty
  exact ⟨_, (hempty.create sampleWorld (sampleIDs "1") sampleRequest rfl).call sampleWorld _⟩

theorem sample_run : ∃ first second db, Run sampleHost [second, first] db ∧
    first.fence = some ⟨"idxowner-1", 1⟩ ∧ second.fence = some ⟨"idxowner-2", 2⟩ ∧
    second.job.workspaceRoot = first.job.workspaceRoot := by
  have hempty : Run sampleHost [] .empty := .empty
  have hfirst := hempty.create sampleWorld (sampleIDs "1") sampleRequest rfl
  have hfailed := hfirst.call sampleWorld
    (.operate (.failed "idxjob-1" "stopped" ⟨"idxowner-1", 1⟩))
  exact ⟨_, _, _, hfailed.create sampleWorld (sampleIDs "2") sampleRequest rfl, rfl, rfl, rfl⟩

theorem exclusive_sample : ∃ first second db, Run sampleHost [second, first] db ∧
    first.fence = some ⟨"idxowner-1", 1⟩ ∧ second.fence = some ⟨"idxowner-2", 2⟩ ∧
    Exclusive sampleHost [second, first] db := by
  obtain ⟨first, second, db, hrun, hfirst, hsecond, -⟩ := sample_run
  exact ⟨first, second, db, hrun, hfirst, hsecond, exclusive_of_run hrun⟩

theorem phase_refused_unfenced : ∃ first second db, Run sampleHost [second, first] db ∧
    first.fence = some ⟨"idxowner-1", 1⟩ ∧ second.job.workspaceRoot = first.job.workspaceRoot ∧
    ((Call.operate (.phase "idxjob-1" .running "scan" ⟨"idxowner-1", 1⟩)).run sampleHost
      sampleWorld).exec db = (.error .invalidIndexJobTransition, db) := by
  obtain ⟨first, second, db, hrun, hfirst, -, hroot⟩ := sample_run
  exact ⟨first, second, db, hrun, hfirst, hroot, rfl⟩

end Sample

end MiLsp.Store
