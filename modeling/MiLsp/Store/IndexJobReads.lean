import MiLsp.Library.Session
import MiLsp.Store.IndexJobs

namespace MiLsp.Store

open Library Session

abbrev StoreSession := Session StoreError Database

structure World where
  clock : Clock
  processes : Processes

def World.now (world : World) : String := world.clock.text

variable (world : World) (jobID : String)

def loadIndexJobSnapshot : StoreSession (Option LoadedJob) := do
  let db ← get
  return (db.jobs.find? jobID).map (attachIndexJobOwner db)

/-- A job whose process is gone is marked failed when read. Losing to another writer is no error. -/
def reconcileIndexJobRead (job : IndexJob) : StoreSession (Option LoadedJob) := do
  let db ← get
  let loaded := attachIndexJobOwner db job
  let some fence := loaded.fence | return some loaded
  if !staleIndexJobForRead db world.processes job || fence.ownerToken = "" then return some loaded
  tryCatch
    (transact fun db ↦
      markIndexJobFailed db job.jobID "stale index job process exited" fence world.now)
    fun e ↦ if e = .staleIndexJobOwner then return else throw (.reconcile job.jobID e)
  loadIndexJobSnapshot job.jobID

def getIndexJob : StoreSession (Option LoadedJob) := do
  let db ← get
  let some job := db.jobs.find? jobID | return none
  reconcileIndexJobRead world job

def firstActive : List IndexJob → StoreSession (Option LoadedJob)
  | [] => return none
  | candidate :: rest => do
    match ← reconcileIndexJobRead world candidate with
    | some loaded => if loaded.job.isActive then return some loaded else firstActive rest
    | none => firstActive rest

def activeIndexJob (workspaceRoot : String) : StoreSession (Option LoadedJob) := do
  let db ← get
  let rows := (db.jobs.rows.reverse.filter IndexJob.isActive).take 128
  firstActive world (rows.filter fun job ↦ job.workspaceRoot = workspaceRoot)

variable (db : Database)

def Database.reserved (jobID : String) : Bool :=
  db.ownership.rows.any fun o ↦ o.jobID = jobID && o.releasedAt.isNone

variable (jobID now : String)

def cancelQueuedTx : Except StoreError Database := do
  let db ← db.updateJob jobID
    (fun job ↦ !job.requestedCancel && job.status = .queued && db.reserved jobID)
    (fun job ↦ { job with
      status := .canceled
      phase := "canceled"
      currentStage := "canceled"
      currentPath := ""
      requestedCancel := true
      finishedAt := some now
      updatedAt := now }) (IndexJob.jobID_canceled now)
  let some o := db.ownershipByJob jobID | throw .noRows
  if o.releasedAt.isSome then throw .staleIndexJobOwner
  let db ← db.endGeneration jobID [.building] .canceled "canceled"
  releaseIndexJobOwnershipTx db jobID o.fence now

def requestCancelTx : Except StoreError Database :=
  db.updateJob jobID
    (fun job ↦ !job.requestedCancel && job.status = .running && db.reserved jobID)
    (fun job ↦ { job with
      requestedCancel := true
      status := .cancelRequested
      phase := "cancel_requested"
      currentStage := "cancel_requested"
      updatedAt := now }) fun _ ↦ rfl

/-- It changes nothing when the job is neither queued nor running. -/
def cancelTx (db : Database) : Except StoreError Database :=
  if (db.jobs.find? jobID).any fun job ↦
      !job.requestedCancel && job.status = .queued && db.reserved jobID then
    cancelQueuedTx db jobID now
  else
    match requestCancelTx db jobID now with
    | .ok db => .ok db
    | .error _ => .ok db

def requireIndexJob : StoreSession LoadedJob := do
  match ← getIndexJob world jobID with
  | some loaded => return loaded
  | none => throw .noRows

def requestIndexJobCancelByID : StoreSession IndexJob := do
  let loaded ← requireIndexJob world jobID
  if !loaded.job.isActive then return loaded.job
  transact (cancelTx jobID world.now)
  return (← requireIndexJob world jobID).job

structure Termination where
  /-- the signal failed and the process is still there -/
  refused : Bool
  exited : Bool
  /-- removing the lock file the process has left behind -/
  unlock : Except StoreError Unit

/-- A process that does not exit in time leaves the job as it is, apart from its phase. -/
def terminatingTx (fence : IndexJobFence) (db : Database) : Except StoreError Database :=
  db.updateJob jobID
    (fun job ↦ job.status = .cancelRequested && job.requestedCancel && db.owns jobID fence)
    (fun job ↦ { job with
      phase := "terminating"
      currentStage := "terminating"
      updatedAt := now }) fun _ ↦ rfl

def cancelIndexJob (termination : Termination) (jobID : String) (force : Bool) :
    StoreSession IndexJob := do
  if !force then return ← requestIndexJobCancelByID world jobID
  let loaded ← requireIndexJob world jobID
  if !loaded.job.isActive || loaded.job.status = .publishing then return loaded.job
  let fence := loaded.fence.getD ⟨"", 0⟩
  let requested ← requestIndexJobCancelByID world jobID
  if !isIndexJobActive requested.status then return requested
  if loaded.job.pid > 0 && world.processes loaded.job.pid then
    if termination.refused then throw (.terminate loaded.job.pid)
    if !termination.exited then
      transact (terminatingTx jobID world.now fence)
      return (← requireIndexJob world jobID).job
  transact fun db ↦ markIndexJobCanceled db jobID fence world.now
  if loaded.job.pid > 0 then liftExcept termination.unlock
  return (← requireIndexJob world jobID).job

end MiLsp.Store
