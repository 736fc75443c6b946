import MiLsp.Store.Database

namespace MiLsp.Store

open Library Attempt Strings

structure LoadedJob where
  job : IndexJob
  fence : Option IndexJobFence

structure NewIndexIDs where
  job : String
  generation : String
  owner : String

structure IndexJobRequest where
  workspaceName : String
  workspaceRoot : String
  mode : String
  clean : Bool
  entrypointSelector : String
  goOffline : Bool
  noEmbeddings : Bool

structure IndexJobProgress where
  currentStage : String
  currentPath : String
  files : ℤ
  symbols : ℤ
  docs : ℤ
  filesTotal : ℤ

def newIndexID (kind random : String) : String := kind ++ "-" ++ random

abbrev Processes := ℤ → Bool

def normalizeIndexMode (mode : String) : Except StoreError IndexMode :=
  match String.ofList ((trimSpace mode).toList.map Char.toLower) with
  | "" | "full" => .ok .full
  | "doc" | "docs-only" | "docs" => .ok .docs
  | "symbols" | "code" | "catalog" => .ok .catalog
  | _ => .error (.invalidIndexMode mode)

def indexJobEmbeddingsOutcome (mode : IndexMode) (noEmbeddings : Bool) : String :=
  if mode = .catalog then "not_applicable"
  else if noEmbeddings then "skipped_by_operation"
  else ""

def newIndexJob (ids : NewIndexIDs) (request : IndexJobRequest) (mode : IndexMode) (now : String) :
    IndexJob where
  jobID := newIndexID "idxjob" ids.job
  generationID := newIndexID "idxgen" ids.generation
  workspaceName := request.workspaceName
  workspaceRoot := request.workspaceRoot
  mode
  entrypointSelector := trimSpace request.entrypointSelector
  goOffline := request.goOffline
  noEmbeddings := request.noEmbeddings
  embeddingsOutcome := indexJobEmbeddingsOutcome mode request.noEmbeddings
  clean := request.clean
  status := .queued
  phase := "queued"
  currentStage := ""
  currentPath := ""
  filesTotal := 0
  pid := 0
  requestedCancel := false
  publicationStarted := false
  error := none
  files := 0
  symbols := 0
  docs := 0
  createdAt := now
  startedAt := none
  finishedAt := none
  updatedAt := now

def IndexJob.generation (job : IndexJob) : IndexGeneration where
  generationID := job.generationID
  jobID := job.jobID
  workspaceName := job.workspaceName
  workspaceRoot := job.workspaceRoot
  mode := job.mode
  status := .building
  files := 0
  symbols := 0
  docs := 0
  createdAt := job.createdAt
  publishedAt := none
  error := none

def resolveIndexJobFence (fence : IndexJobFence) : Except StoreError Unit :=
  if fence.ownerToken = "" || fence.fencingToken ≤ 0 then .error .staleIndexJobOwner else .ok ()

namespace Database

variable (db : Database) (jobID : String)

def owns (fence : IndexJobFence) : Bool :=
  db.ownership.rows.any fun o ↦ o.jobID = jobID && o.fence = fence && o.releasedAt.isNone

def updateJob (guard : IndexJob → Bool) (set : IndexJob → IndexJob)
    (hset : ∀ job, (set job).jobID = job.jobID) : Except StoreError Database :=
  (orElse .staleIndexJobOwner (db.jobs.updateOne (fun job ↦ job.jobID = jobID && guard job) set
    hset)).map fun jobs ↦ { db with jobs }

def updateOwnership (fence : IndexJobFence) (set : IndexJobOwnership → IndexJobOwnership)
    (hset : ∀ o, (set o).workspaceRoot = o.workspaceRoot) : Except StoreError Database :=
  (orElse .staleIndexJobOwner (db.ownership.updateOne
    (fun o ↦ o.jobID = jobID && o.fence = fence && o.releasedAt.isNone) set hset)).map
      fun ownership ↦ { db with ownership }

def endGeneration (from_ : List IndexGenerationStatus)
    (status : IndexGenerationStatus) (error : String) : Except StoreError Database :=
  (orElse .staleIndexJobOwner (db.generations.updateOne
    (fun g ↦ g.jobID = jobID && g.status ∈ from_) (fun g ↦ { g with status, error := some error })
      fun _ ↦ rfl)).map fun generations ↦ { db with generations }

def ownershipByJob : Option IndexJobOwnership :=
  db.ownership.rows.find? fun o ↦ o.jobID = jobID

end Database

variable (db : Database) (jobID : String)

def releaseIndexJobOwnershipTx (fence : IndexJobFence)
    (now : String) : Except StoreError Database :=
  db.updateOwnership jobID fence (fun o ↦ { o with releasedAt := some now }) fun _ ↦ rfl

def setGraphRuntimeStateTx (state : GraphRuntimeState) (catalogGeneration : String) : Database :=
  { db with info := { db.info with
      graphRuntimeState := some state
      graphCatalogGeneration := if catalogGeneration = "" then none else some catalogGeneration } }

def currentIndexJobOwner : Option IndexJobFence :=
  (db.ownership.rows.find? fun o ↦ o.jobID = jobID && o.releasedAt.isNone).map (·.fence)

variable (job : IndexJob)

def attachIndexJobOwner : LoadedJob :=
  ⟨job, currentIndexJobOwner db job.jobID⟩

def loadActiveIndexJobTx (workspaceRoot excludeJobID : String) : Option IndexJob :=
  db.jobs.rows.reverse.find? fun job ↦
    job.workspaceRoot = workspaceRoot && job.jobID ≠ excludeJobID && job.isActive

variable (processes : Processes)

/-- An active job without a reservation is given up when its process is gone. -/
def retireLegacyJob (job : IndexJob) (now : String) : Except StoreError Database :=
  match loadActiveIndexJobTx db job.workspaceRoot job.jobID with
  | none => .ok db
  | some legacy =>
    let owned := (db.ownershipByJob legacy.jobID).any (·.releasedAt.isNone)
    if owned || legacy.pid > 0 && processes legacy.pid then
      .error (.activeIndexJob legacy.activeJob)
    else
      db.updateJob legacy.jobID IndexJob.isActive (fun job ↦ { job with
        status := .failed
        phase := "failed"
        currentStage := "failed"
        error := some "stale index job process exited"
        finishedAt := some now
        updatedAt := now }) fun _ ↦ rfl

/-- An unreleased reservation is released when its job is over or its process is gone. -/
def releaseStaleReservation (workspaceRoot now : String) : Except StoreError Database :=
  match db.ownership.find? workspaceRoot with
  | none => .ok db
  | some o =>
    if o.releasedAt.isSome then .ok db
    else
      match db.jobs.find? o.jobID with
      | none => .ok db
      | some active =>
        if active.isActive && (o.pid ≤ 0 || processes o.pid) then
          .error (.activeIndexJob active.activeJob)
        else
          .ok { db with
            ownership := db.ownership.update (fun row ↦ row.workspaceRoot = workspaceRoot &&
                row.jobID = o.jobID && row.fence = o.fence && row.releasedAt.isNone)
              (fun row ↦ { row with releasedAt := some now }) fun _ ↦ rfl }

def takeReservation (fence : IndexJobFence) : Except StoreError Database :=
  match db.ownership.find? job.workspaceRoot with
  | some ⟨_, jobID, _, _, _, none⟩ =>
    .error (.activeIndexJob (((db.jobs.find? jobID).map IndexJob.activeJob).getD
      ⟨jobID, job.workspaceRoot, .running, false, false⟩))
  | _ =>
    .ok { db with
      ownership := db.ownership.put
        { workspaceRoot := job.workspaceRoot
          jobID := job.jobID
          fence
          pid := 0
          acquiredAt := job.createdAt
          releasedAt := none } }

def reserveIndexJobTx (job : IndexJob) (ownerToken now : String) : Except StoreError Database := do
  let db ← retireLegacyJob db processes job now
  let fencingToken := ((db.ownership.find? job.workspaceRoot).map (·.fence.fencingToken + 1)).getD 1
  let db ← releaseStaleReservation db processes job.workspaceRoot now
  takeReservation db job ⟨ownerToken, fencingToken⟩

/-- A refusal is told apart when the active job runs under other policies. -/
def policyError : StoreError → StoreError
  | .activeIndexJob active =>
    if active.goOffline ≠ job.goOffline || active.noEmbeddings ≠ job.noEmbeddings then
      .indexJobPolicyMismatch active job.goOffline job.noEmbeddings
    else .activeIndexJob active
  | e => e

def createIndexJob (ids : NewIndexIDs)
    (request : IndexJobRequest) (now : String) : Except StoreError (Database × LoadedJob) := do
  let mode ← normalizeIndexMode request.mode
  let job := newIndexJob ids request mode now
  let jobs ← orElse (.constraint "index_jobs") (db.jobs.insert? job)
  let ownerToken := newIndexID "idxowner" ids.owner
  let db ← (reserveIndexJobTx { db with jobs } processes job ownerToken now).mapError
    (policyError job)
  let generations ← orElse (.constraint "index_generations")
    (db.generations.insert? job.generation)
  let db := { db with generations }
  return (db, attachIndexJobOwner db job)

def staleIndexJobForRead (job : IndexJob) : Bool :=
  if !job.isActive then false
  else
    match db.ownershipByJob job.jobID with
    | some ⟨_, _, fence, pid, _, none⟩ =>
      if fence.ownerToken ≠ "" && fence.fencingToken > 0 then pid > 0 && !processes pid
      else job.pid ≤ 0 || !processes job.pid
    | _ => job.pid ≤ 0 || !processes job.pid

def markIndexJob (fence : IndexJobFence) (guard : IndexJob → Bool) (set : IndexJob → IndexJob)
    (hset : ∀ job, (set job).jobID = job.jobID) : Except StoreError Database := do
  resolveIndexJobFence fence
  db.updateJob jobID (fun job ↦ guard job && db.owns jobID fence) set hset

def markIndexJobRunning (pid : ℤ) (phase : String)
    (fence : IndexJobFence) (now : String) : Except StoreError Database := do
  let db ← markIndexJob db jobID fence
    (fun job ↦ !job.requestedCancel && job.status ∈ [.queued, .running])
    (fun job ↦ { job with
      status := .running
      phase
      currentStage := phase
      currentPath := ""
      filesTotal := 0
      pid
      startedAt := some (job.startedAt.getD now)
      updatedAt := now }) fun _ ↦ rfl
  db.updateOwnership jobID fence (fun o ↦ { o with pid }) fun _ ↦ rfl

def IndexJob.publishable : Bool :=
  !job.requestedCancel && (job.status = .running && !job.publicationStarted ||
    job.status = .publishing && job.publicationStarted)

def markIndexJobPhase (status : IndexJobStatus) (phase : String)
    (fence : IndexJobFence) (now : String) : Except StoreError Database :=
  if status ≠ .publishing then .error .invalidIndexJobTransition
  else
    markIndexJob db jobID fence IndexJob.publishable (fun job ↦ { job with
      status := .publishing
      phase
      currentStage := phase
      currentPath := ""
      publicationStarted := true
      updatedAt := now }) fun _ ↦ rfl

def markIndexJobProgress (progress : IndexJobProgress)
    (fence : IndexJobFence) (now : String) : Except StoreError Database :=
  markIndexJob db jobID fence
    (fun job ↦ !job.requestedCancel && job.status ∈ [.running, .publishing])
    (fun job ↦ { job with
      status := if job.status = .publishing then .publishing else .running
      currentStage := progress.currentStage
      currentPath := progress.currentPath
      files := progress.files
      symbols := progress.symbols
      docs := progress.docs
      filesTotal := progress.filesTotal
      updatedAt := now }) fun _ ↦ rfl

def IndexJob.completable (publication : Bool) (job : IndexJob) : Bool :=
  !job.requestedCancel &&
    (if publication then job.status = .publishing && job.publicationStarted
      else job.status = .running && !job.publicationStarted)

def IndexJob.completed (files symbols docs : ℤ) (now : String) (job : IndexJob) : IndexJob :=
  { job with
    status := .succeeded
    phase := "done"
    currentStage := "done"
    currentPath := ""
    files
    symbols
    docs
    filesTotal := if job.filesTotal > files then job.filesTotal else files
    error := none
    finishedAt := some now
    updatedAt := now }

def completeIndexJobTx (files symbols docs : ℤ)
    (fence : IndexJobFence) (publication : Bool) (now : String) : Except StoreError Database := do
  let db ← db.updateJob jobID (fun job ↦ job.completable publication && db.owns jobID fence)
    (IndexJob.completed files symbols docs now) fun _ ↦ rfl
  releaseIndexJobOwnershipTx db jobID fence now

def markIndexJobSucceeded (files symbols docs : ℤ)
    (fence : IndexJobFence) (now : String) : Except StoreError Database := do
  resolveIndexJobFence fence
  completeIndexJobTx db jobID files symbols docs fence false now

def markIndexGenerationSkipped (jobID message : String) (fence : IndexJobFence) :
    Except StoreError Database := do
  resolveIndexJobFence fence
  if !db.owns jobID fence then throw .staleIndexJobOwner
  db.endGeneration jobID [.building] .skipped message

def markIndexJobFailed (jobID message : String) (fence : IndexJobFence)
    (now : String) : Except StoreError Database := do
  let db ← markIndexJob db jobID fence
    (fun job ↦ !job.requestedCancel && !job.publicationStarted &&
      job.status ∈ [.queued, .running, .publishing])
    (fun job ↦ { job with
      status := .failed
      phase := "failed"
      currentStage := "failed"
      error := some message
      finishedAt := some now
      updatedAt := now }) fun _ ↦ rfl
  let db ← db.endGeneration jobID [.building, .staged] .failed message
  let some job := db.jobs.find? jobID | throw .noRows
  let db := if job.mode = .docs then db else setGraphRuntimeStateTx db .stale ""
  releaseIndexJobOwnershipTx db jobID fence now

theorem IndexJob.jobID_canceled (now : String) (job : IndexJob) :
    { job with
      status := .canceled
      phase := "canceled"
      currentStage := "canceled"
      currentPath := ""
      requestedCancel := true
      finishedAt := some now
      updatedAt := now }.jobID = job.jobID :=
  rfl

def markIndexJobCanceled (fence : IndexJobFence) (now : String) : Except StoreError Database := do
  let db ← markIndexJob db jobID fence
    (fun job ↦ job.requestedCancel && !job.publicationStarted &&
      job.status ∈ [.queued, .running, .cancelRequested])
    (fun job ↦ { job with
      status := .canceled
      phase := "canceled"
      currentStage := "canceled"
      currentPath := ""
      requestedCancel := true
      finishedAt := some now
      updatedAt := now }) (IndexJob.jobID_canceled now)
  let db ← db.endGeneration jobID [.building] .canceled "canceled"
  releaseIndexJobOwnershipTx db jobID fence now

end MiLsp.Store
