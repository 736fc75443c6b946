import MiLsp.Graph.Activation
import MiLsp.Store.Catalog
import MiLsp.Store.Docs

namespace MiLsp.Store

open MiLsp.Graph Library

inductive IndexMode
  | full
  | docs
  | catalog
  | incremental
deriving DecidableEq

inductive IndexJobStatus
  | queued
  | running
  | publishing
  | cancelRequested
  | canceled
  | succeeded
  | failed
deriving DecidableEq

def isIndexJobActive : IndexJobStatus → Bool
  | .queued | .running | .publishing | .cancelRequested => true
  | .canceled | .succeeded | .failed => false

structure IndexJob where
  jobID : String
  generationID : String
  workspaceName : String
  workspaceRoot : String
  mode : IndexMode
  entrypointSelector : String
  goOffline : Bool
  noEmbeddings : Bool
  embeddingsOutcome : String
  clean : Bool
  status : IndexJobStatus
  phase : String
  currentStage : String
  currentPath : String
  filesTotal : ℤ
  pid : ℤ
  requestedCancel : Bool
  publicationStarted : Bool
  error : Option String
  files : ℤ
  symbols : ℤ
  docs : ℤ
  createdAt : String
  startedAt : Option String
  finishedAt : Option String
  updatedAt : String
deriving DecidableEq

def IndexJob.isActive (job : IndexJob) : Bool := isIndexJobActive job.status

structure IndexJobFence where
  ownerToken : String
  fencingToken : ℤ
deriving DecidableEq

structure IndexJobOwnership where
  workspaceRoot : String
  jobID : String
  fence : IndexJobFence
  pid : ℤ
  acquiredAt : String
  releasedAt : Option String

inductive IndexGenerationStatus
  | building
  | staged
  | published
  | skipped
  | canceled
  | failed
deriving DecidableEq

structure IndexGeneration where
  generationID : String
  jobID : String
  workspaceName : String
  workspaceRoot : String
  mode : IndexMode
  status : IndexGenerationStatus
  files : ℤ
  symbols : ℤ
  docs : ℤ
  createdAt : String
  publishedAt : Option String
  error : Option String

inductive GraphRuntimeState
  | fresh
  | stale

structure ActiveGeneration where
  mode : IndexMode
  publishedAt : String
  files : ℤ
  symbols : ℤ
  docs : ℤ

structure WorkspaceMeta where
  activeCatalogGeneration : Option String
  activeDocsGeneration : Option String
  activeMemoryGeneration : Option String
  lastIndexGeneration : Option String
  activeGeneration : Option ActiveGeneration
  graphRuntimeState : Option GraphRuntimeState
  graphCatalogGeneration : Option String
  docIdentitySnapshotVersion : Option String
  memorySnapshot : Option String

def WorkspaceMeta.empty : WorkspaceMeta :=
  ⟨none, none, none, none, none, none, none, none, none⟩

structure Database where
  jobs : Table IndexJob.jobID
  ownership : Table IndexJobOwnership.workspaceRoot
  generations : Table IndexGeneration.generationID
  info : WorkspaceMeta
  catalog : Catalog
  docs : DocTables
  graph : GraphStore

def Database.empty : Database :=
  ⟨.empty, .empty, .empty, .empty, .empty, .empty, .empty⟩

structure ActiveJob where
  jobID : String
  workspaceRoot : String
  status : IndexJobStatus
  goOffline : Bool
  noEmbeddings : Bool
deriving DecidableEq

def IndexJob.activeJob (job : IndexJob) : ActiveJob :=
  ⟨job.jobID, job.workspaceRoot, job.status, job.goOffline, job.noEmbeddings⟩

inductive StoreError
  | staleIndexJobOwner
  | invalidIndexJobTransition
  | activeIndexJob (job : ActiveJob)
  | indexJobPolicyMismatch (job : ActiveJob) (requestedGoOffline requestedNoEmbeddings : Bool)
  | invalidIndexMode (mode : String)
  | noRows
  | constraint (table : String)
  | generationRequired
  | terminate (pid : ℤ)
  | reconcile (jobID : String) (e : StoreError)
  | catalog (e : CatalogError)
  | docs (e : DocError)
  | graph (e : GraphError)
deriving DecidableEq

structure Clock where
  text : String
  unix : ℤ
  instant : Time

end MiLsp.Store
