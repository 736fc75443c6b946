import MiLsp.Store.IndexJobs

namespace MiLsp.Store

open MiLsp.Graph Library Attempt Strings

/-- A bundle to stage, a generation to activate, and whether the graph is current afterwards. -/
structure GraphPublication where
  generationID : Option GraphDigest
  expectedPrior : Option GraphDigest
  publishedAt : Time
  graphCurrent : Bool
  graphBundle : Option GraphBundle
  generationSkippedReason : String
  catalogGeneration : String

structure Counts where
  files : ℤ
  symbols : ℤ
  docs : ℤ

structure DocScan where
  docs : List DocRecord
  facts : DocFacts
  memory : String
  versioned : Bool

structure CatalogScan where
  project : ProjectFile
  files : List FileRecord
  symbols : List SymbolRecord

structure JobCall where
  jobID : String
  generationID : String
  fence : IndexJobFence

def docIdentityExtractionVersion : String := "doc-identity-v1"

section Bodies

variable (db : Database)

def replaceCatalog (scan : CatalogScan) : Except StoreError Database :=
  ((replaceCatalogTx scan.project scan.files scan.symbols).mapError .catalog).map
    fun catalog ↦ { db with catalog }

def replaceDocs (scan : DocScan) : Except StoreError Database :=
  ((replaceDocsWithSourcesTx db.docs scan.docs scan.facts).mapError .docs).map fun docs ↦
    { db with
      docs
      info := { db.info with
        memorySnapshot := some scan.memory
        docIdentitySnapshotVersion :=
          if scan.versioned then some docIdentityExtractionVersion else none } }

def applyFileChanges (clock : Clock) (changes : List IncrementalFileChange) : Database :=
  { db with catalog := applyIncrementalFileChangesTx db.catalog clock.unix changes }

variable (changes : List IncrementalDocChange)

def applyDocChanges : Except StoreError (Database × Bool) :=
  ((applyIncrementalDocChangesTx db.docs changes).mapError .docs).map fun (docs, actual) ↦
    ({ db with
      docs
      info := { db.info with
        docIdentitySnapshotVersion :=
          if actual then none else db.info.docIdentitySnapshotVersion } }, actual)

def applyOptionalDocChanges : Except StoreError (Database × Bool) :=
  if changes.isEmpty then .ok (db, false) else applyDocChanges db changes

def setActiveDocsGenerationTx (generationID : String) : Except StoreError Database :=
  if trimSpace generationID = "" then .error .generationRequired
  else
    .ok { db with
      info := { db.info with
        activeDocsGeneration := some generationID
        activeMemoryGeneration := some generationID } }

end Bodies

def WorkspaceMeta.published (m : WorkspaceMeta) (generationID : String) (mode : IndexMode)
    (counts : Counts) (now : String) : WorkspaceMeta :=
  { m with
    lastIndexGeneration := some generationID
    activeGeneration := some ⟨mode, now, counts.files, counts.symbols, counts.docs⟩
    activeCatalogGeneration :=
      if mode = .docs then m.activeCatalogGeneration else some generationID
    activeDocsGeneration :=
      if mode = .full || mode = .docs then some generationID else m.activeDocsGeneration
    activeMemoryGeneration :=
      if mode = .full || mode = .docs then some generationID else m.activeMemoryGeneration }

def IndexGeneration.published (g : IndexGeneration) (counts : Counts) (now : String) :
    IndexGeneration :=
  { g with
    status := .published
    files := counts.files
    symbols := counts.symbols
    docs := counts.docs
    publishedAt := some now
    error := none }

def publishGenerationForJobTx (db : Database) (clock : Clock) (call : JobCall) (mode : IndexMode)
    (counts : Counts) : Except StoreError Database :=
  if call.generationID = "" then .ok db
  else
    (orElse .staleIndexJobOwner (db.generations.updateOne
      (fun g ↦ g.generationID = call.generationID && g.jobID = call.jobID &&
        g.status ∈ [.building, .published])
      (fun g ↦ g.published counts clock.text) fun _ ↦ rfl)).map fun generations ↦
        { db with
          generations
          info := db.info.published call.generationID mode counts clock.text }

def skipGenerationTx (db : Database) (call : JobCall) (reason : String) :
    Except StoreError Database :=
  (orElse .staleIndexJobOwner (db.generations.updateOne
    (fun g ↦ g.generationID = call.generationID && g.jobID = call.jobID && g.status = .building)
    (fun g ↦ { g with status := .skipped, error := some reason }) fun _ ↦ rfl)).map
      fun generations ↦ { db with generations }

variable (host : GraphHost) (clock : Clock)

def stagePublication (store : GraphStore) : Option GraphBundle → Except StoreError GraphStore
  | none => .ok store
  | some b => (stageGraphGenerationConn host store b).mapError .graph

def activatePublication (store : GraphStore) (graph : GraphPublication) :
    Except StoreError GraphStore :=
  match graph.generationID with
  | none => .ok store
  | some id =>
    (activateGraphGenerationTx host store id graph.expectedPrior
      (if graph.publishedAt = 0 then clock.instant else graph.publishedAt)).mapError .graph

def publishGraphTx (db : Database) (graph : GraphPublication) : Except StoreError Database := do
  let staged ← stagePublication host db.graph graph.graphBundle
  let activated ← activatePublication host clock staged graph
  return { db with graph := activated }

def boundCatalogGeneration (db : Database) (graph : GraphPublication) (generationID : String) :
    String :=
  if graph.catalogGeneration ≠ "" then graph.catalogGeneration
  else
    let active := db.info.activeCatalogGeneration.getD ""
    if active ≠ "" then active else generationID

/-- A graph not known to be current is stale, unless none was published or the mode leaves the
catalog. -/
def ownedRuntimeState (db : Database) (generationID : String) (mode : IndexMode) :
    Option GraphPublication → Database
  | some graph =>
    if graph.graphCurrent then
      setGraphRuntimeStateTx db .fresh (boundCatalogGeneration db graph generationID)
    else if graph.generationSkippedReason = "" && (mode = .full || mode = .incremental) then
      setGraphRuntimeStateTx db .stale ""
    else db
  | none =>
    if mode = .full || mode = .incremental then setGraphRuntimeStateTx db .stale "" else db

def ownedGenerationTx (db : Database) (call : JobCall) (mode : IndexMode) (counts : Counts)
    (graph : Option GraphPublication) : Except StoreError Database :=
  match graph with
  | some graph =>
    if graph.generationSkippedReason ≠ "" then
      skipGenerationTx db call graph.generationSkippedReason
    else publishGenerationForJobTx db clock call mode counts
  | none => publishGenerationForJobTx db clock call mode counts

def beginPublicationTx (db : Database) (call : JobCall) : Except StoreError Database :=
  markIndexJob db call.jobID call.fence IndexJob.publishable (fun job ↦ { job with
    status := .publishing
    phase := "publishing"
    currentStage := "publishing"
    publicationStarted := true
    updatedAt := clock.text }) fun _ ↦ rfl

/-- A publication for a job. The body may still change what is published of the graph. -/
def publishOwned (db : Database) (call : JobCall) (mode : IndexMode) (counts : Counts)
    (body : Database → Except StoreError (Database × Option GraphPublication)) :
    Except StoreError Database := do
  resolveIndexJobFence call.fence
  if call.jobID = "" then throw .staleIndexJobOwner
  let db ← beginPublicationTx clock db call
  let (db, graph) ← body db
  let db ← ownedGenerationTx clock db call mode counts graph
  let db ← (graph.map (publishGraphTx host clock db)).getD (.ok db)
  let db := ownedRuntimeState db call.generationID mode graph
  completeIndexJobTx db call.jobID counts.files counts.symbols counts.docs call.fence true
    clock.text

def skippedPublication (reason : String) : GraphPublication :=
  ⟨none, none, 0, false, none, reason, ""⟩

end MiLsp.Store
