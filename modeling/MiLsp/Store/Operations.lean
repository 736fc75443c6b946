import MiLsp.Store.IndexJobReads
import MiLsp.Store.Publish

namespace MiLsp.Store

open MiLsp.Graph Library.Session

inductive PublicationBody
  | index (catalog : CatalogScan) (docs : DocScan) (graph : Option GraphPublication)
  | docs (docs : DocScan) (graph : Option GraphPublication)
  | catalog (catalog : CatalogScan)
  | files (changes : List IncrementalFileChange) (graph : Option GraphPublication)
  | graphOnly (graph : GraphPublication)
  | docChanges (changes : List IncrementalDocChange)
  | mixed (generationID : String) (fileChanges : List IncrementalFileChange)
      (docChanges : List IncrementalDocChange)

def PublicationBody.eval (clock : Clock) (db : Database) :
    PublicationBody → Except StoreError (Database × Option GraphPublication)
  | .index scan docScan graph => do
    let db ← replaceCatalog db scan
    return (← replaceDocs db docScan, graph)
  | .docs docScan graph => do return (← replaceDocs db docScan, graph)
  | .catalog scan => do return (← replaceCatalog db scan, none)
  | .files changes graph => .ok (applyFileChanges db clock changes, graph)
  | .graphOnly graph => .ok (db, some graph)
  | .docChanges changes => do
    let (db, actual) ← applyDocChanges db changes
    if !actual then return (db, some (skippedPublication "no document changes"))
    return (setGraphRuntimeStateTx db .stale "", some (skippedPublication ""))
  | .mixed generationID fileChanges changes => do
    let (db, actualDocs) ←
      applyOptionalDocChanges (applyFileChanges db clock fileChanges) changes
    if actualDocs then return (← setActiveDocsGenerationTx db generationID, none)
    return (db, none)

inductive Operation
  | running (jobID : String) (pid : ℤ) (phase : String) (fence : IndexJobFence)
  | phase (jobID : String) (status : IndexJobStatus) (phase : String) (fence : IndexJobFence)
  | progress (jobID : String) (progress : IndexJobProgress) (fence : IndexJobFence)
  | succeeded (jobID : String) (counts : Counts) (fence : IndexJobFence)
  | skipped (jobID message : String) (fence : IndexJobFence)
  | failed (jobID message : String) (fence : IndexJobFence)
  | canceled (jobID : String) (fence : IndexJobFence)
  | publish (call : JobCall) (mode : IndexMode) (counts : Counts) (body : PublicationBody)
  | requestCancel (jobID : String)
  | terminating (jobID : String) (fence : IndexJobFence)

namespace Operation

def apply (host : GraphHost) (world : World) (db : Database) :
    Operation → Except StoreError Database
  | running jobID pid name fence => markIndexJobRunning db jobID pid name fence world.now
  | phase jobID status name fence => markIndexJobPhase db jobID status name fence world.now
  | progress jobID made fence => markIndexJobProgress db jobID made fence world.now
  | succeeded jobID counts fence =>
    markIndexJobSucceeded db jobID counts.files counts.symbols counts.docs fence world.now
  | skipped jobID message fence => markIndexGenerationSkipped db jobID message fence
  | failed jobID message fence => markIndexJobFailed db jobID message fence world.now
  | canceled jobID fence => markIndexJobCanceled db jobID fence world.now
  | publish call mode counts body =>
    publishOwned host world.clock db call mode counts fun db ↦ body.eval world.clock db
  | requestCancel jobID => cancelTx jobID world.now db
  | terminating jobID fence => terminatingTx jobID world.now fence db

def fence : Operation → Option IndexJobFence
  | running _ _ _ fence | phase _ _ _ fence | progress _ _ fence | succeeded _ _ fence
  | skipped _ _ fence | failed _ _ fence | canceled _ fence | terminating _ fence => some fence
  | publish call _ _ _ => some call.fence
  | requestCancel _ => none

def jobID : Operation → String
  | running jobID _ _ _ | phase jobID _ _ _ | progress jobID _ _ | succeeded jobID _ _
  | skipped jobID _ _ | failed jobID _ _ | canceled jobID _ | terminating jobID _
  | requestCancel jobID => jobID
  | publish call _ _ _ => call.jobID

def invalidPhase : Operation → Bool
  | phase _ status _ _ => status ≠ .publishing
  | _ => false

def publishes : Operation → Bool
  | publish .. => true
  | _ => false

end Operation

inductive Call
  | operate (op : Operation)
  | get (jobID : String)
  | active (workspaceRoot : String)
  | requestCancel (jobID : String)
  | cancel (termination : Termination) (jobID : String) (force : Bool)

def Call.run (host : GraphHost) (world : World) : Call → StoreSession Unit
  | operate op => transact fun db ↦ op.apply host world db
  | get jobID => do let _ ← getIndexJob world jobID
  | active workspaceRoot => do let _ ← activeIndexJob world workspaceRoot
  | requestCancel jobID => do let _ ← requestIndexJobCancelByID world jobID
  | cancel termination jobID force => do let _ ← cancelIndexJob world termination jobID force

end MiLsp.Store
