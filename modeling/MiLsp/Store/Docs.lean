import MiLsp.Library.Attempt
import MiLsp.Library.Strings
import MiLsp.Library.Table

namespace MiLsp.Store

open Library Attempt Strings

inductive DocTable
  | bindingSources
  | bindingSourceDocuments
  | artifactBindings
  | sourceRecords
  | sourceBlocks
  | mentions
  | edges
  | records
  | artifactStates
deriving DecidableEq

def incrementalDocOwnerTables : List DocTable :=
  [.bindingSources, .bindingSourceDocuments, .artifactBindings, .sourceRecords, .sourceBlocks,
    .mentions, .edges, .records, .artifactStates]

/-- `key` is the unique key besides the owner; `payload` stands for the columns that are only
stored. -/
structure DocRow where
  table : DocTable
  owner : String
  key : List String
  docID : String
  lifecycle : String
  payload : List String
deriving DecidableEq

def DocRow.id (r : DocRow) : DocTable × String × List String := (r.table, r.owner, r.key)

abbrev DocTables := Table DocRow.id

inductive DocError
  | constraint (table : DocTable)
  | noChanges
  | emptyPath
  | notNormalized (path : String)
  | duplicate (path : String)
  | notRelative (path : String)
  | noDocument (path : String)
  | documentPath (docPath path : String)
  | noState (path : String)
  | statePath (statePath path : String)
  | noProof (path : String)
  | unknownAction (action path : String)
  | owner (owner path : String)
  | retiredOwner (path : String)
  | retiredDocID (docID : String)
  | sourceCollection (path : String)
  | sourceDeclaration (path : String)
  | unexplainedShrink
deriving DecidableEq

structure DocBindingSource where
  docPath : String
  docID : String
  bindingID : String
  bindingLifecycle : String
  documentLifecycle : String
  provenance : String
  payload : String

structure DocBindingSourceCollection where
  version : String
  availability : String
  documentLifecycle : String
  declarations : List DocBindingSource
  truncated : Bool

structure DocRecord where
  bindingSources : Option DocBindingSourceCollection
  path : String
  docID : String
  payload : String

structure DocEdge where
  fromPath : String
  toPath : String
  toDocID : String
  kind : String
  label : String

structure DocMention where
  docPath : String
  mentionType : String
  mentionValue : String
  sourceBlock : String

structure DocSourceBlock where
  docPath : String
  blockID : String
  payload : String

structure DocSourceRecord where
  docPath : String
  blockID : String
  recordID : String
  payload : String

structure DocArtifactBinding where
  docPath : String
  blockID : String
  ordinal : ℤ
  docLifecycle : String
  payload : String

structure DocArtifactState where
  path : String
  contentSHA256 : String
  lifecycle : String
  payload : String

def docBindingSourceVersion : String := "MILSP-DBS/v1"

def docBindingSourceAvailable : String := "available"

def docLifecycleActive : String := "active"

def docLifecycleDeprecated : String := "deprecated"

def docLifecycleRetired : String := "retired"

def DocRecord.row (x : DocRecord) : DocRow := ⟨.records, x.path, [], x.docID, "", [x.payload]⟩

def DocEdge.row (x : DocEdge) : DocRow :=
  ⟨.edges, x.fromPath, [x.toPath, x.toDocID, x.kind, x.label], "", "", []⟩

def DocMention.row (x : DocMention) : DocRow :=
  ⟨.mentions, x.docPath, [x.mentionType, x.mentionValue], "", "", [x.sourceBlock]⟩

def DocSourceBlock.row (x : DocSourceBlock) : DocRow :=
  ⟨.sourceBlocks, x.docPath, [x.blockID], "", "", [x.payload]⟩

def DocSourceRecord.row (x : DocSourceRecord) : DocRow :=
  ⟨.sourceRecords, x.docPath, [x.blockID, x.recordID], "", "", [x.payload]⟩

def DocArtifactBinding.row (x : DocArtifactBinding) : DocRow :=
  ⟨.artifactBindings, x.docPath, [x.blockID, toString x.ordinal], "", x.docLifecycle, [x.payload]⟩

def DocArtifactState.row (x : DocArtifactState) : DocRow :=
  ⟨.artifactStates, x.path, [], "", x.lifecycle, [x.contentSHA256, x.payload]⟩

def DocBindingSource.row (x : DocBindingSource) : DocRow :=
  ⟨.bindingSources, x.docPath, [x.bindingID], x.docID, x.documentLifecycle,
    [x.bindingLifecycle, x.payload]⟩

namespace DocTables

variable (docs : DocTables)

def insertDoc (r : DocRow) : Except DocError DocTables :=
  orElse (.constraint r.table) (docs.insert? r)

def replaceAll (rows : List DocRow) : DocTables := rows.foldl Table.put docs

def hasRetired (table : DocTable) (path : String) : Bool :=
  docs.rows.any fun r ↦ r.table = table && r.owner = path && r.lifecycle = docLifecycleRetired

end DocTables

variable (docs : DocTables)

def docPathHasRetiredLifecycleTx (path : String) : Bool :=
  docs.hasRetired .artifactStates path || docs.hasRetired .bindingSourceDocuments path ||
    docs.hasRetired .artifactBindings path

def docPathHasOwnedRowsTx (path : String) : Bool :=
  docs.rows.any fun r ↦ r.owner = path

variable (doc : DocRecord)

def insertDocBindingSourceTx (collection : DocBindingSourceCollection)
    (docs : DocTables) (item : DocBindingSource) : Except DocError DocTables := do
  if item.docPath ≠ doc.path || item.docID ≠ doc.docID || item.bindingID = "" ||
      item.provenance ≠ "declared" || item.documentLifecycle ≠ collection.documentLifecycle then
    throw (.sourceDeclaration doc.path)
  if item.bindingLifecycle ∉ [docLifecycleActive, docLifecycleDeprecated] ||
      item.documentLifecycle ∉ [docLifecycleActive, docLifecycleDeprecated, docLifecycleRetired]
    then throw (.constraint .bindingSources)
  docs.insertDoc item.row

def insertDocBindingSourcesTx : Except DocError DocTables := do
  let some collection := doc.bindingSources | return docs
  if collection.availability ≠ docBindingSourceAvailable then return docs
  if collection.version ≠ docBindingSourceVersion || collection.truncated then
    throw (.sourceCollection doc.path)
  let docs ← docs.insertDoc
    ⟨.bindingSourceDocuments, doc.path, [], "", collection.documentLifecycle, [collection.version]⟩
  collection.declarations.foldlM (insertDocBindingSourceTx doc collection) docs

variable (incoming : List DocRecord)

def retainedRetiredDocOwnersTx : List String :=
  ((docs.rows.filter fun r ↦ r.table = .records && docPathHasRetiredLifecycleTx docs r.owner).map
    DocRow.owner).filter fun path ↦ !incoming.any fun doc ↦ doc.path = path

/-- A retired owner is not replaced by an active one, nor its document id taken over. -/
def guardRetiredSourceReplacementTx : Except DocError Unit := do
  let active := doc.bindingSources.any fun c ↦ c.documentLifecycle ≠ docLifecycleRetired
  if docPathHasRetiredLifecycleTx docs doc.path && (doc.bindingSources.isNone || active) then
    throw (.retiredOwner doc.path)
  if active && doc.docID ≠ "" && docs.rows.any fun r ↦ r.table = .records && r.docID = doc.docID &&
      docs.hasRetired .bindingSourceDocuments r.owner then throw (.retiredDocID doc.docID)

structure DocFacts where
  edges : List DocEdge
  mentions : List DocMention
  blocks : List DocSourceBlock
  records : List DocSourceRecord
  bindings : List DocArtifactBinding

def DocFacts.rows (x : DocFacts) : List DocRow :=
  x.edges.map DocEdge.row ++ x.mentions.map DocMention.row ++ x.blocks.map DocSourceBlock.row ++
    x.records.map DocSourceRecord.row ++ x.bindings.map DocArtifactBinding.row

def replaceDocsWithSourcesTx (facts : DocFacts) : Except DocError DocTables := do
  let retained := retainedRetiredDocOwnersTx docs incoming
  incoming.forM (guardRetiredSourceReplacementTx docs)
  let docs := docs.delete fun r ↦ r.table ≠ .artifactStates && r.owner ∉ retained
  let docs ← incoming.foldlM (fun docs doc ↦ do
    insertDocBindingSourcesTx (← docs.insertDoc doc.row) doc) docs
  return docs.replaceAll facts.rows

inductive DocAction
  | replace
  | delete
  | unknown (action : String)

inductive DocProof
  | diskAbsent
  | scopeChanged
  | unknown
deriving DecidableEq

structure IncrementalDocChange where
  action : DocAction
  path : String
  proof : DocProof
  doc : Option DocRecord
  facts : DocFacts
  state : Option DocArtifactState

variable (change : IncrementalDocChange)

def validateReplaceChange : Except DocError Unit := do
  let some doc := change.doc | throw (.noDocument change.path)
  if trimSpace doc.path ≠ change.path then throw (.documentPath doc.path change.path)
  let some state := change.state | throw (.noState change.path)
  if trimSpace state.contentSHA256 = "" then throw (.noState change.path)
  if state.path ≠ "" && state.path ≠ change.path then throw (.statePath state.path change.path)

def validateIncrementalDocChange (owned : List String) (change : IncrementalDocChange) :
    Except DocError (List String) := do
  let path := trimSpace change.path
  if path = "" then throw .emptyPath
  if change.path ≠ path then throw (.notNormalized change.path)
  if path ∈ owned then throw (.duplicate path)
  if hasPrefix path "/" then throw (.notRelative path)
  match change.action with
  | .replace => validateReplaceChange change
  | .delete => if change.proof = .unknown then throw (.noProof path)
  | .unknown action => throw (.unknownAction action path)
  return path :: owned

variable (changes : List IncrementalDocChange)

def validateIncrementalDocChanges : Except DocError (List String) :=
  if changes.isEmpty then .error .noChanges
  else changes.foldlM validateIncrementalDocChange []

def deleteDocOwnedRowsTx (path : String) : DocTables :=
  docs.delete fun r ↦ r.table ≠ .artifactStates && r.owner = path

def checkFactOwners (path : String) (facts : DocFacts) : Except DocError Unit :=
  facts.rows.forM fun r ↦ if r.owner ≠ path then throw (.owner r.owner path) else return

def insertDocReplaceTx (path : String) (doc : DocRecord) (facts : DocFacts) :
    Except DocError DocTables := do
  if trimSpace doc.path ≠ path then throw (.noDocument path)
  let docs ← docs.insertDoc doc.row
  checkFactOwners path facts
  insertDocBindingSourcesTx (docs.replaceAll facts.rows) doc

def upsertDocArtifactStateTx (state : DocArtifactState) : DocTables :=
  docs.put state.row

def deleteDocArtifactStateTx (path : String) : DocTables :=
  docs.delete fun r ↦
    r.table = .artifactStates && r.owner = path && r.lifecycle ≠ docLifecycleRetired

def replacedState (docs : DocTables) : DocTables :=
  match change.state with
  | none => deleteDocArtifactStateTx docs change.path
  | some state =>
    upsertDocArtifactStateTx docs { state with
      path := if state.path = "" then change.path else state.path
      lifecycle := if state.lifecycle = "" then docLifecycleActive else state.lifecycle }

def applyIncrementalDocChangeTx (s : DocTables × Bool) (change : IncrementalDocChange) :
    Except DocError (DocTables × Bool) := do
  let (docs, actual) := s
  match change.action, change.doc with
  | .replace, some doc =>
    guardRetiredSourceReplacementTx docs doc
    let docs ← insertDocReplaceTx (deleteDocOwnedRowsTx docs change.path) change.path doc
      change.facts
    return (replacedState change docs, true)
  | .delete, _ =>
    if docPathHasRetiredLifecycleTx docs change.path then return (docs, actual)
    if !docPathHasOwnedRowsTx docs change.path then return (docs, actual)
    return (deleteDocArtifactStateTx (deleteDocOwnedRowsTx docs change.path) change.path, true)
  | _, _ => return (docs, actual)

def fingerprintDocRowsTx (owned : List String) : List (List DocRow) :=
  incrementalDocOwnerTables.map fun table ↦
    docs.rows.filter fun r ↦ r.table = table && r.owner ∉ owned

def applyIncrementalDocChangesTx : Except DocError (DocTables × Bool) := do
  let owned ← validateIncrementalDocChanges changes
  let before := fingerprintDocRowsTx docs owned
  let (docs, actual) ← changes.foldlM applyIncrementalDocChangeTx (docs, false)
  if fingerprintDocRowsTx docs owned ≠ before then throw .unexplainedShrink
  return (docs, actual)

end MiLsp.Store
