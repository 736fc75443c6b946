import Mathlib.Algebra.Ring.Nat
import MiLsp.Library.Table
import MiLsp.Graph.Bundle

namespace MiLsp.Graph

open Library Strings Attempt

structure GraphRows where
  nodes : List GraphNodeRecord
  edges : List GraphEdgeRecord
  evidence : List GraphEvidence
  unresolved : List GraphUnresolved

def GraphRows.empty : GraphRows := ⟨[], [], [], []⟩

/-- The graph tables and the two pointers of `workspace_meta`; an absent, null or empty one is
`none`. -/
structure GraphStore where
  generations : Table GraphGeneration.generationID
  rows : GraphRows
  active : Option GraphDigest
  previous : Option GraphDigest

def GraphStore.empty : GraphStore := ⟨.empty, .empty, none, none⟩

def insertRow {α : Type} (generation : α → GraphDigest) (clash : α → α → Bool) (rows : List α)
    (row : α) : Except GraphError (List α) :=
  if rows.any fun other ↦ generation other = generation row && clash row other then
    .error .constraint
  else .ok (rows ++ [row])

def nodeClash (a b : GraphNodeRecord) : Bool := a.nodeID = b.nodeID || a.nodeKey = b.nodeKey

def edgeClash (a b : GraphEdgeRecord) : Bool := a.edgeID = b.edgeID || a.edgeKey = b.edgeKey

def evidenceClash (a b : GraphEvidence) : Bool :=
  a.evidenceID = b.evidenceID || a.evidenceKey = b.evidenceKey

def unresolvedClash (a b : GraphUnresolved) : Bool :=
  a.unresolvedID = b.unresolvedID || a.unresolvedKey = b.unresolvedKey

namespace GraphRows

variable (rows : GraphRows) (generation : GraphDigest)

def hasNode (id : ℤ) : Bool :=
  rows.nodes.any fun n ↦ n.generationID = generation && n.nodeID = id

def hasEdge (id : ℤ) : Bool :=
  rows.edges.any fun x ↦ x.generationID = generation && x.edgeID = id

def insertNode (n : GraphNodeRecord) : Except GraphError GraphRows :=
  if n.nodeID < 0 then .error .constraint
  else
    (insertRow GraphNodeRecord.generationID nodeClash rows.nodes
      { n with generationID := generation }).map fun nodes ↦ { rows with nodes }

def insertEdge (x : GraphEdgeRecord) : Except GraphError GraphRows :=
  if x.edgeID < 0 || !rows.hasNode generation x.fromNodeID ||
      !rows.hasNode generation x.toNodeID then .error .constraint
  else
    (insertRow GraphEdgeRecord.generationID edgeClash rows.edges
      { x with generationID := generation }).map fun edges ↦ { rows with edges }

/-- The foreign keys of an evidence, with the check that its kind says which one it has. -/
def hasSubject (x : GraphEvidence) : Bool :=
  match x.nodeID, x.edgeID with
  | some id, none => x.subjectKind = "node" && rows.hasNode generation id
  | none, some id => x.subjectKind = "edge" && rows.hasEdge generation id
  | _, _ => false

def insertEvidence (x : GraphEvidence) : Except GraphError GraphRows :=
  if x.evidenceID < 0 || !rows.hasSubject generation x ||
      [x.startLine, x.startColumn, x.endLine, x.endColumn].any (·.any (· < 0)) then
    .error .constraint
  else
    (insertRow GraphEvidence.generationID evidenceClash rows.evidence
      { x with generationID := generation, evidenceDigest := zeroDigest }).map
        fun evidence ↦ { rows with evidence }

end GraphRows

def GraphStore.admitsGeneration (s : GraphStore) (g : GraphGeneration) : Bool :=
  (s.generations.find? g.generationID).isNone && g.schemaVersion = 1 && 0 ≤ g.nodeCount &&
    0 ≤ g.edgeCount && 0 ≤ g.evidenceCount && 0 ≤ g.unresolvedCount &&
    g.previousGenerationID.all fun previous ↦
      previous = g.generationID || (s.generations.find? previous).isSome

def jsonCharLength (c : Char) : ℕ :=
  if c = '"' || c = '\\' then 2
  else if c ∈ ['<', '>', '&'] || c.val ∈ [0x2028, 0x2029] then 6
  else if c.val ∈ [0x08, 0x09, 0x0A, 0x0C, 0x0D] then 2
  else if c.val < 0x20 then 6
  else (String.utf8EncodeChar c).length

variable (candidates : List String)

def jsonLength : ℕ :=
  1 + max 1 (candidates.map fun c ↦ (c.toList.map jsonCharLength).sum + 3).sum

def jsonBounded : Except GraphError Unit :=
  if jsonLength candidates > 4096 then .error .unresolved else .ok ()

def GraphUnresolved.row (x : GraphUnresolved) (generation : GraphDigest) : GraphUnresolved :=
  { x with
    generationID := generation
    sourceDocument := trimSpace x.sourceDocument
    sourceBlock := trimSpace x.sourceBlock
    targetKind := trimSpace x.targetKind
    targetValue := trimSpace x.targetValue }

def GraphRows.insertUnresolved (rows : GraphRows) (generation : GraphDigest)
    (x : GraphUnresolved) : Except GraphError GraphRows := do
  jsonBounded x.candidates
  if x.unresolvedID < 0 then .error .constraint
  else
    (insertRow GraphUnresolved.generationID unresolvedClash rows.unresolved
      (x.row generation)).map fun unresolved ↦ { rows with unresolved }

def GraphGeneration.stagedRow (g : GraphGeneration) : GraphGeneration :=
  { g with
    status := .staged, repositoryIdentity := g.workspaceIdentity, publishedAt := none
    errorCode := "" }

def loadGeneration (s : GraphStore) (id : GraphDigest) : Except GraphError GraphGeneration :=
  orElse .noRows (s.generations.find? id)

variable (host : GraphHost)

def GraphRows.ofGeneration (rows : GraphRows) (id : GraphDigest) : GraphRows where
  nodes := rows.nodes.filter (·.generationID = id)
  edges := rows.edges.filter (·.generationID = id)
  evidence := rows.evidence.filter (·.generationID = id)
  unresolved := rows.unresolved.filter (·.generationID = id)

def GraphRows.sorted (rows : GraphRows) : GraphRows where
  nodes := rows.nodes.insertionSort fun a b ↦ a.nodeID ≤ b.nodeID
  edges := rows.edges.insertionSort fun a b ↦ a.edgeID ≤ b.edgeID
  evidence := rows.evidence.insertionSort fun a b ↦ a.evidenceID ≤ b.evidenceID
  unresolved := rows.unresolved.insertionSort fun a b ↦ a.unresolvedID ≤ b.unresolvedID

/-- Which framing of the unresolved claims the content digest is checked against. -/
inductive GraphContentValidationMode
  | current
  | legacy
deriving DecidableEq

variable (nodes : List GraphNodeRecord) (edges : List GraphEdgeRecord)

/-- The key of a stored evidence's subject; an edge's key is computed from its ends. -/
def streamSubject (x : GraphEvidence) : Option GraphDigest :=
  match x.nodeID, x.edgeID with
  | some id, none => do
    guard (x.subjectKind = "node")
    return (← nodes.find? (·.nodeID = id)).nodeKey
  | none, some id => do
    guard (x.subjectKind = "edge")
    let edge ← edges.find? (·.edgeID = id)
    let source ← nodes.find? (·.nodeID = edge.fromNodeID)
    let target ← nodes.find? (·.nodeID = edge.toNodeID)
    return edgeKey host source.nodeKey target.nodeKey edge.relation edge.claimScope
  | _, _ => none

def streamEdge (x : GraphEdgeRecord) : Except GraphError Unit := do
  let some source := nodes.find? (·.nodeID = x.fromNodeID) | throw .edgeInvalid
  let some target := nodes.find? (·.nodeID = x.toNodeID) | throw .edgeInvalid
  orInvalid .edgeInvalid (validateGraphEdgeRecord host x source.nodeKey target.nodeKey)

def streamEvidence (x : GraphEvidence) : Except GraphError GraphEvidence := do
  let some subject := streamSubject host nodes edges x | throw .evidenceInvalid
  let x := { x with evidenceDigest := x.digest host }
  validateGraphEvidence host x subject
  return x

def streamUnresolved (x : GraphUnresolved) : Except GraphError GraphUnresolved := do
  let x ← normalizeGraphUnresolvedContext host x
  validateGraphUnresolved host x
  return x

def checkContentCount (count : ℤ) (rows : ℕ) : Except GraphError Unit :=
  if count < 0 then
    .error (.coded "GPH_GENERATION_INVALID" "content_counts"
      "content record counts must be non-negative")
  else if count < rows then
    .error (.coded "GPH_GENERATION_INVALID" "content_counts" "graph content has too many records")
  else if (rows : ℤ) < count then
    .error (.coded "GPH_GENERATION_INVALID" "content_counts" "graph content section is incomplete")
  else .ok ()

def streamGraphWithMode (rows : GraphRows) (g : GraphGeneration)
    (mode : GraphContentValidationMode) : Except GraphError GraphDigest := do
  let rows := rows.sorted
  rows.nodes.forM (validateGraphNodeRecord host)
  checkContentCount g.nodeCount rows.nodes.length
  rows.edges.forM (streamEdge host rows.nodes)
  checkContentCount g.edgeCount rows.edges.length
  let evidence ← rows.evidence.mapM (streamEvidence host rows.nodes rows.edges)
  checkContentCount g.evidenceCount evidence.length
  let unresolved ← rows.unresolved.mapM (streamUnresolved host)
  checkContentCount g.unresolvedCount unresolved.length
  graphContentHash host (mode = .current) rows.nodes rows.edges evidence unresolved

def checkGraphGeneration (rows : GraphRows) (g : GraphGeneration)
    (mode : GraphContentValidationMode) : Except GraphError Unit := do
  if g.sourceFingerprint = zeroDigest || g.configFingerprint = zeroDigest ||
      g.backendManifestDigest = zeroDigest then throw .generationCorrupt
  let d ← orInvalid .generationCorrupt (streamGraphWithMode host rows g mode)
  if d ≠ g.contentDigest then throw .generationCorrupt
  if g.derivedID host d ≠ g.generationID then throw .generationCorrupt
  if rows.nodes.length ≠ g.nodeCount || rows.edges.length ≠ g.edgeCount ||
      rows.evidence.length ≠ g.evidenceCount || rows.unresolved.length ≠ g.unresolvedCount then
    throw .generationInvalid
  if rows.edges.any fun x ↦ !rows.evidence.any fun e ↦ e.edgeID = some x.edgeID then
    throw .generationCorrupt

def validateGraphGenerationWithMode (s : GraphStore) (id : GraphDigest)
    (mode : GraphContentValidationMode) : Except GraphError GraphGeneration := do
  let g ← loadGeneration s id
  checkGraphGeneration host (s.rows.ofGeneration id) g mode
  return g

def validateGraphGenerationConn (s : GraphStore) (id : GraphDigest) :
    Except GraphError GraphGeneration :=
  validateGraphGenerationWithMode host s id .current

def graphGenerationImmutableMetadataEqual (a b : GraphGeneration) : Bool :=
  a.generationID = b.generationID && a.schemaVersion = b.schemaVersion &&
    a.workspaceIdentity = b.workspaceIdentity && a.sourceFingerprint = b.sourceFingerprint &&
    a.configFingerprint = b.configFingerprint &&
    a.backendManifestDigest = b.backendManifestDigest && a.contentDigest = b.contentDigest &&
    a.errorCode = b.errorCode && a.nodeCount = b.nodeCount && a.edgeCount = b.edgeCount &&
    a.evidenceCount = b.evidenceCount && a.unresolvedCount = b.unresolvedCount

def generationMetadataEqual (a b : GraphGeneration) : Bool :=
  graphGenerationImmutableMetadataEqual a b && a.status = b.status &&
    a.previousGenerationID = b.previousGenerationID && a.createdAt = b.createdAt

/-- Staging a generation whose row could not be inserted: an equal row may stand for it. -/
def restageGeneration (s : GraphStore) (g : GraphGeneration) : Except GraphError GraphStore := do
  let existing ← orInvalid .generationCorrupt (loadGeneration s g.generationID)
  match existing.status with
  | .active | .retired =>
    if !graphGenerationImmutableMetadataEqual existing g then throw .generationCorrupt
    let _ ← orInvalid .generationCorrupt (validateGraphGenerationConn host s g.generationID)
    return s
  | .staged | .invalid =>
    if !generationMetadataEqual existing g then throw .generationCorrupt
    let _ ← orInvalid .generationCorrupt
      (streamGraphWithMode host (s.rows.ofGeneration g.generationID) existing .current)
    return s

def GraphRows.insertRecords (rows : GraphRows) (b : GraphBundle) : Except GraphError GraphRows := do
  let id := b.generation.generationID
  let rows ← b.nodes.foldlM (fun rows n ↦ rows.insertNode id n) rows
  let rows ← b.edges.foldlM (fun rows x ↦ rows.insertEdge id x) rows
  let rows ← b.evidence.foldlM (fun rows x ↦ rows.insertEvidence id x) rows
  b.unresolved.foldlM (fun rows x ↦ rows.insertUnresolved id x) rows

def GraphStore.staged (s : GraphStore) (g : GraphGeneration) (rows : GraphRows) : GraphStore :=
  { s with generations := s.generations.put g.stagedRow, rows }

def stageGraphGenerationConn (s : GraphStore) (b : GraphBundle) : Except GraphError GraphStore := do
  if b.generation.status ≠ .staged then throw .generationInvalid
  let b ← b.validate host
  if s.admitsGeneration b.generation then
    let rows ← s.rows.insertRecords b
    return s.staged b.generation rows
  else restageGeneration host s b.generation

end MiLsp.Graph
