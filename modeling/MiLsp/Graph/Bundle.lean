import Mathlib.Data.List.Sort
import MiLsp.Graph.Identity

namespace MiLsp.Graph

open Library.Strings

abbrev Time := ℤ

inductive GraphGenerationStatus
  | staged
  | active
  | retired
  | invalid
deriving DecidableEq

structure GraphGeneration where
  generationID : GraphDigest
  schemaVersion : ℤ
  workspaceIdentity : String
  repositoryIdentity : String
  sourceFingerprint : GraphDigest
  configFingerprint : GraphDigest
  backendManifestDigest : GraphDigest
  contentDigest : GraphDigest
  status : GraphGenerationStatus
  errorCode : String
  nodeCount : ℤ
  edgeCount : ℤ
  evidenceCount : ℤ
  unresolvedCount : ℤ
  previousGenerationID : Option GraphDigest
  createdAt : Time
  publishedAt : Option Time
deriving DecidableEq

theorem GraphGeneration.generationID_setStatus (status : GraphGenerationStatus)
    (g : GraphGeneration) : { g with status }.generationID = g.generationID :=
  rfl

structure GraphNodeRecord where
  generationID : GraphDigest
  nodeID : ℤ
  nodeKey : GraphDigest
  identity : NodeKeyFields
  identitySchema : String
  displayName : String
  sourceDigest : GraphDigest
  claimStatus : String
  crossRID : String
  sortKey : String
deriving DecidableEq

structure GraphEdgeRecord where
  generationID : GraphDigest
  edgeID : ℤ
  edgeKey : GraphDigest
  fromNodeID : ℤ
  toNodeID : ℤ
  relation : String
  claimScope : String
  claimStatus : String
  ownerPath : String
  sourceBackend : String
  crossRID : String
deriving DecidableEq

structure GraphEvidence where
  generationID : GraphDigest
  evidenceID : ℤ
  evidenceKey : GraphDigest
  evidenceDigest : GraphDigest
  subjectKind : String
  nodeID : Option ℤ
  edgeID : Option ℤ
  sourceURI : String
  startLine : Option ℤ
  startColumn : Option ℤ
  endLine : Option ℤ
  endColumn : Option ℤ
  backend : String
  extractorVersion : String
  sourceDigest : GraphDigest
  claimKind : String
  observedClaimDigest : GraphDigest
  claimStatus : String
  crossRID : String
deriving DecidableEq

structure GraphUnresolved where
  generationID : GraphDigest
  unresolvedID : ℤ
  unresolvedKey : GraphDigest
  ownerPath : String
  subjectKind : String
  selectorDigest : GraphDigest
  reasonCode : String
  candidates : List String
  backend : String
  sourceDigest : Option GraphDigest
  crossRID : String
  recoveryHintCode : String
  sourceDocument : String
  sourceBlock : String
  targetKind : String
  targetValue : String
deriving DecidableEq

structure GraphBundle where
  generation : GraphGeneration
  nodes : List GraphNodeRecord
  edges : List GraphEdgeRecord
  evidence : List GraphEvidence
  unresolved : List GraphUnresolved
deriving DecidableEq

def maxUnresolvedCandidates : ℕ := 64

def maxCandidateBytes : ℕ := 4096

def nodeIdentitySchema : String := "milsp-node-key/v1"

def validClaim (s : String) : Bool := s ∈ ["exact", "extracted", "inferred"]

variable (host : GraphHost)

def orInvalid {α : Type} (e : GraphError) (x : Except GraphError α) : Except GraphError α :=
  x.mapError fun _ ↦ e

def validateGraphNodeRecord (n : GraphNodeRecord) : Except GraphError Unit := do
  if n.nodeID < 0 || n.identitySchema ≠ nodeIdentitySchema || !validClaim n.claimStatus then
    throw .nodeKeyInvalid
  let identity ← newNodeKey host n.identity
  let key ← orInvalid .nodeKeyInvalid (identity.hash host)
  if key ≠ n.nodeKey || n.crossRID ≠ nodeRID key then throw .nodeKeyInvalid

def validateGraphEdgeRecord (e : GraphEdgeRecord) (source target : GraphDigest) :
    Except GraphError Unit := do
  if e.edgeID < 0 || e.claimScope = "" || !validClaim e.claimStatus then throw .edgeInvalid
  let _ ← orInvalid .edgeInvalid (registered host e.relation .relation)
  let _ ← orInvalid .edgeInvalid (registered host e.sourceBackend .backendType)
  let _ ← slashPath host e.ownerPath "owner_path"
  let key := edgeKey host source target e.relation e.claimScope
  if e.edgeKey ≠ key || e.crossRID ≠ edgeRID key then throw .edgeInvalid

variable (e : GraphEvidence)

def GraphEvidence.range : Except GraphError (Option (ℤ × ℤ × ℤ × ℤ)) :=
  if [e.startLine, e.startColumn, e.endLine, e.endColumn].any (·.any (· < 0)) then
    .error .evidenceInvalid
  else
    match e.startLine, e.startColumn, e.endLine, e.endColumn with
    | some sl, some sc, some el, some ec =>
      if sl > el ∨ sl = el ∧ sc > ec then .error .evidenceInvalid else .ok (some (sl, sc, el, ec))
    | none, none, none, none => .ok none
    | _, _, _, _ => .error .evidenceInvalid

def GraphEvidence.digest : GraphDigest :=
  Graph.evidenceDigest host e.sourceDigest e.observedClaimDigest e.sourceURI e.claimKind e.backend
    e.extractorVersion (e.startLine.getD 0) (e.startColumn.getD 0) (e.endLine.getD 0)
    (e.endColumn.getD 0)

def validateGraphEvidence (subject : GraphDigest) : Except GraphError Unit := do
  if e.evidenceID < 0 || e.nodeID.isNone == e.edgeID.isNone ||
      e.subjectKind ≠ "node" && e.subjectKind ≠ "edge" || e.sourceURI = "" ||
      e.extractorVersion = "" || e.claimKind = "" || !validClaim e.claimStatus then
    throw .evidenceInvalid
  let _ ← orInvalid .evidenceInvalid (registered host e.backend .backendType)
  let _ ← orInvalid .evidenceInvalid (slashPath host e.sourceURI "source_uri")
  let _ ← e.range
  let digest := e.digest host
  if e.evidenceDigest ≠ digest || e.evidenceKey ≠ evidenceKey host subject digest e.evidenceID ||
      e.crossRID ≠ evidenceRID e.evidenceKey then throw .evidenceInvalid

variable (u : GraphUnresolved)

def graphUnresolvedKey : GraphDigest :=
  host.sha256 (utf8 "MILSP-UNRESOLVED/v1" ++ textField 1 u.ownerPath ++ textField 2 u.subjectKind ++
    digestField 3 u.selectorDigest ++ textField 4 u.reasonCode ++
    u.candidates.flatMap (textField 5) ++ textField 6 u.backend ++
    (u.sourceDigest.map (digestField 7)).getD [] ++ textField 8 u.recoveryHintCode)

def normalizeContextField (value name : String) : Except GraphError String := do
  let normalized ← normalizeText host value
  if value ≠ "" && normalized = "" then
    throw (.coded "GPH_IDENTITY_FIELD_MISSING" name "field is required")
  return normalized

def normalizeGraphUnresolvedContext : Except GraphError GraphUnresolved := do
  let sourceDocument ← normalizeContextField host u.sourceDocument "source_document"
  let sourceBlock ← normalizeContextField host u.sourceBlock "source_block"
  let targetKind ← normalizeContextField host u.targetKind "target_kind"
  let targetValue ← normalizeContextField host u.targetValue "target_value"
  return { u with sourceDocument, sourceBlock, targetKind, targetValue }

def contextLength (check : String → Except GraphError String) (value : String) :
    Except GraphError ℕ :=
  if value = "" then .ok 0 else (check value).map fun _ ↦ (utf8 value).length

def validateGraphUnresolvedContext : Except GraphError Unit :=
  orInvalid .unresolved do
    let u ← normalizeGraphUnresolvedContext host u
    let document ← contextLength (fun v ↦ slashPath host v "source_document") u.sourceDocument
    let block ← contextLength (fun v ↦ required host v "source_block") u.sourceBlock
    let kind ← contextLength (fun v ↦ required host v "target_kind") u.targetKind
    let value ← contextLength (fun v ↦ required host v "target_value") u.targetValue
    if document + block + kind + value > maxCandidateBytes then throw .unresolved

def checkCandidates (candidates : List String) : Except GraphError ℕ :=
  candidates.foldlM (fun total c ↦ do
    let _ ← required host c "candidate"
    if total + (utf8 c).length > maxCandidateBytes then throw .unresolved
    return total + (utf8 c).length) 0

def validateGraphUnresolved : Except GraphError Unit := do
  if u.unresolvedID < 0 || u.ownerPath = "" || u.subjectKind = "" || u.reasonCode = "" ||
      u.backend = "" || u.candidates.length > maxUnresolvedCandidates then throw .unresolved
  let _ ← orInvalid .unresolved (slashPath host u.ownerPath "owner_path")
  validateGraphUnresolvedContext host u
  let _ ← orInvalid .unresolved (checkCandidates host u.candidates)
  let key := graphUnresolvedKey host u
  if u.unresolvedKey ≠ key || u.crossRID ≠ unresolvedRID key then throw .unresolved

def validateWorkspaceIdentity (v : String) : Except GraphError Unit := do
  let v ← required host v "workspace_identity"
  if hasPrefix v "/" || hasPrefix v "~" || hasPrefix v "\\\\" || hasDrive v then
    throw (.coded "GPH_GENERATION_WORKSPACE_INVALID" "workspace_identity"
      "workspace metadata must not be an absolute path")

def recordAt? {α : Type} (records : List α) (id : ℤ) : Option α :=
  if id < 0 then none else records[id.toNat]?

variable (g : GraphGeneration)

def validateBundleNode (nodeKeys : List (GraphDigest × NodeKeyFields))
    (entry : GraphNodeRecord × ℕ) : Except GraphError (List (GraphDigest × NodeKeyFields)) := do
  let (n, i) := entry
  if n.nodeID ≠ i || n.generationID ≠ g.generationID || n.identitySchema ≠ nodeIdentitySchema ||
      !validClaim n.claimStatus then throw .generationInvalid
  validateGraphNodeRecord host n
  let nk ← newNodeKey host n.identity
  let d ← nk.hash host
  if let some old := nodeKeys.lookup d then
    if old ≠ nk then
      throw (.coded "GPH_IDENTITY_COLLISION" "node_key"
        "same node key has different canonical tuple")
    throw (.coded "GPH_IDENTITY_DUPLICATE" "node_key" "duplicate node key in generation")
  if n.crossRID ≠ nodeRID d then throw .nodeKeyInvalid
  return (d, nk) :: nodeKeys

variable (nodes : List GraphNodeRecord)

def validateBundleEdge (edgeKeys : List GraphDigest) (entry : GraphEdgeRecord × ℕ) :
    Except GraphError (List GraphDigest) := do
  let (e, i) := entry
  let some source := recordAt? nodes e.fromNodeID | throw .edgeInvalid
  let some target := recordAt? nodes e.toNodeID | throw .edgeInvalid
  if e.edgeID ≠ i || e.generationID ≠ g.generationID || e.relation = "" || e.sourceBackend = "" ||
      !validClaim e.claimStatus then throw .edgeInvalid
  let d := edgeKey host source.nodeKey target.nodeKey e.relation e.claimScope
  orInvalid .edgeInvalid (validateGraphEdgeRecord host e source.nodeKey target.nodeKey)
  if d ∈ edgeKeys then throw .edgeInvalid
  return d :: edgeKeys

def evidenceSubject (edges : List GraphEdgeRecord)
    (e : GraphEvidence) : Option (GraphDigest × String) :=
  match e.nodeID, e.edgeID with
  | some id, none => (recordAt? nodes id).map fun n ↦ (n.nodeKey, "node")
  | none, some id => (recordAt? edges id).map fun x ↦ (x.edgeKey, "edge")
  | _, _ => none

def validateBundleEvidence
    (edges : List GraphEdgeRecord) (entry : GraphEvidence × ℕ) : Except GraphError Unit := do
  let (e, i) := entry
  if e.evidenceID ≠ i || e.generationID ≠ g.generationID || e.backend = "" ||
      e.extractorVersion = "" || e.sourceURI = "" || hasPrefix e.sourceURI "/" ||
      containsText e.sourceURI ".." || !validClaim e.claimStatus then throw .evidenceInvalid
  let some (subject, kind) := evidenceSubject nodes edges e | throw .evidenceInvalid
  if e.subjectKind ≠ kind then throw .evidenceInvalid
  validateGraphEvidence host e subject

def validateBundleUnresolved (entry : GraphUnresolved × ℕ) : Except GraphError GraphUnresolved := do
  let u ← orInvalid .unresolved (normalizeGraphUnresolvedContext host entry.1)
  if u.unresolvedID ≠ entry.2 || u.generationID ≠ g.generationID then throw .unresolved
  orInvalid .unresolved (validateGraphUnresolved host u)
  return u

/-- The checks that do not compute the digests; a sealed bundle has both of them. -/
def GraphBundle.validateRecords (b : GraphBundle) (requireSealed : Bool) :
    Except GraphError GraphBundle := do
  let g := b.generation
  if g.schemaVersion < 1 || g.repositoryIdentity = "" || g.nodeCount ≠ b.nodes.length ||
      g.edgeCount ≠ b.edges.length || g.evidenceCount ≠ b.evidence.length ||
      g.unresolvedCount ≠ b.unresolved.length then
    throw (.coded "GPH_GENERATION_INVALID" "generation"
      "invalid generation metadata or collection counts")
  validateWorkspaceIdentity host g.workspaceIdentity
  let normalRepo ← normalizeRepositoryIdentity host g.repositoryIdentity
  if g.workspaceIdentity ≠ normalRepo then
    throw (.coded "GPH_GENERATION_WORKSPACE_INVALID" "workspace_identity"
      "workspace identity must equal normalized repository identity")
  if requireSealed && (g.generationID = zeroDigest || g.contentDigest = zeroDigest) then
    throw .generationInvalid
  let _ ← b.nodes.zipIdx.foldlM (validateBundleNode host g) []
  let _ ← b.edges.zipIdx.foldlM (validateBundleEdge host g b.nodes) []
  b.evidence.zipIdx.forM (validateBundleEvidence host g b.nodes b.edges)
  if b.edges.any fun x ↦ !b.evidence.any fun e ↦ e.edgeID = some x.edgeID then
    throw .evidenceInvalid
  let unresolved ← b.unresolved.zipIdx.mapM (validateBundleUnresolved host g)
  return { b with unresolved }

section Content

def recordMark : Bytes := field 242 []

def contentSection {α : Type} (name : String) (content : α → Bytes) (records : List α) : Bytes :=
  textField 240 name ++ integerField 241 records.length ++
    records.flatMap fun record ↦ recordMark ++ content record

def GraphNodeRecord.content (n : GraphNodeRecord) : Bytes :=
  integerField 1 n.nodeID ++ digestField 2 n.nodeKey ++ textField 3 n.identitySchema ++
    textField 4 n.identity.repositoryIdentity ++ textField 5 n.identity.backendType ++
    textField 6 n.identity.language ++ textField 7 n.identity.projectOrModule ++
    textField 8 n.identity.ownerPath ++ textField 9 n.identity.symbolKind ++
    textField 10 n.identity.semanticIdentity ++ textField 11 n.displayName ++
    digestField 12 n.sourceDigest ++ textField 13 n.claimStatus ++ textField 14 n.crossRID ++
    textField 15 n.sortKey

def GraphEdgeRecord.content (e : GraphEdgeRecord) : Bytes :=
  integerField 1 e.edgeID ++ digestField 2 e.edgeKey ++ integerField 3 e.fromNodeID ++
    integerField 4 e.toNodeID ++ textField 5 e.relation ++ textField 6 e.claimScope ++
    textField 7 e.claimStatus ++ textField 8 e.ownerPath ++ textField 9 e.sourceBackend ++
    textField 10 e.crossRID

def GraphEvidence.content (e : GraphEvidence) : Bytes :=
  integerField 1 e.evidenceID ++ digestField 2 e.evidenceKey ++ digestField 3 e.evidenceDigest ++
    textField 4 e.subjectKind ++ (e.nodeID.map (integerField 5)).getD [] ++
    (e.edgeID.map (integerField 6)).getD [] ++ textField 7 e.sourceURI ++ textField 8 e.backend ++
    textField 9 e.extractorVersion ++ digestField 10 e.sourceDigest ++ textField 11 e.claimKind ++
    digestField 12 e.observedClaimDigest ++ textField 13 e.claimStatus ++ textField 14 e.crossRID

variable (includeProvenance : Bool)

def GraphUnresolved.content (u : GraphUnresolved) : Bytes :=
  integerField 1 u.unresolvedID ++ digestField 2 u.unresolvedKey ++ textField 3 u.ownerPath ++
    textField 4 u.subjectKind ++ digestField 5 u.selectorDigest ++ textField 6 u.reasonCode ++
    u.candidates.flatMap (textField 7) ++ textField 8 u.backend ++
    (u.sourceDigest.map (digestField 9)).getD [] ++ textField 10 u.crossRID ++
    textField 11 u.recoveryHintCode ++
    if includeProvenance then
      textField 12 u.sourceDocument ++ textField 13 u.sourceBlock ++ textField 14 u.targetKind ++
        textField 15 u.targetValue
    else []

/-- Unresolved claims are normalised once more, except in the framing without their provenance. -/
def graphContentHash (nodes : List GraphNodeRecord)
    (edges : List GraphEdgeRecord) (evidence : List GraphEvidence)
    (unresolved : List GraphUnresolved) : Except GraphError GraphDigest := do
  let unresolved ←
    if includeProvenance then unresolved.mapM (normalizeGraphUnresolvedContext host)
    else pure unresolved
  return host.sha256 (utf8 "MILSP-GRAPH-CONTENT/v2" ++
    contentSection "MILSP-GRAPH-NODES/v2" GraphNodeRecord.content nodes ++
    contentSection "MILSP-GRAPH-EDGES/v2" GraphEdgeRecord.content edges ++
    contentSection "MILSP-GRAPH-EVIDENCE/v2" GraphEvidence.content evidence ++
    contentSection "MILSP-GRAPH-UNRESOLVED/v2" (GraphUnresolved.content includeProvenance)
      unresolved)

end Content

def GraphBundle.contentDigest (b : GraphBundle) :
    Except GraphError (GraphDigest × GraphBundle) := do
  let b ← b.validateRecords host false
  let digest ← graphContentHash host true
    (b.nodes.insertionSort fun x y ↦ x.nodeID ≤ y.nodeID)
    (b.edges.insertionSort fun x y ↦ x.edgeID ≤ y.edgeID)
    (b.evidence.insertionSort fun x y ↦ x.evidenceID ≤ y.evidenceID)
    (b.unresolved.insertionSort fun x y ↦ x.unresolvedID ≤ y.unresolvedID)
  return (digest, b)

def GraphGeneration.derivedID (g : GraphGeneration) (content : GraphDigest) : GraphDigest :=
  deriveGenerationID host g.schemaVersion g.workspaceIdentity g.sourceFingerprint
    g.configFingerprint g.backendManifestDigest content

def GraphBundle.validate (b : GraphBundle) : Except GraphError GraphBundle := do
  let checked ← b.validateRecords host true
  let g := b.generation
  let (digest, checked) ← orInvalid .generationInvalid (checked.contentDigest host)
  if digest ≠ g.contentDigest then throw .generationInvalid
  if g.derivedID host digest ≠ g.generationID then throw .generationInvalid
  return checked

end MiLsp.Graph
