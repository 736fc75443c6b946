import Mathlib.Data.Prod.Lex
import Mathlib.Data.List.Dedup
import Mathlib.Data.List.Lex
import Mathlib.Data.Char
import MiLsp.Graph.Bundle

namespace MiLsp.Query

open MiLsp.Graph Library Attempt Strings

/-- One generation as a query reads it: unique identifiers and keys, edges between its nodes. -/
structure GraphQuerySnapshot where
  generationID : GraphDigest
  unresolvedCount : ℤ
  nodes : List GraphNodeRecord
  edges : List GraphEdgeRecord
  evidence : List GraphEvidence
  nodeIDs : (nodes.map (·.nodeID)).Nodup
  edgeIDs : (edges.map (·.edgeID)).Nodup
  edgeKeys : (edges.map (·.edgeKey)).Nodup
  endpoints : ∀ e ∈ edges, e.fromNodeID ∈ nodes.map (·.nodeID) ∧
    e.toNodeID ∈ nodes.map (·.nodeID)

inductive GraphOperation
  | neighbors
  | callers
  | callees
deriving DecidableEq

inductive Direction
  | inward
  | outward
  | both
deriving DecidableEq

/-- A request as `Normalize` leaves it; the upper bounds it sets play no part here. -/
structure GraphQueryRequest where
  operation : GraphOperation
  selector : String
  depth : ℕ
  limit : ℕ
  tokenBudget : ℕ
  direction : Direction
  relations : List String
  depth_pos : 1 ≤ depth
  limit_pos : 1 ≤ limit

structure GraphQueryItem where
  kind : String
  crossRID : String
  display : String
  status : String
  distance : ℕ
  evidenceRefs : List String := []
  nodeKey : String
  edgeKey : String := ""
  edgeCrossRID : String := ""
  confidenceClass : String
  nodeID : ℤ
  edgeID : ℤ := 0
  relation : String := ""
  fromNodeKey : String := ""
  toNodeKey : String := ""
  fromCrossRID : String := ""
  toCrossRID : String := ""
  symbolKind : String
  ownerPath : String
  docID : String := ""
  destinationPath : String := ""
  destinationDocID : String := ""
deriving DecidableEq

inductive GraphQueryError
  | selectorInvalid
  | selectorAmbiguous (candidates : List GraphQueryItem)
  | generationMissing
  | cursorStale

/-- What the queries take from libraries: lower case and the length of an item's JSON. -/
structure GraphQueryHost where
  toLower : String → String
  jsonSize : GraphQueryItem → ℕ

/-- Texts compare by their code points. Digests compare as their hexadecimal texts do. -/
def textKey (s : String) : List Char := s.toList

section Store

variable (s : GraphQuerySnapshot)

def GraphQuerySnapshot.node (id : ℤ) : Option GraphNodeRecord :=
  s.nodes.find? (·.nodeID = id)

def GraphQuerySnapshot.selectNodes {κ : Type} [LE κ] [DecidableLE κ] (key : GraphNodeRecord → κ)
    (max : ℕ) (keep : GraphNodeRecord → Bool) : List GraphNodeRecord :=
  ((s.nodes.filter keep).insertionSort fun a b ↦ key a ≤ key b).take max

def byNodeKey (n : GraphNodeRecord) : List Char := textKey (hexString n.nodeKey)

def byOwnerPath (n : GraphNodeRecord) : List Char ×ₗ List Char :=
  toLex (textKey n.identity.ownerPath, byNodeKey n)

def GraphQuerySnapshot.resolveGraphSelector (selector : String) :
    Except GraphQueryError (List GraphNodeRecord) :=
  let selector := trimSpace selector
  if selector = "" then .error .selectorInvalid
  else
    let isDocument (n : GraphNodeRecord) : Bool := n.identity.symbolKind = "document"
    let results :=
      [s.selectNodes byNodeKey 2 fun n ↦ hexString n.nodeKey = selector,
        s.selectNodes byNodeKey 51 fun n ↦ isDocument n && n.identity.ownerPath = selector,
        s.selectNodes byNodeKey 51 fun n ↦ isDocument n && n.identity.semanticIdentity = selector,
        s.selectNodes byNodeKey 51 fun n ↦ n.crossRID = selector,
        s.selectNodes byNodeKey 51 fun n ↦ n.identity.semanticIdentity = selector,
        s.selectNodes byOwnerPath 51 fun n ↦ n.sortKey = selector,
        s.selectNodes byOwnerPath 51 fun n ↦ n.displayName = selector]
    .ok ((results.find? (· ≠ [])).getD [])

def Direction.near : Direction → GraphEdgeRecord → ℤ
  | .inward, e => e.toNodeID
  | _, e => e.fromNodeID

def allowed (relations : List String) (e : GraphEdgeRecord) : Bool :=
  relations = [] || e.relation ∈ relations

def fetchKey (e : GraphEdgeRecord) : List Char ×ₗ List Char ×ₗ List Char :=
  toLex (textKey e.relation, toLex (textKey e.claimStatus, textKey (hexString e.edgeKey)))

def GraphQuerySnapshot.edgesAt (direction : Direction) (relations : List String) (node : ℤ) :
    List GraphEdgeRecord :=
  (s.edges.filter fun e ↦ direction.near e = node && allowed relations e).insertionSort
    fun a b ↦ fetchKey a ≤ fetchKey b

def fetchEdges (rowsOf : ℤ → List GraphEdgeRecord) (maxRows : ℕ) :
    List GraphEdgeRecord → List ℤ → List GraphEdgeRecord
  | result, [] => result
  | result, node :: rest =>
    if maxRows ≤ result.length then result
    else fetchEdges rowsOf maxRows (result ++ (rowsOf node).take (maxRows - result.length)) rest

def GraphQuerySnapshot.edgesFromFrontier (frontier : List ℤ) (direction : Direction)
    (relations : List String) (maxRows : ℕ) : List GraphEdgeRecord :=
  let canonical := (frontier.dedup.insertionSort (· ≤ ·)).take maxRows
  fetchEdges (s.edgesAt direction relations) maxRows [] canonical

end Store

def nextEdge (result : List GraphEdgeRecord) :
    List GraphEdgeRecord → Option GraphEdgeRecord × List GraphEdgeRecord
  | [] => (none, [])
  | edge :: rest =>
    if result.any (·.edgeID = edge.edgeID) then nextEdge result rest else (some edge, rest)

/-- One edge from each side in turn. Every round shortens a side, so `fuel` edges need `fuel`
rounds. -/
def interleaveRounds (maxRows : ℕ) : ℕ → List GraphEdgeRecord → List GraphEdgeRecord →
    List GraphEdgeRecord → List GraphEdgeRecord
  | 0, _, _, result => result
  | fuel + 1, out, inn, result =>
    if maxRows ≤ result.length ∨ out = [] ∧ inn = [] then result
    else
      let fromOut := nextEdge result out
      let result := result ++ fromOut.1.toList
      if maxRows ≤ result.length then result
      else
        let fromIn := nextEdge result inn
        interleaveRounds maxRows fuel fromOut.2 fromIn.2 (result ++ fromIn.1.toList)

def interleaveGraphEdges (out inn : List GraphEdgeRecord) (maxRows : ℕ) : List GraphEdgeRecord :=
  interleaveRounds maxRows (out.length + inn.length) out inn []

def GraphQuerySnapshot.readEdges (s : GraphQuerySnapshot) (frontier : List ℤ)
    (direction : Direction) (relations : List String) (maxRows : ℕ) : List GraphEdgeRecord :=
  match direction with
  | .both =>
    interleaveGraphEdges (s.edgesFromFrontier frontier .outward relations maxRows)
      (s.edgesFromFrontier frontier .inward relations maxRows) maxRows
  | direction => s.edgesFromFrontier frontier direction relations maxRows

structure GraphEdgeWork where
  edge : GraphEdgeRecord
  nodeID : ℤ
  distance : ℕ

variable (direction : Direction)

def Direction.far (frontier : List ℤ) (e : GraphEdgeRecord) : ℤ :=
  match direction with
  | .outward => e.toNodeID
  | .inward => e.fromNodeID
  | .both => if e.fromNodeID ∈ frontier then e.toNodeID else e.fromNodeID

/-- The state of the traversal. An edge counts as seen once there is a work item for it. -/
structure Traversal where
  frontier : List ℤ
  visited : List (ℤ × ℕ)
  works : List GraphEdgeWork
  next : List ℤ

def GraphQueryRequest.effectiveDirection (q : GraphQueryRequest) : Direction :=
  match q.operation with
  | .callers => .inward
  | .callees => .outward
  | .neighbors => q.direction

/-- A work item for the edge, and its far node for the next level unless it is visited. -/
def Traversal.add (distance : ℕ) (t : Traversal) (edge : GraphEdgeRecord) : Traversal :=
  let node := direction.far t.frontier edge
  let t := { t with works := t.works ++ [⟨edge, node, distance⟩] }
  if t.visited.any (·.1 = node) then t
  else { t with visited := t.visited ++ [(node, distance)], next := t.next ++ [node] }

def Traversal.visit (distance : ℕ) (t : Traversal) (edge : GraphEdgeRecord) : Traversal :=
  if t.works.any (·.edge.edgeID = edge.edgeID) then t else t.add direction distance edge

section Query

variable (host : GraphQueryHost) (s : GraphQuerySnapshot) (q : GraphQueryRequest)

def Traversal.level (maxRows distance : ℕ) (t : Traversal) : Traversal :=
  let edges := s.readEdges t.frontier q.effectiveDirection q.relations maxRows
  let t := edges.foldl (Traversal.visit q.effectiveDirection distance) { t with next := [] }
  { t with frontier := t.next.dedup }

def Traversal.levels (maxRows : ℕ) : ℕ → ℕ → Traversal → Traversal
  | 0, _, t => t
  | n + 1, distance, t =>
    let t := t.level s q maxRows distance
    if t.frontier = [] then t else t.levels maxRows n (distance + 1)

def traverse (root : ℤ) (maxRows : ℕ) : Traversal :=
  Traversal.levels s q maxRows q.depth 1
    { frontier := [root], visited := [(root, 0)], works := [], next := [] }

def confidenceClass (status : String) : String :=
  if status ∈ ["exact", "extracted", "inferred"] then status else "unknown"

def graphNodeItem (n : GraphNodeRecord) (distance : ℕ) : GraphQueryItem :=
  let isDocument := n.identity.symbolKind = "document"
  let ownID :=
    if isDocument ∧ n.identity.semanticIdentity ≠ n.identity.ownerPath then
      n.identity.semanticIdentity
    else ""
  { kind := "node"
    crossRID := n.crossRID
    display := n.displayName
    status := n.claimStatus
    distance
    nodeKey := hexString n.nodeKey
    confidenceClass := confidenceClass n.claimStatus
    nodeID := n.nodeID
    symbolKind := n.identity.symbolKind
    ownerPath := n.identity.ownerPath
    destinationPath := if isDocument then n.identity.ownerPath else ""
    docID := ownID
    destinationDocID := ownID }

def GraphQuerySnapshot.evidenceRefs (isSubject : GraphEvidence → Bool) : List String :=
  ((((s.evidence.filter isSubject).map (hexString ·.evidenceKey)).insertionSort
    fun a b ↦ textKey a ≤ textKey b)).take 32

def graphEdgeItem (n source target : GraphNodeRecord) (w : GraphEdgeWork) : GraphQueryItem :=
  { graphNodeItem n w.distance with
    kind := "edge"
    edgeKey := hexString w.edge.edgeKey
    edgeID := w.edge.edgeID
    relation := w.edge.relation
    status := w.edge.claimStatus
    crossRID := w.edge.crossRID
    edgeCrossRID := w.edge.crossRID
    confidenceClass := confidenceClass w.edge.claimStatus
    fromNodeKey := hexString source.nodeKey
    toNodeKey := hexString target.nodeKey
    fromCrossRID := source.crossRID
    toCrossRID := target.crossRID
    evidenceRefs := s.evidenceRefs fun e ↦ e.edgeID = some w.edge.edgeID }

def graphItem (w : GraphEdgeWork) : Except GraphQueryError GraphQueryItem := do
  let n ← orElse .generationMissing (s.node w.nodeID)
  let source ← orElse .generationMissing (s.node w.edge.fromNodeID)
  let target ← orElse .generationMissing (s.node w.edge.toNodeID)
  return graphEdgeItem s n source target w

def claimRank (status : String) : ℕ :=
  if status = "exact" then 0 else if status = "extracted" then 1
  else if status = "inferred" then 2 else 3

def itemKey (item : GraphQueryItem) :
    ℕ ×ₗ ℕ ×ₗ List Char ×ₗ List Char ×ₗ List Char ×ₗ List Char ×ₗ List Char :=
  toLex (item.distance, toLex (claimRank item.status, toLex (textKey item.relation,
    toLex (textKey (host.toLower item.display), toLex (textKey item.display,
      toLex (textKey item.nodeKey, textKey item.edgeKey))))))

def sortGraphItems (items : List GraphQueryItem) : List GraphQueryItem :=
  items.insertionSort fun a b ↦ itemKey host a ≤ itemKey host b

structure GraphQueryStats where
  visited : ℕ := 0
  frontier : ℕ := 0
  returned : ℕ := 0
  depth : ℕ
  tokenUnits : ℕ := 0
  unresolved : ℤ := 0

structure GraphCursor where
  generation : GraphDigest
  operation : GraphOperation
  selector : String
  depth : ℕ
  limit : ℕ
  token : ℕ
  direction : Direction
  relations : List String
  offset : ℕ
deriving DecidableEq

structure GraphEnvelope where
  items : List GraphQueryItem
  stats : GraphQueryStats
  truncated : Bool := false
  hint : String := ""
  nextCursor : Option GraphCursor := none

def admitItems : ℕ → Bool → List GraphQueryItem → List GraphQueryItem × ℕ
  | units, _, [] => ([], units)
  | units, any, item :: rest =>
    let n := (host.jsonSize item + 3) / 4
    if units + n > q.tokenBudget ∧ any then ([], units)
    else
      let (items, units) := admitItems (units + n) true rest
      (item :: items, units)

def GraphQueryRequest.cursor (offset : ℕ) : GraphCursor where
  generation := s.generationID
  operation := q.operation
  selector := q.selector
  depth := q.depth
  limit := q.limit
  token := q.tokenBudget
  direction := q.direction
  relations := q.relations
  offset := offset

def finalizeGraphItems (all : List GraphQueryItem) (visited frontier offset : ℕ) : GraphEnvelope :=
  let offset := min offset all.length
  let (returned, units) := admitItems host q 0 false ((all.drop offset).take q.limit)
  let truncated := decide (offset + returned.length < all.length)
  { items := returned
    stats :=
      { visited
        frontier
        returned := returned.length
        depth := q.depth
        tokenUnits := units
        unresolved := s.unresolvedCount }
    truncated
    nextCursor := if truncated then some (q.cursor s (offset + returned.length)) else none }

def neighborhoodPage (root : ℤ) (offset : ℕ) : Except GraphQueryError GraphEnvelope := do
  let t := traverse s q root (q.limit + offset + 1)
  let items ← t.works.mapM (graphItem s)
  return finalizeGraphItems host s q (sortGraphItems host items) t.visited.length
    t.frontier.length offset

def graphNeighborhood (offset : ℕ) : Except GraphQueryError GraphEnvelope := do
  let nodes ← s.resolveGraphSelector q.selector
  match nodes with
  | [] => return { items := [], stats := { depth := q.depth }, hint := "selector not found" }
  | [root] => neighborhoodPage host s q root.nodeID offset
  | nodes =>
    throw (.selectorAmbiguous ((nodes.take 50).map fun n ↦
      { graphNodeItem n 0 with evidenceRefs := s.evidenceRefs fun e ↦ e.nodeID = some n.nodeID }))

/-- The first page, or the page that the cursor of this request continues with. -/
def graphQuery (cursor : Option GraphCursor) : Except GraphQueryError GraphEnvelope :=
  match cursor with
  | none => graphNeighborhood host s q 0
  | some cursor =>
    if cursor = q.cursor s cursor.offset then graphNeighborhood host s q cursor.offset
    else .error .cursorStale

end Query

end MiLsp.Query
