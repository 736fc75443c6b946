import MiLsp.Query.Neighborhood

namespace MiLsp.Query

open MiLsp.Graph Library Attempt Strings

/-- A stored generation with its unresolved claims. Node ids are not negative; a resource id is its
key's. -/
structure ImpactSnapshot extends GraphQuerySnapshot where
  unresolved : List GraphUnresolved
  nodeIDs_nonneg : ∀ n ∈ nodes, 0 ≤ n.nodeID
  nodeKeys : (nodes.map (·.nodeKey)).Nodup
  crossRIDs : ∀ n ∈ nodes, n.crossRID = nodeRID n.nodeKey

inductive GraphImpactMode
  | direct
  | transitive
deriving DecidableEq

structure GraphImpactOmission where
  path : String := ""
  reason : String
  code : String
  candidates : List String := []

/-- A request as `Normalize` leaves it, always inward, with the omission of paths it did not keep.
-/
structure GraphImpactRequest where
  paths : List String
  mode : GraphImpactMode
  depth : ℕ
  limit : ℕ
  tokenBudget : ℕ
  relations : List String
  omissions : List GraphImpactOmission
  warnings : List String
  depth_pos : 1 ≤ depth
  limit_pos : 1 ≤ limit

structure GraphImpactPathStep where
  edgeCrossRID : String
  relation : String
  status : String
  fromCrossRID : String
  toCrossRID : String
  evidenceRefs : List String

structure GraphImpactItem where
  kind : String
  path : String
  generationID : String
  crossRID : String
  nodeKey : String
  display : String
  ownerPath : String
  symbolKind : String
  status : String
  confidenceClass : String
  distance : ℕ
  relation : String
  reason : String
  triggerPath : String
  nodeID : ℤ
  evidencePath : List GraphImpactPathStep
  evidenceRefs : List String

structure ImpactHost where
  toLower : String → String
  jsonSize : GraphImpactItem → ℕ

def maxImpactSeeds : ℕ := 2048

/-- The relations with impact semantics, and whether an impact goes on through them. -/
def graphImpactRelations : List (String × Bool) :=
  [("calls", true), ("imports", true), ("implements", true), ("extends", true), ("tests", false),
    ("route_to_handler", false), ("publishes", false), ("consumes", false), ("reads", false),
    ("writes", false), ("fulfills", true), ("verifies", true), ("affects", true),
    ("supports", true), ("materializes", true), ("supersedes", true), ("experiences", true),
    ("stages", true), ("maps", true), ("grounds_in", true), ("code", true),
    ("doc_mentions", false), ("doc_wikilink", false), ("doc_embed", false),
    ("doc_markdown_link", false), ("doc_id", false), ("doc_hierarchy", false),
    ("doc_related", false), ("doc_depends", false), ("doc_supports", false),
    ("doc_contradicts", false), ("doc_supersedes", false)]

section Seeds

variable (s : ImpactSnapshot) (path : String)

def normalizeImpactPath : String :=
  trimPrefix (trimSpace (path.map fun c ↦ if c = '\\' then '/' else c)) "./"

def canonicalPaths (paths : List String) : List String :=
  ((paths.map normalizeImpactPath).filter (· ≠ "")).dedup.insertionSort
    fun a b ↦ textKey a ≤ textKey b

def seedKey (n : GraphNodeRecord) : List Char ×ₗ List Char ×ₗ List Char :=
  toLex (textKey n.identity.symbolKind, toLex (textKey n.sortKey, textKey (hexString n.nodeKey)))

def ImpactSnapshot.nodesOwnedBy : List GraphNodeRecord :=
  (s.nodes.filter fun n ↦ n.identity.ownerPath = path).insertionSort
    fun a b ↦ seedKey a ≤ seedKey b

structure GraphImpactSeedResolution where
  nodes : List GraphNodeRecord
  omissions : List GraphImpactOmission

def seedBudgetExceeded : GraphImpactOmission where
  path := path
  code := "GPH_IMPACT_BUDGET_EXCEEDED"
  reason := "seed budget exceeded"

/-- For a path without nodes the last of its first unresolved claims decides on reason and code. -/
def ImpactSnapshot.unresolvedSeed : GraphImpactOmission :=
  let rows := ((s.unresolved.filter (·.ownerPath = path)).insertionSort
    fun a b ↦ a.unresolvedID ≤ b.unresolvedID).take 4
  let reason := (rows.getLast?.map (·.reasonCode)).getD ""
  let hint := (rows.getLast?.map (·.recoveryHintCode)).getD ""
  { path
    code := if hint = "" then "GPH_IMPACT_SEED_UNRESOLVED" else hint
    reason := if reason = "" then "owner path has no resolvable graph node" else reason
    candidates := (rows.flatMap (·.candidates)).take 16 }

def ImpactSnapshot.resolveSeed (max : ℕ) (r : GraphImpactSeedResolution) (path : String) :
    GraphImpactSeedResolution :=
  if max ≤ r.nodes.length then { r with omissions := r.omissions ++ [seedBudgetExceeded path] }
  else
    let nodes := (s.nodesOwnedBy path).take (max - r.nodes.length + 1)
    if nodes = [] then { r with omissions := r.omissions ++ [s.unresolvedSeed path] }
    else if max < r.nodes.length + nodes.length then
      { nodes := r.nodes ++ nodes.take (max - r.nodes.length)
        omissions := r.omissions ++ [seedBudgetExceeded path] }
    else { r with nodes := r.nodes ++ nodes }

def ImpactSnapshot.resolveImpactSeeds (paths : List String) (max : ℕ) : GraphImpactSeedResolution :=
  (canonicalPaths paths).foldl (s.resolveSeed max) { nodes := [], omissions := [] }

def impactSeedBudgetOmitted (omissions : List GraphImpactOmission) : Bool :=
  omissions.any (·.code = "GPH_IMPACT_SEED_BUDGET_EXCEEDED")

end Seeds

section Edges

variable (host : ImpactHost) (s : ImpactSnapshot)

def requested (relations : List String) (relation : String) : Bool :=
  relations = [] || relation ∈ relations.map fun r ↦ host.toLower (trimSpace r)

def ImpactSnapshot.edgesInto (relations statuses : List String) (nodes : List ℤ) :
    List GraphEdgeRecord :=
  s.edges.filter fun e ↦
    e.toNodeID ∈ nodes && requested host relations e.relation && e.claimStatus ∈ statuses

def ImpactSnapshot.impactEdgesFromFrontier (frontier : List ℤ) (relations statuses : List String)
    (maxRows : ℕ) : List GraphEdgeRecord :=
  let ids := ((frontier.filter (0 ≤ ·)).dedup.insertionSort (· ≤ ·)).take maxRows
  ((s.edgesInto host relations statuses ids).insertionSort
    fun a b ↦ fetchKey a ≤ fetchKey b).take maxRows

def impactRelationCanTraverse (relation : String) : Bool :=
  (graphImpactRelations.lookup (host.toLower (trimSpace relation))).getD false

def graphImpactStep (edge : GraphEdgeRecord) : Except GraphQueryError GraphImpactPathStep := do
  let source ← orElse .generationMissing (s.node edge.fromNodeID)
  let target ← orElse .generationMissing (s.node edge.toNodeID)
  return {
    edgeCrossRID := edge.crossRID
    relation := edge.relation
    status := edge.claimStatus
    fromCrossRID := source.crossRID
    toCrossRID := target.crossRID
    evidenceRefs := s.evidenceRefs fun e ↦ e.edgeID = some edge.edgeID }

end Edges

def impactPathKey (steps : List GraphImpactPathStep) : List Char :=
  steps.flatMap fun step ↦
    textKey step.relation ++ '\x00' :: (textKey step.fromCrossRID ++ '\x00' ::
      (textKey step.toCrossRID ++ '\x00' :: (textKey step.edgeCrossRID ++ ['\x00'])))

/-- The state of the search. A path is its steps; a seed's path has none. -/
structure ImpactSearch where
  frontier : List ℤ
  visited : List ℤ
  paths : List (ℤ × List GraphImpactPathStep)
  primary : List GraphImpactItem
  inferred : List GraphImpactItem
  next : List ℤ
  depthReached : ℕ

def ImpactSearch.path (t : ImpactSearch) (node : ℤ) : Option (List GraphImpactPathStep) :=
  t.paths.lookup node

section Search

variable (host : ImpactHost) (s : ImpactSnapshot) (q : GraphImpactRequest)

def impactItemFromNode (node : GraphNodeRecord) (distance : ℕ) (edge : GraphEdgeRecord)
    (trigger : String) (path : List GraphImpactPathStep) (refs : List String) :
    GraphImpactItem where
  kind := "node"
  path := node.identity.ownerPath
  generationID := hexString s.generationID
  crossRID := node.crossRID
  nodeKey := hexString node.nodeKey
  display := node.displayName
  ownerPath := node.identity.ownerPath
  symbolKind := node.identity.symbolKind
  status := node.claimStatus
  confidenceClass := confidenceClass edge.claimStatus
  distance := distance
  relation := edge.relation
  reason := "impacted by " ++ edge.relation ++ " relation"
  triggerPath := trigger
  nodeID := node.nodeID
  evidencePath := path
  evidenceRefs := refs

variable (t : ImpactSearch)

def ImpactSearch.itemOf (depth : ℕ) (edge : GraphEdgeRecord) :
    Except GraphQueryError (List GraphImpactPathStep × GraphImpactItem) := do
  let step ← graphImpactStep s edge
  let path := (t.path edge.toNodeID).getD [] ++ [step]
  let node ← orElse .generationMissing (s.node edge.fromNodeID)
  let trigger := ((s.node edge.toNodeID).map (·.identity.ownerPath)).getD ""
  return (path, impactItemFromNode s node depth edge trigger path step.evidenceRefs)

variable (items : List GraphImpactItem)

def putItem (item : GraphImpactItem) : List GraphImpactItem :=
  if items.any (·.crossRID = item.crossRID) then
    items.map fun x ↦ if x.crossRID = item.crossRID then item else x
  else items ++ [item]

def ImpactSearch.settled (node : ℤ) (path : List GraphImpactPathStep) : Bool :=
  match t.path node with
  | some old => impactPathKey old ≠ [] && impactPathKey old ≤ impactPathKey path
  | none => false

def ImpactSearch.record (edge : GraphEdgeRecord)
    (path : List GraphImpactPathStep) (item : GraphImpactItem) : ImpactSearch :=
  let target := edge.fromNodeID
  let goesOn := impactRelationCanTraverse host edge.relation ∧ target ∉ t.visited
  { t with
    paths := (target, path) :: t.paths
    visited := if goesOn then t.visited ++ [target] else t.visited
    next := if goesOn then t.next ++ [target] else t.next
    primary := putItem t.primary item }

variable (depth : ℕ) (t : ImpactSearch)

def ImpactSearch.visitPrimary (edge : GraphEdgeRecord) : Except GraphQueryError ImpactSearch := do
  let (path, item) ← t.itemOf s depth edge
  return if t.settled edge.fromNodeID path then t else t.record host edge path item

def ImpactSearch.visitInferred (edge : GraphEdgeRecord) : Except GraphQueryError ImpactSearch := do
  let (_, item) ← t.itemOf s depth edge
  return if t.inferred.any (·.crossRID = item.crossRID) then t
    else { t with inferred := t.inferred ++ [item] }

def ImpactSearch.primaryEdges : List GraphEdgeRecord :=
  s.impactEdgesFromFrontier host t.frontier q.relations ["exact", "extracted"] q.limit

def ImpactSearch.inferredEdges : List GraphEdgeRecord :=
  s.impactEdgesFromFrontier host t.frontier q.relations ["inferred"] q.limit

def ImpactSearch.level : Except GraphQueryError ImpactSearch := do
  let found ← (t.primaryEdges host s q).foldlM (ImpactSearch.visitPrimary host s depth)
    { t with next := [] }
  let found ← (t.inferredEdges host s q).foldlM (ImpactSearch.visitInferred s depth) found
  return { found with depthReached := depth }

def uniqueImpactInts (values : List ℤ) : List ℤ := values.dedup.insertionSort (· ≤ ·)

def ImpactSearch.levels : ℕ → ℕ → ImpactSearch → Except GraphQueryError (ImpactSearch × Bool)
  | 0, _, t => .ok (t, false)
  | n + 1, depth, t =>
    if t.frontier = [] then .ok (t, false)
    else do
      let found ← t.level host s q depth
      if q.mode = .direct then return (found, false)
      else
        let found := { found with frontier := uniqueImpactInts found.next }
        if n = 0 ∧ found.frontier ≠ [] then return (found, true)
        else found.levels n (depth + 1)

def GraphImpactRequest.maxDepth : ℕ :=
  match q.mode with
  | .direct => 1
  | .transitive => q.depth

def impactStart (seeds : List GraphNodeRecord) : ImpactSearch :=
  let ids := (seeds.map (·.nodeID)).dedup
  { frontier := ids
    visited := ids
    paths := ids.map fun id ↦ (id, [])
    primary := []
    inferred := []
    next := []
    depthReached := 0 }

def impactClaimRank (confidence : String) : ℕ := claimRank confidence

def impactItemKey (item : GraphImpactItem) :
    ℕ ×ₗ ℕ ×ₗ List Char ×ₗ List Char ×ₗ List Char ×ₗ List Char :=
  toLex (item.distance, toLex (impactClaimRank item.confidenceClass,
    toLex (textKey item.relation, toLex (textKey (host.toLower item.display),
      toLex (textKey item.display, textKey item.nodeKey)))))

def sortImpactItems : List GraphImpactItem :=
  items.insertionSort fun a b ↦ impactItemKey host a ≤ impactItemKey host b

def admitImpact : ℕ → ℕ → List GraphImpactItem → List GraphImpactItem × ℕ
  | _, units, [] => ([], units)
  | count, units, item :: rest =>
    let n := (host.jsonSize item + 3) / 4
    if q.limit ≤ count ∨ units + n > q.tokenBudget ∧ 0 < count then ([], units)
    else
      let admitted := admitImpact (count + 1) (units + n) rest
      (item :: admitted.1, admitted.2)

structure ImpactPage where
  primary : List GraphImpactItem
  inferred : List GraphImpactItem
  units : ℕ
  truncated : Bool
  nextOffset : ℕ

def applyImpactBudget (primary inferred : List GraphImpactItem) (offset : ℕ) : ImpactPage :=
  let all := primary ++ inferred
  let offset := min offset all.length
  let selected := admitImpact host q 0 0 (all.drop offset)
  let primaryCount := min (offset + selected.1.length) primary.length - offset
  { primary := selected.1.take primaryCount
    inferred := selected.1.drop primaryCount
    units := selected.2
    truncated := offset + selected.1.length < all.length
    nextOffset := offset + selected.1.length }

structure GraphImpactStats where
  seeds : ℕ := 0
  visited : ℕ := 0
  frontier : ℕ := 0
  returned : ℕ := 0
  inferred : ℕ := 0
  depthReached : ℕ := 0
  tokenUnits : ℕ := 0
  unresolved : ℤ

structure GraphImpactEnvelope where
  items : List GraphImpactItem := []
  inferred : List GraphImpactItem := []
  omissions : List GraphImpactOmission
  stats : GraphImpactStats
  truncated : Bool
  warnings : List String
  continuation : Option ℕ := none

def appendStringIfMissing (values : List String) (value : String) : List String :=
  if value ∈ values then values else values ++ [value]

def graphImpact (offset : ℕ) : Except GraphQueryError GraphImpactEnvelope := do
  let seeds := s.resolveImpactSeeds q.paths maxImpactSeeds
  let seedTruncated :=
    impactSeedBudgetOmitted q.omissions || impactSeedBudgetOmitted seeds.omissions
  let omissions := q.omissions ++ seeds.omissions ++
    if q.paths = [] then
      [{ code := "GPH_IMPACT_SEED_UNRESOLVED"
         reason := "at least one changed owner path is required" }]
    else []
  let warnings :=
    if seedTruncated then
      appendStringIfMissing q.warnings
        "impact seed resolution was bounded; omitted seeds were not traversed"
    else q.warnings
  if seeds.nodes = [] then
    return {
      omissions
      warnings
      truncated := seedTruncated
      stats := { unresolved := s.unresolvedCount } }
  else
    let start := impactStart seeds.nodes
    let (found, depthTruncated) ← start.levels host s q q.maxDepth 1
    let page := applyImpactBudget host q (sortImpactItems host found.primary)
      (sortImpactItems host found.inferred) offset
    let truncated := page.truncated || depthTruncated || seedTruncated
    return {
      items := page.primary
      inferred := page.inferred
      omissions
      truncated
      stats :=
        { seeds := start.frontier.length
          visited := found.visited.length
          frontier := found.frontier.length
          returned := page.primary.length
          inferred := page.inferred.length
          depthReached := found.depthReached
          tokenUnits := page.units
          unresolved := s.unresolvedCount }
      warnings :=
        if truncated then
          appendStringIfMissing warnings
            "impact result truncated by limit or token budget; coverage is not complete"
        else warnings
      continuation := if page.truncated then some page.nextOffset else none }

end Search

end MiLsp.Query
