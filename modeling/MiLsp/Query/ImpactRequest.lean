import MiLsp.Query.ImpactCompleteness

namespace MiLsp.Query

open MiLsp.Graph Library Attempt Strings

inductive GraphImpactError
  | relationUnsupported (field message : String)
  | budgetInvalid (field message : String)
  | cursorStale (message : String)
  | graphStale (message : String)
  | query (cause : GraphQueryError)

/-- Lower case works character by character, settles at once, and keeps white space apart. -/
structure ImpactRequestHost extends ImpactHost where
  toLower_toLower : ∀ s, toLower (toLower s) = toLower s
  trimSpace_toLower : ∀ s, trimSpace (toLower s) = toLower (trimSpace s)
  toLower_plain : ∀ s : String, (s.toList.all fun c ↦ c.val < 128 && !c.isUpper) = true →
    toLower s = s

/-- The request that a cursor goes on with, from an offset, and its digest. -/
structure GraphImpactCursor (δ : Type) where
  generation : String
  operation : String := "nav.graph-impact"
  paths : List String
  mode : String
  depth : ℤ
  limit : ℤ
  token : ℤ
  direction : String
  relations : List String
  includeTests : Bool
  includeDocs : Bool
  offset : ℤ
  requestDigest : δ

/-- What a cursor's text is read as; an emitted one is read as itself. -/
inductive CursorText (δ : Type)
  | absent
  | unreadable
  | decoded (cursor : GraphImpactCursor δ)

structure ImpactRequest (δ : Type) where
  generation : String := ""
  paths : List String := []
  changedPaths : List String := []
  mode : String := ""
  depth : ℤ := 0
  limit : ℤ := 0
  tokenBudget : ℤ := 0
  direction : String := ""
  relations : List String := []
  includeTests : Bool := false
  includeDocs : Bool := false
  cursor : CursorText δ := .absent

section Paths

structure SeedPaths where
  kept : List String := []
  overflow : Bool := false

def insertPath (path : String) (kept : List String) : List String :=
  kept.orderedInsert (fun a b ↦ textKey a ≤ textKey b) path

def SeedPaths.add (t : SeedPaths) (raw : String) : SeedPaths :=
  let path := normalizeImpactPath raw
  if path = "" ∨ path ∈ t.kept then t
  else if t.kept.length < maxImpactSeeds then { t with kept := insertPath path t.kept }
  else if t.kept.getLast?.any fun last ↦ textKey last ≤ textKey path then
    { t with overflow := true }
  else { kept := insertPath path t.kept.dropLast, overflow := true }

def boundedImpactSeedPaths (paths changedPaths : List String) : SeedPaths :=
  (paths ++ changedPaths).foldl SeedPaths.add {}

end Paths

section Normalize

variable (host : ImpactRequestHost) {δ : Type}

def normalizeDirection (direction : String) : Except GraphImpactError Unit :=
  let direction := host.toLower (trimSpace direction)
  if direction = "" ∨ direction = "in" then .ok ()
  else .error (.relationUnsupported "direction"
    "impact semantics only support inbound dependency edges")

def normalizeMode (mode : String) : Except GraphImpactError GraphImpactMode :=
  let mode := host.toLower (trimSpace mode)
  if mode = "" ∨ mode = "direct" then .ok .direct
  else if mode = "transitive" then .ok .transitive
  else .error (.budgetInvalid "mode" "mode must be direct or transitive")

theorem one_le_toNat {n : ℤ} {max : ℕ} (h : ¬(n < 1 ∨ max < n)) : 1 ≤ n.toNat := by omega

def withDefault (fallback : ℕ) (value : ℤ) : ℤ := if value = 0 then fallback else value

def normalizeBudget (field message : String) (fallback max : ℕ) (value : ℤ) :
    Except GraphImpactError { n : ℕ // 1 ≤ n } :=
  if h : withDefault fallback value < 1 ∨ max < withDefault fallback value then
    .error (.budgetInvalid field message)
  else .ok ⟨(withDefault fallback value).toNat, one_le_toNat h⟩

def normalizeDepth : ℤ → Except GraphImpactError { n : ℕ // 1 ≤ n } :=
  normalizeBudget "depth" "depth is outside the allowed range" 1 6

def normalizeLimit : ℤ → Except GraphImpactError { n : ℕ // 1 ≤ n } :=
  normalizeBudget "limit" "limit is outside the allowed range" 50 500

def normalizeToken : ℤ → Except GraphImpactError { n : ℕ // 1 ≤ n } :=
  normalizeBudget "token_budget" "token budget is outside the allowed range" 4000 20000

def documentRelations : List String :=
  ["fulfills", "verifies", "affects", "supports", "materializes", "supersedes", "experiences",
    "stages", "maps", "grounds_in", "code", "doc_mentions", "doc_wikilink", "doc_embed",
    "doc_markdown_link", "doc_id", "doc_hierarchy", "doc_related", "doc_depends", "doc_supports",
    "doc_contradicts", "doc_supersedes"]

variable (includeTests includeDocs : Bool)

def defaultRelations : List String :=
  (graphImpactRelations.map Prod.fst).filter fun relation ↦
    (includeDocs || relation ∉ documentRelations) && (includeTests || relation ≠ "tests")

variable (relations : List String)

def addRelation (raw : String) : Except GraphImpactError (List String) :=
  let relation := host.toLower (trimSpace raw)
  if relation = "" then .ok relations
  else if graphImpactRelations.lookup (host.toLower (trimSpace relation)) = none then
    .error (.relationUnsupported "edge" "relation has no impact semantics")
  else .ok (if relation ∈ relations then relations else relations ++ [relation])

def normalizeRelations : Except GraphImpactError (List String) := do
  let named ← relations.foldlM (addRelation host) []
  return (if named = [] then defaultRelations includeTests includeDocs else named).insertionSort
    fun a b ↦ textKey a ≤ textKey b

structure NormalizedImpact where
  generation : String
  includeTests : Bool
  includeDocs : Bool
  request : GraphImpactRequest

def seedOverflowOmission : GraphImpactOmission where
  reason := "normalized seed input exceeded the explicit bounded seed limit before ordering"
  code := "GPH_IMPACT_SEED_BUDGET_EXCEEDED"

def seedOverflowWarning : String :=
  "impact seed input was bounded before ordering; omitted seed paths were not traversed"

def ImpactRequest.normalize (r : ImpactRequest δ) : Except GraphImpactError NormalizedImpact := do
  normalizeDirection host r.direction
  let mode ← normalizeMode host r.mode
  let depth ← normalizeDepth r.depth
  let limit ← normalizeLimit r.limit
  let token ← normalizeToken r.tokenBudget
  let relations ← normalizeRelations host r.includeTests r.includeDocs r.relations
  let seeds := boundedImpactSeedPaths r.paths r.changedPaths
  return {
    generation := trimSpace r.generation
    includeTests := r.includeTests
    includeDocs := r.includeDocs
    request :=
      { paths := seeds.kept
        mode
        depth := depth.1
        limit := limit.1
        tokenBudget := token.1
        relations
        omissions := if seeds.overflow then [seedOverflowOmission] else []
        warnings := if seeds.overflow then [seedOverflowWarning] else []
        depth_pos := depth.2
        limit_pos := limit.2 } }

end Normalize

section Answer

structure ImpactKey where
  generation : String
  paths : List String
  mode : GraphImpactMode
  depth : ℕ
  limit : ℕ
  tokenBudget : ℕ
  relations : List String
  includeTests : Bool
  includeDocs : Bool
deriving DecidableEq

def NormalizedImpact.key (q : NormalizedImpact) : ImpactKey where
  generation := q.generation
  paths := q.request.paths
  mode := q.request.mode
  depth := q.request.depth
  limit := q.request.limit
  tokenBudget := q.request.tokenBudget
  relations := q.request.relations
  includeTests := q.includeTests
  includeDocs := q.includeDocs

/-- The generations of the graph that can be read, one of which is active. -/
structure ImpactStore where
  stale : Bool
  active : Option GraphDigest
  generations : List ImpactSnapshot

variable (db : ImpactStore)

def ImpactStore.generation (id : GraphDigest) : Option ImpactSnapshot :=
  db.generations.find? (·.generationID = id)

def ImpactStore.named (name : String) : Option ImpactSnapshot :=
  db.generations.find? (hexString ·.generationID = name)

def ImpactStore.beginGraphQuerySnapshot (generation : String) :
    Except GraphImpactError ImpactSnapshot :=
  if db.stale then .error (.graphStale "graph catalog is stale")
  else orElse (.query .generationMissing)
    (if trimSpace generation = "" then db.active.bind db.generation
      else db.named (trimSpace generation))

variable {δ : Type} [DecidableEq δ]

def GraphImpactMode.text : GraphImpactMode → String
  | .direct => "direct"
  | .transitive => "transitive"

variable (r : ImpactRequest δ)

def ImpactRequest.fill (c : GraphImpactCursor δ) : ImpactRequest δ :=
  { r with
    paths := if r.paths = [] ∧ r.changedPaths = [] then c.paths else r.paths
    changedPaths := if r.paths = [] ∧ r.changedPaths = [] then c.paths else r.changedPaths
    generation := if r.generation = "" then c.generation else r.generation
    mode := if r.mode = "" then c.mode else r.mode
    depth := if r.depth = 0 then c.depth else r.depth
    limit := if r.limit = 0 then c.limit else r.limit
    tokenBudget := if r.tokenBudget = 0 then c.token else r.tokenBudget
    direction := if r.direction = "" then c.direction else r.direction
    relations := if r.relations = [] then c.relations else r.relations
    includeTests := c.includeTests
    includeDocs := c.includeDocs }

def decodeGraphImpactCursor : CursorText δ → Except GraphImpactError (Option (GraphImpactCursor δ))
  | .absent => .ok none
  | .unreadable => .error (.cursorStale "impact cursor is invalid or stale")
  | .decoded c =>
    if c.offset < 0 ∨ c.operation ≠ "nav.graph-impact" ∨ maxImpactSeeds < c.paths.length then
      .error (.cursorStale "impact cursor is invalid or stale")
    else .ok (some c)

def ImpactRequest.resume : Option (GraphImpactCursor δ) → Except GraphImpactError (ImpactRequest δ)
  | none => .ok r
  | some c =>
    if r.generation ≠ "" ∧ c.generation ≠ trimSpace r.generation then
      .error (.cursorStale "impact cursor generation does not match request")
    else .ok (r.fill c)

variable (host : ImpactRequestHost) (digest : ImpactKey → δ) (db : ImpactStore)

def checkCursor (q : NormalizedImpact) : Option (GraphImpactCursor δ) → Except GraphImpactError ℕ
  | none => .ok 0
  | some c =>
    if c.generation ≠ q.generation ∨ c.requestDigest ≠ digest q.key then
      .error (.cursorStale "impact cursor parameters do not match request")
    else .ok c.offset.toNat

def NormalizedImpact.cursor (q : NormalizedImpact) (offset : ℕ) : GraphImpactCursor δ where
  generation := q.generation
  paths := q.request.paths
  mode := q.request.mode.text
  depth := q.request.depth
  limit := q.request.limit
  token := q.request.tokenBudget
  direction := "in"
  relations := q.request.relations
  includeTests := q.includeTests
  includeDocs := q.includeDocs
  offset := offset
  requestDigest := digest q.key

structure ImpactAnswer (δ : Type) where
  envelope : GraphImpactEnvelope
  next : Option (GraphImpactCursor δ)

/-- What a request asks for: a generation, the request with its defaults and the offset. -/
structure ImpactAccess where
  snapshot : ImpactSnapshot
  query : NormalizedImpact
  offset : ℕ

def ImpactRequest.access (r : ImpactRequest δ) : Except GraphImpactError ImpactAccess := do
  let cursor ← decodeGraphImpactCursor r.cursor
  let resumed ← r.resume cursor
  let q ← resumed.normalize host
  let snapshot ← db.beginGraphQuerySnapshot q.generation
  let offset ← checkCursor digest { q with generation := hexString snapshot.generationID } cursor
  return ⟨snapshot, { q with generation := hexString snapshot.generationID }, offset⟩

def graphImpactRequest (r : ImpactRequest δ) : Except GraphImpactError (ImpactAnswer δ) := do
  let a ← r.access host digest db
  let envelope ← (graphImpact host.toImpactHost a.snapshot a.query.request a.offset).mapError .query
  return ⟨envelope, envelope.continuation.map (a.query.cursor digest)⟩

end Answer

end MiLsp.Query
