import MiLsp.Graph.Store

namespace MiLsp.Graph

open Library Attempt

variable (host : GraphHost)

def graphGenerationAncestryMaxDepth : ℕ := 1024

def identityCanonical (identity : String) : Bool :=
  (normalizeRepositoryIdentity host identity).toOption = some identity

variable (s : GraphStore)

/-- An ancestor has to validate on its own, in either framing of its content. -/
def validateGraphGenerationAncestryRecord (id : GraphDigest)
    (workspaceIdentity : String) (generation : GraphGeneration) : Except GraphError Unit := do
  if generation.workspaceIdentity ≠ workspaceIdentity then throw .generationCorrupt
  if generation.schemaVersion ≠ 1 ||
      generation.repositoryIdentity ≠ generation.workspaceIdentity then throw .generationCorrupt
  if !identityCanonical host generation.workspaceIdentity then throw .generationCorrupt
  match validateGraphGenerationWithMode host s id .current with
  | .ok _ => return
  | .error _ =>
    let _ ← orInvalid .generationCorrupt (validateGraphGenerationWithMode host s id .legacy)

/-- The checks of one generation. The one a walk starts from need not be published yet. -/
def checkAncestor (workspaceIdentity : String) (first : Bool)
    (current : GraphDigest) : Except GraphError GraphGeneration := do
  let generation ← orInvalid .generationCorrupt (loadGeneration s current)
  if generation.workspaceIdentity ≠ workspaceIdentity then throw .generationCorrupt
  if !first then
    if generation.status ≠ .active && generation.status ≠ .retired then throw .generationCorrupt
    validateGraphGenerationAncestryRecord host s current workspaceIdentity generation
  return generation

/-- The walk along predecessors; `replacement` stands for the first one's, and the number bounds it.
-/
def walkGraphGenerationAncestry (s : GraphStore) (workspaceIdentity : String) :
    ℕ → List GraphDigest → Option (Option GraphDigest) → GraphDigest → Except GraphError Unit
  | 0, _, _, _ => .error .generationCorrupt
  | depth + 1, seen, replacement, current => do
    if current ∈ seen then throw .generationCorrupt
    let generation ← checkAncestor host s workspaceIdentity seen.isEmpty current
    match replacement.getD generation.previousGenerationID with
    | none => return
    | some previous =>
      if previous = zeroDigest then throw .generationCorrupt
      walkGraphGenerationAncestry s workspaceIdentity depth (current :: seen) none previous

def validateGraphGenerationAncestry (id : GraphDigest) (targetWorkspaceIdentity : String)
    (replacement : Option (Option GraphDigest)) : Except GraphError Unit := do
  if !identityCanonical host targetWorkspaceIdentity then throw .generationCorrupt
  walkGraphGenerationAncestry host s targetWorkspaceIdentity graphGenerationAncestryMaxDepth [] none
    id
  match replacement with
  | none => return
  | some _ =>
    walkGraphGenerationAncestry host s targetWorkspaceIdentity graphGenerationAncestryMaxDepth []
      replacement id

variable (g : GraphGeneration)

def isActivePrior : Bool :=
  g.status = .active && g.schemaVersion = 1 && g.repositoryIdentity = g.workspaceIdentity &&
    identityCanonical host g.workspaceIdentity

/-- The framing without provenance is accepted only against an expected prior. -/
def validateActiveGraphPriorForReplacement (activePointer : GraphDigest)
    (expectedPrior : Option GraphDigest) (activeRows : ℕ) : Except GraphError Unit := do
  if activeRows ≠ 1 then throw .pointerConflict
  if expectedPrior.any (· ≠ activePointer) then throw .pointerConflict
  let valid (mode : GraphContentValidationMode) : Bool :=
    (validateGraphGenerationWithMode host s activePointer mode).toOption.any (isActivePrior host)
  if !valid .current && (expectedPrior.isNone || !valid .legacy) then throw .pointerConflict

def GraphStore.activeRows : ℕ := s.generations.count fun g ↦ g.status = .active

def retirePrior (generations : Table GraphGeneration.generationID) :
    Option GraphDigest → Option (Table GraphGeneration.generationID)
  | none => some generations
  | some old =>
    generations.updateOne (fun row ↦ row.generationID = old && row.status = .active)
      (fun row ↦ { row with status := .retired }) (GraphGeneration.generationID_setStatus .retired)

variable (old : Option GraphDigest)

def GraphGeneration.activated (publishedAt : Time) (row : GraphGeneration) : GraphGeneration :=
  { row with
    status := .active
    publishedAt := some publishedAt
    previousGenerationID := if g.status = .staged then old else row.previousGenerationID }

def GraphStore.switchActive (g : GraphGeneration) (old : Option GraphDigest)
    (publishedAt : Time) : Except GraphError GraphStore := do
  let generations ← orElse .pointerConflict (retirePrior s.generations old)
  if generations.rows.any fun row ↦
      row.status = .active && row.workspaceIdentity = g.workspaceIdentity then throw .constraint
  let generations ← orElse .pointerConflict
    (generations.updateOne (fun row ↦ row.generationID = g.generationID && row.status = g.status)
      (g.activated old publishedAt) fun _ ↦ rfl)
  return { s with generations, previous := old, active := some g.generationID }

def checkActiveRows (activeRows : ℕ) : Except GraphError Unit :=
  if activeRows = (if old.isSome then 1 else 0) then .ok () else .error .pointerConflict

def checkPrior (g : GraphGeneration) (old expectedPrior : Option GraphDigest) :
    Except GraphError Unit := do
  checkActiveRows old s.activeRows
  if let some old := old then
    validateActiveGraphPriorForReplacement host s old expectedPrior s.activeRows
    validateGraphGenerationAncestry host s old g.workspaceIdentity none

/-- A staged generation is also checked with the prior one as its predecessor. -/
def proposedAncestry : Option (Option GraphDigest) :=
  if g.status = .staged then some old else none

def activateGraphGenerationAt (id : GraphDigest)
    (expectedPrior : Option GraphDigest) (publishedAt : Time) : Except GraphError GraphStore := do
  if publishedAt = 0 then throw .generationInvalid
  let g ← validateGraphGenerationConn host s id
  let old := s.active
  if expectedPrior ≠ old then throw .pointerConflict
  checkPrior host s g old expectedPrior
  match g.status with
  | .active =>
    if old ≠ some id then throw .pointerConflict
    validateGraphGenerationAncestry host s id g.workspaceIdentity none
    return s
  | .invalid => throw .generationInvalid
  | .staged | .retired =>
    validateGraphGenerationAncestry host s id g.workspaceIdentity (proposedAncestry g old)
    s.switchActive g old publishedAt

/-- A missing pointer is read off a single active row, unless a prior is expected. -/
def repairedPointer (expectedPrior : Option GraphDigest) : Option GraphDigest :=
  if s.active = none ∧ s.activeRows = 1 ∧ expectedPrior = none then
    (s.generations.rows.find? fun row ↦ row.status = .active).map (·.generationID)
  else s.active

def activateGraphGenerationTx (id : GraphDigest)
    (expectedPrior : Option GraphDigest) (publishedAt : Time) : Except GraphError GraphStore := do
  if publishedAt = 0 then throw .generationInvalid
  let g ← validateGraphGenerationConn host s id
  if g.status = .active && s.active = some id then
    validateActiveGraphPriorForReplacement host s id expectedPrior s.activeRows
    validateGraphGenerationAncestry host s id g.workspaceIdentity none
    return s
  let old := repairedPointer s expectedPrior
  if expectedPrior.isSome && expectedPrior ≠ old ||
      expectedPrior.isNone && old.isNone && s.activeRows ≠ 0 then throw .pointerConflict
  checkPrior host s g old expectedPrior
  if g.status ≠ .staged && g.status ≠ .retired then throw .generationInvalid
  validateGraphGenerationAncestry host s id g.workspaceIdentity (proposedAncestry g old)
  s.switchActive g old publishedAt

end MiLsp.Graph
