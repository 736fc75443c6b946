import MiLsp.Graph.Activation

namespace MiLsp.Graph

open Library Strings Attempt

inductive GraphCompatibilityState
  | legacyPreservedNoDualWrite
  | dualReadWrite
  | graphAuthoritative
deriving DecidableEq

namespace GraphCompatibilityState

def text : GraphCompatibilityState → String
  | legacyPreservedNoDualWrite => "legacy-preserved-no-dual-write"
  | dualReadWrite => "dual-read-write"
  | graphAuthoritative => "graph-authoritative"

def ofText? (state : String) : Option GraphCompatibilityState :=
  [legacyPreservedNoDualWrite, dualReadWrite, graphAuthoritative].find? (·.text = state)

def allowed : GraphCompatibilityState → GraphCompatibilityState → Bool
  | legacyPreservedNoDualWrite, dualReadWrite => true
  | dualReadWrite, graphAuthoritative => true
  | dualReadWrite, legacyPreservedNoDualWrite => true
  | _, _ => false

end GraphCompatibilityState

inductive GraphMigrationStatus
  | prepared
  | applying
  | validated
  | committed
  | rolledBack
  | failed
deriving DecidableEq

structure GraphMigration where
  status : GraphMigrationStatus
  priorActiveGenerationID : Option GraphDigest

def GraphMigration.pending (m : GraphMigration) : Bool :=
  m.status = .prepared || m.status = .applying || m.status = .validated

/-- The graph tables with the compatibility mode and the migrations of the workspace. -/
structure GraphWorkspace where
  graph : GraphStore
  compatibility : Option GraphCompatibilityState
  migrations : List GraphMigration

def GraphWorkspace.empty (migrations : List GraphMigration) : GraphWorkspace :=
  ⟨.empty, some .legacyPreservedNoDualWrite, migrations⟩

/-- The text an instant is stored as, and the order of a query without `ORDER BY`. -/
structure GraphDriver where
  rfc3339 : Time → String
  scan : List GraphDigest → List GraphDigest

section Transition

/-- The legacy mode retires the active generation and clears both pointers. -/
def GraphStore.retireActive (s : GraphStore) : Except GraphError GraphStore := do
  if s.activeRows ≠ (if s.active.isSome then 1 else 0) then throw .compatibilityConflict
  let generations := s.generations.update (fun row ↦ row.status = .active)
    (fun row ↦ { row with status := .retired }) (GraphGeneration.generationID_setStatus .retired)
  return { s with generations, active := none, previous := none }

def GraphStore.enter (s : GraphStore) (next : GraphCompatibilityState) :
    Except GraphError GraphStore :=
  if next = .legacyPreservedNoDualWrite then s.retireActive else .ok s

def transitionGraphCompatibilityState (w : GraphWorkspace) (expected next : String) :
    Except GraphError GraphWorkspace := do
  let some expected := GraphCompatibilityState.ofText? expected | throw .migrationTransition
  let some next := GraphCompatibilityState.ofText? next | throw .migrationTransition
  if !expected.allowed next then throw .migrationTransition
  if w.compatibility = none then throw .noRows
  if w.compatibility ≠ some expected then throw .compatibilityConflict
  let graph ← w.graph.enter next
  return { w with graph, compatibility := some next }

end Transition

section Rollback

variable (host : GraphHost)

def GraphGeneration.restored (publishedAt : Time) (row : GraphGeneration) : GraphGeneration :=
  { row with status := .active, publishedAt := some publishedAt, previousGenerationID := none }

variable (s : GraphStore) (target : GraphGeneration)

def GraphStore.switchBack (publishedAt : Time) : Except GraphError GraphStore := do
  let generations ← orElse .pointerConflict (retirePrior s.generations s.active)
  if generations.rows.any fun row ↦
      row.status = .active && row.workspaceIdentity = target.workspaceIdentity then
    throw .constraint
  let generations ← orElse .pointerConflict
    (generations.updateOne
      (fun row ↦ row.generationID = target.generationID && row.status = .retired)
      (GraphGeneration.restored publishedAt) fun _ ↦ rfl)
  if (generations.count fun row ↦ row.status = .active) ≠ 1 then throw .pointerConflict
  return { s with generations, active := some target.generationID, previous := s.active }

/-- A retry of a committed rollback succeeds while both pointers describe it. -/
def rolledBack (expectedCurrent : Option GraphDigest) : Bool :=
  target.status = .active && expectedCurrent.isSome && s.active = some target.generationID &&
    s.previous = expectedCurrent

def restorePrevious (currentID : GraphDigest)
    (publishedAt : Time) : Except GraphError GraphStore := do
  let current ← orInvalid .pointerConflict (validateGraphGenerationConn host s currentID)
  if current.status ≠ .active then throw .pointerConflict
  if target.status = .active then throw .pointerConflict
  if s.previous ≠ some target.generationID then throw .pointerConflict
  s.switchBack target publishedAt

def rollbackGraphGenerationAt (id : GraphDigest)
    (expectedCurrent : Option GraphDigest) (publishedAt : Time) : Except GraphError GraphStore := do
  if publishedAt = 0 then throw .generationInvalid
  let target ← validateGraphGenerationConn host s id
  if target.status ≠ .retired && target.status ≠ .active then throw .generationInvalid
  match s.active with
  | none => throw .pointerConflict
  | some currentID =>
    if expectedCurrent = some currentID then restorePrevious host s target currentID publishedAt
    else if rolledBack s target expectedCurrent then return s
    else throw .pointerConflict

end Rollback

section Cleanup

variable (driver : GraphDriver)

def GraphGeneration.eligible (workspaceIdentity : String) (cutoff : Time) (row : GraphGeneration) :
    Bool :=
  row.workspaceIdentity = workspaceIdentity && (row.status = .invalid || row.status = .retired) &&
    driver.rfc3339 row.createdAt < driver.rfc3339 cutoff

variable (s : GraphStore)

def GraphStore.deleteGeneration (p : GraphGeneration → Bool) (id : GraphDigest) : GraphStore :=
  if (s.generations.find? id).any p then
    { s with
      generations := s.generations.delete fun row ↦ row.generationID = id
      rows :=
        { nodes := s.rows.nodes.filter (·.generationID ≠ id)
          edges := s.rows.edges.filter (·.generationID ≠ id)
          evidence := s.rows.evidence.filter (·.generationID ≠ id)
          unresolved := s.rows.unresolved.filter (·.generationID ≠ id) } }
  else s

variable (migrations : List GraphMigration)

/-- A generation that a pointer, a successor or a migration still names is kept. -/
def GraphStore.needs (id : GraphDigest) : Bool :=
  s.active = some id || s.previous = some id ||
    (s.generations.rows.any fun row ↦ row.previousGenerationID = some id) ||
    migrations.any fun m ↦ m.priorActiveGenerationID = some id

def GraphStore.cleanupOne (p : GraphGeneration → Bool) (id : GraphDigest) : GraphStore :=
  if s.needs migrations id then s else s.deleteGeneration p id

def cleanupGraphGenerations (w : GraphWorkspace) (workspaceIdentity : String) (cutoff : Time) :
    Except GraphError GraphWorkspace := do
  if trimSpace workspaceIdentity = "" || cutoff = 0 then throw .generationInvalid
  let staged := w.graph.generations.count fun row ↦
    row.workspaceIdentity = workspaceIdentity && row.status = .staged
  if w.migrations.any GraphMigration.pending || staged ≠ 0 then throw .crashRecoveryRequired
  let p := GraphGeneration.eligible driver workspaceIdentity cutoff
  let candidates := driver.scan ((w.graph.generations.rows.filter p).map (·.generationID))
  return { w with graph := candidates.foldl (fun s id ↦ s.cleanupOne w.migrations p id) w.graph }

end Cleanup

inductive GraphCall
  | stage (b : GraphBundle)
  | activateAt (id : GraphDigest) (expectedPrior : Option GraphDigest) (publishedAt : Time)
  | activateTx (id : GraphDigest) (expectedPrior : Option GraphDigest) (publishedAt : Time)
  | rollbackAt (id : GraphDigest) (expectedCurrent : Option GraphDigest) (publishedAt : Time)
  | transition (expected next : String)
  | cleanup (workspaceIdentity : String) (cutoff : Time)

namespace GraphCall

variable (host : GraphHost) (driver : GraphDriver) (w : GraphWorkspace)

def onGraph (x : Except GraphError GraphStore) : Except GraphError GraphWorkspace :=
  x.map fun graph ↦ { w with graph }

def eval : GraphCall → Except GraphError GraphWorkspace
  | stage b => onGraph w (stageGraphGenerationConn host w.graph b)
  | activateAt id expectedPrior publishedAt =>
    onGraph w (activateGraphGenerationAt host w.graph id expectedPrior publishedAt)
  | activateTx id expectedPrior publishedAt =>
    onGraph w (activateGraphGenerationTx host w.graph id expectedPrior publishedAt)
  | rollbackAt id expectedCurrent publishedAt =>
    onGraph w (rollbackGraphGenerationAt host w.graph id expectedCurrent publishedAt)
  | transition expected next => transitionGraphCompatibilityState w expected next
  | cleanup workspaceIdentity cutoff => cleanupGraphGenerations driver w workspaceIdentity cutoff

def run (call : GraphCall) : Option GraphError × GraphWorkspace :=
  match call.eval host driver w with
  | .ok w' => (none, w')
  | .error e => (some e, w)

def runAll (calls : List GraphCall) : GraphWorkspace :=
  calls.foldl (fun w call ↦ (call.run host driver w).2) w

end GraphCall

end MiLsp.Graph
