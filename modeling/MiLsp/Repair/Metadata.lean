import MiLsp.Incremental.Paths
import MiLsp.Library.Session
import MiLsp.Registry.Model

namespace MiLsp.Repair

open Incremental Library Entries Session Strings Registry

inductive FileOp
  | lock
  | home
  | stat
  | randomName
  | createTemp
  | read
  | write
  | sync
  | chmod
  | close
  | rename
deriving DecidableEq

inductive Cause
  /-- Unsupported TOML or file shape. -/
  | unsupported
  | notConfigured
  | unavailable
  | registrationChanged
  | rootChanged
  | readback
  | encode
  | file (op : FileOp)
deriving DecidableEq

inductive RepairError
  | plain (causes : List Cause)
  | partialMutation (causes : List Cause) (recoveryPaths : List String)

structure ProjectBlock where
  name : String
  languages : Slice String
  kind : String
  defaultRepo : String
  defaultEntrypoint : String
deriving DecidableEq, Inhabited

structure WorkspaceRepo where
  id : String
  name : String
  root : String
  repositoryIdentity : String
  languages : Slice String
  defaultEntrypoint : String
deriving DecidableEq

structure ProjectFile where
  project : ProjectBlock
  repos : Slice WorkspaceRepo
  /-- The blocks that the repair carries along. -/
  other : String
deriving DecidableEq, Inhabited

structure Entry where
  id : ℕ
  regular : Bool
  bytes : Bytes
  perm : ℕ

structure World where
  /-- `project.toml` in the directory that was opened. -/
  project : Option Entry
  registry : Option Entry
  /-- How many operations there were. -/
  clock : ℕ := 0

inductive Answer
  | failed
  | missing
  | symlink
  | other
  | dir (id : ℕ)

inductive Looked
  | path (path : String)
  /-- The opened root, the opened `.mi-lsp` and the entry `.mi-lsp` of the opened root. -/
  | root
  | state
  | stateEntry

inductive Decoded (α : Type)
  | failed
  /-- Decoded but for keys that nothing takes. -/
  | undecoded
  | ok (value : α)

/-- What the operation of a number meets, and the code outside the source. -/
structure Host where
  fails : ℕ → Bool
  look : ℕ → Looked → Answer
  /-- The identity of the file that the operation puts into place. -/
  identity : ℕ → ℕ
  detectWorkspaceLayout : ℕ → String → String → Option ProjectFile
  decodeProject : Bytes → Decoded ProjectFile
  encodeProject : ProjectFile → Option Bytes
  decodeRegistry : Bytes → Decoded RegistryFile
  encodeRegistry : RegistryFile → Option Bytes
  toLower : String → String
  registryPath : String
  /-- The path from the home directory, if it leads below it. -/
  relativeToHome : String → Option String

abbrev Op (α : Type) := Session (List Cause) World α

abbrev Repairing (α : Type) := Session RepairError World α

namespace World

def tick (w : World) : World := { w with clock := w.clock + 1 }

end World

variable (host : Host)

def attempt (cause : Cause) : Op Unit := fun w ↦
  (if host.fails w.clock then .error [cause] else .ok (), w.tick)

def look (what : Looked) : Op Answer := fun w ↦ (.ok (host.look w.clock what), w.tick)

def relabel {α : Type} (cause : Cause) (m : Op α) : Op α := do
  match ← result m with
  | .ok a => return a
  | .error _ => throw [cause]

section Merge

def foldKey (text : String) : String := host.toLower (trimSpace text)

def mergeLanguage (acc : List String × List String) (language : String) :
    List String × List String :=
  let language := trimSpace language
  let key := host.toLower language
  if key = "" ∨ key ∈ acc.2 then acc else (acc.1 ++ [language], key :: acc.2)

def mergeDetectedLanguages (existing detected : Slice String) : Slice String :=
  let seen := (existing.items.map (foldKey host)).filter (· ≠ "")
  let merged := detected.items.foldl (mergeLanguage host) (existing.items, seen)
  Slice.copy (some merged.1)

def repoRootKey (root : String) : String := host.toLower (cleanPath (trimSpace root))

variable (merged : List WorkspaceRepo) (detected : WorkspaceRepo)

def matchRepo : Option ℕ :=
  let byID :=
    if foldKey host detected.id = "" then none
    else merged.findIdx? fun repo ↦ foldKey host repo.id = foldKey host detected.id
  match byID with
  | some i => some i
  | none =>
    if trimSpace detected.root = "" then none
    else merged.findIdx? fun repo ↦
      trimSpace repo.root ≠ "" && repoRootKey host repo.root = repoRootKey host detected.root

def mergeRepo : List WorkspaceRepo :=
  match matchRepo host merged detected with
  | some i => merged.modify i fun repo ↦
      { repo with languages := mergeDetectedLanguages host repo.languages detected.languages }
  | none => merged

def mergeDetectedRepoLanguages (existing detected : Slice WorkspaceRepo) : Slice WorkspaceRepo :=
  Slice.copy (some (detected.items.foldl (mergeRepo host) existing.items))

structure Plan where
  registration : Registration
  project : ProjectFile := default
  metadataPresent : Bool := false
  projectChanged : Bool := false
  registrationChanged : Bool := false
  drift : Bool := false

def plannedProject (project detected : ProjectFile) : ProjectFile :=
  { project with
    project := { project.project with
      languages :=
        mergeDetectedLanguages host project.project.languages detected.project.languages }
    repos := mergeDetectedRepoLanguages host project.repos detected.repos }

variable (registration : Registration)

def plannedRegistration (planned : ProjectFile) : Registration :=
  { registration with languages := planned.project.languages.copy }

def plan (project detected : ProjectFile) : Plan :=
  let candidate := plannedProject host project detected
  let updated := plannedRegistration registration candidate
  let projectChanged := project ≠ candidate
  let registrationChanged := registration.languages ≠ updated.languages
  { registration := updated
    project := candidate
    metadataPresent := true
    projectChanged := projectChanged
    registrationChanged := registrationChanged
    drift := projectChanged || registrationChanged }

end Merge

section Pinned

structure Pinned where
  path : String
  rootId : ℕ
  stateId : Option ℕ

variable (path : String)

def componentPaths : List String :=
  ((path.toList.splitOn '/').filter fun name ↦ name ≠ [] && name ≠ ['.']).inits.tail.map
    fun names ↦ String.ofList ('/' :: ['/'].intercalate names)

def rejectComponent (path current : String) : Op PUnit := do
  match ← look host (.path current) with
  | .failed | .missing => throw [.unavailable]
  | .symlink => throw [.unsupported]
  | .other => ensure (current = path) [.unsupported]
  | .dir _ => return

def rejectSymlinkPathComponents : Op PUnit :=
  (componentPaths path).forM (rejectComponent host path)

def expectDir (id : ℕ) (what : Looked) : Op Unit := do
  match ← look host what with
  | .dir other => ensure (other = id) [.rootChanged]
  | _ => throw [.rootChanged]

def openState (rootId : ℕ) : Op Pinned := do
  match ← look host .stateEntry with
  | .missing => return ⟨path, rootId, none⟩
  | .dir stateId =>
    attempt host .unsupported
    expectDir host stateId .state
    expectDir host stateId .stateEntry
    return ⟨path, rootId, some stateId⟩
  | _ => throw [.unsupported]

def openPinnedPath : Op Pinned := do
  rejectSymlinkPathComponents host path
  match ← look host (.path path) with
  | .dir before =>
    attempt host .unavailable
    expectDir host before .root
    expectDir host before (.path path)
    relabel .rootChanged (rejectSymlinkPathComponents host path)
    openState host path before
  | _ => throw [.unsupported]

def openPinnedWorkspaceRoot (root : String) : Op Pinned := do
  ensure (isAbs root) [.unsupported]
  openPinnedPath host (cleanPath root)

variable (pinned : Pinned)

def verifyDescriptor : Op Unit := do
  expectDir host pinned.rootId .root
  match pinned.stateId with
  | none => return
  | some stateId =>
    expectDir host stateId .state
    expectDir host stateId .stateEntry

def verifyPath : Op Unit := do
  verifyDescriptor host pinned
  relabel .rootChanged (rejectSymlinkPathComponents host pinned.path)
  expectDir host pinned.rootId (.path pinned.path)

structure ProjectSnapshot where
  project : ProjectFile
  raw : Bytes
  mode : ℕ
  id : ℕ
deriving Inhabited

structure RegistrySnapshot where
  registry : RegistryFile
  raw : Bytes
  mode : ℕ

def readStrictProjectFile : Op ProjectSnapshot := do
  ensure pinned.stateId.isSome [.notConfigured]
  attempt host .unavailable
  match (← get).project with
  | none => throw [.notConfigured]
  | some entry =>
    ensure entry.regular [.unsupported]
    attempt host .unavailable
    attempt host .rootChanged
    attempt host .unavailable
    attempt host .rootChanged
    match host.decodeProject entry.bytes with
    | .failed => throw [.unavailable]
    | .undecoded => throw [.unsupported]
    | .ok project => return ⟨project, entry.bytes, entry.perm, entry.id⟩

def readRawRegistry : Op Entry := do
  attempt host .unsupported
  match (← get).registry with
  | none => throw [.unsupported]
  | some entry =>
    ensure entry.regular [.unsupported]
    attempt host (.file .read)
    attempt host .rootChanged
    return entry

def readStrictRegistry : Op RegistrySnapshot := do
  attempt host .unavailable
  let entry ← relabel .unsupported (readRawRegistry host)
  match host.decodeRegistry entry.bytes with
  | .failed => throw [.unavailable]
  | .undecoded => throw [.unsupported]
  | .ok registry => return ⟨registry, entry.bytes, entry.perm⟩

def registeredMetadataTarget (registry : RegistryFile) (expectedName expectedRoot : String) :
    Except (List Cause) (String × Registration) :=
  let name := trimSpace expectedName
  match registry.workspaces.lookup name with
  | some registration =>
    if cleanPath registration.root = cleanPath expectedRoot then .ok (name, registration)
    else .error [.registrationChanged]
  | none => .error [.registrationChanged]

def detectLayout (root name : String) : Op (Option ProjectFile) := fun w ↦
  (.ok (host.detectWorkspaceLayout w.clock root name), w.tick)

def planWorkspaceMetadata (name : String) (registration : Registration) :
    Op (Plan × ProjectSnapshot) := do
  verifyPath host pinned
  match ← result (readStrictProjectFile host pinned) with
  | .error causes =>
    if causes = [.notConfigured] then return ({ registration }, default) else throw causes
  | .ok snapshot =>
    verifyPath host pinned
    match ← detectLayout host registration.root name with
    | none => throw [.unavailable]
    | some detected =>
      verifyPath host pinned
      return (plan host registration snapshot.project detected, snapshot)

end Pinned

section Replace

variable (pinned : Pinned)

def verify (requirePath : Bool) : Op Unit :=
  if requirePath then verifyPath host pinned else verifyDescriptor host pinned

def expectProject (expected : ℕ) : Op Unit := do
  attempt host .rootChanged
  match (← get).project with
  | some entry => ensure (entry.regular ∧ entry.id = expected) [.rootChanged]
  | none => throw [.rootChanged]

variable (contents : Bytes) (mode : ℕ)

def renameProject : Op ℕ := fun w ↦
  (.ok (host.identity w.clock),
    { w.tick with project := some ⟨host.identity w.clock, true, contents, mode⟩ })

def renameRegistry : Op Unit := fun w ↦
  (.ok (), { w.tick with registry := some ⟨host.identity w.clock, true, contents, mode⟩ })

/-- Empty when the file was replaced, but could not be looked at afterwards. -/
def replaceProject (mode expected : ℕ) (requirePath : Bool) : Op (Option ℕ) := do
  ensure pinned.stateId.isSome [.notConfigured]
  verify host pinned requirePath
  expectProject host expected
  [FileOp.randomName, .createTemp, .write, .sync, .chmod, .close].forM fun op ↦
    attempt host (.file op)
  verify host pinned requirePath
  expectProject host expected
  attempt host (.file .rename)
  let id ← renameProject host contents mode
  match ← result (attempt host .readback) with
  | .ok _ => return some id
  | .error _ => return none

def readRawProject : Op Entry := do
  attempt host .unsupported
  match (← get).project with
  | none => throw [.unsupported]
  | some entry =>
    ensure entry.regular [.unsupported]
    attempt host (.file .read)
    attempt host .rootChanged
    attempt host (.file .close)
    return entry

def restoreProject (snapshot : ProjectSnapshot) (current : Option ℕ) : Op Unit := do
  match current with
  | none => throw [.readback]
  | some current =>
    match ← result (replaceProject host pinned snapshot.raw snapshot.mode current false) with
    | .error causes => throw (.readback :: causes)
    | .ok none => throw [.readback, .readback]
    | .ok (some _) =>
      match ← result (verifyDescriptor host pinned) with
      | .error causes => throw (.readback :: causes)
      | .ok _ =>
        match ← result (readRawProject host) with
        | .error causes => throw (.readback :: causes)
        | .ok entry =>
          ensure (entry.bytes = snapshot.raw ∧ entry.perm = snapshot.mode) [.readback]

def saveRegistry (registry : RegistryFile) : Op Unit := do
  attempt host (.file .home)
  attempt host (.file .stat)
  let mode := match (← get).registry with
    | some entry => entry.perm
    | none => 0o600
  attempt host (.file .createTemp)
  match host.encodeRegistry registry with
  | none => throw [.encode]
  | some contents =>
    [FileOp.write, .sync, .close, .chmod, .rename].forM fun op ↦ attempt host (.file op)
    renameRegistry host contents mode

def writeRegistryAtomic : Op Unit := do
  [FileOp.createTemp, .write, .sync, .close, .chmod, .rename].forM fun op ↦ attempt host (.file op)
  renameRegistry host contents mode

def restoreRegistrySnapshot (snapshot : RegistrySnapshot) (expectedCurrent : Option ℕ) :
    Op Unit := do
  let current ← readRawRegistry host
  if current.bytes = snapshot.raw ∧ current.perm = snapshot.mode then return
  else overwriteRegistry snapshot expectedCurrent current
where
  overwriteRegistry (snapshot : RegistrySnapshot) (expectedCurrent : Option ℕ) (current : Entry) :
      Op Unit := do
    ensure (expectedCurrent = some current.id) [.readback]
    attempt host .readback
    writeRegistryAtomic host snapshot.raw snapshot.mode
    match ← result (readRawRegistry host) with
    | .error causes => throw (.readback :: causes)
    | .ok after =>
      ensure (after.bytes = snapshot.raw ∧ after.perm = snapshot.mode) [.readback]

variable (path : String)

def displayRecoveryPath : String :=
  match host.relativeToHome path with
  | some relative => joinPath "~" relative
  | none => path

def projectRecoveryPath : String :=
  joinPath (joinPath (displayRecoveryPath host path) ".mi-lsp") "project.toml"

def pinnedRecoveryPath : String :=
  "original pinned workspace object opened at " ++ displayRecoveryPath host path ++
    " (path identity changed); .mi-lsp/project.toml"

def workspaceProjectRecoveryPath : Repairing String := do
  match ← result (verifyPath host pinned) with
  | .ok _ => return projectRecoveryPath host pinned.path
  | .error _ => return pinnedRecoveryPath host pinned.path

end Replace

section Apply

structure Written where
  projectWritten : Bool := false
  projectInfo : Option ℕ := none
  registryAttempted : Bool := false
  registryInfo : Option ℕ := none

variable (pinned : Pinned) (project : ProjectSnapshot) (registry : RegistrySnapshot)
  (written : Written)

def rollbackRegistry : Repairing (List String × List Cause) := do
  if written.registryAttempted then
    match ← result (restoreRegistrySnapshot host registry written.registryInfo) with
    | .ok _ => return ([], [])
    | .error causes => return ([displayRecoveryPath host host.registryPath], causes)
  else return ([], [])

def rollbackProject : Repairing (List String × List Cause) := do
  if written.projectWritten then
    match ← result (restoreProject host pinned project written.projectInfo) with
    | .ok _ => return ([], [])
    | .error causes => return ([← workspaceProjectRecoveryPath host pinned], causes)
  else return ([], [])

def rollbackMetadataFailure {α : Type} (cause : List Cause) (written : Written) : Repairing α := do
  let (registryPaths, registryCauses) ← rollbackRegistry host registry written
  let (projectPaths, projectCauses) ← rollbackProject host pinned project written
  if registryPaths ++ projectPaths ≠ [] then
    throw (.partialMutation (cause ++ registryCauses ++ projectCauses)
      (registryPaths ++ projectPaths))
  else throw (.plain cause)

def plainly {α : Type} (m : Op α) : Repairing α := do
  match ← result m with
  | .ok a => return a
  | .error causes => throw (.plain causes)

/-- The path is verified between the steps. Nothing is rolled back when nothing was replaced. -/
def verifyOrRollback : Repairing Unit := do
  match ← result (verifyPath host pinned) with
  | .ok _ => return
  | .error causes => rollbackMetadataFailure host pinned project registry causes written

variable (plan : Plan)

def commitProject (contents : Bytes) : Repairing Written := do
  if plan.projectChanged then
    plainly (verifyPath host pinned)
    match ← plainly (replaceProject host pinned contents project.mode project.id true) with
    | some id => return { projectWritten := true, projectInfo := some id }
    | none =>
      rollbackMetadataFailure host pinned project registry [.readback] { projectWritten := true }
  else return {}

def commitRegistry (updated : RegistryFile) (written : Written) : Repairing Written := do
  if plan.registrationChanged then
    verifyOrRollback host pinned project registry written
    let written := { written with registryAttempted := true }
    match ← result (saveRegistry host updated) with
    | .error causes =>
      let current := (← result (readRawRegistry host)).toOption
      rollbackMetadataFailure host pinned project registry causes
        { written with registryInfo := current.map Entry.id }
    | .ok _ =>
      match ← result (readRawRegistry host) with
      | .ok entry => return { written with registryInfo := some entry.id }
      | .error _ => rollbackMetadataFailure host pinned project registry [.readback] written
  else return written

def refresh : Repairing Written := do
  if written.registryAttempted then
    let current := (← result (readRawRegistry host)).toOption
    return { written with registryInfo := current.map Entry.id }
  else return written

def readback (plan : Plan) (name : String) (registration : Registration)
    (updatedRegistry : RegistryFile) (updated : Registration) (written : Written) :
    Repairing (Plan × Bool) := do
  let project' ← result (readStrictProjectFile host pinned)
  let registry' ← result (readStrictRegistry host)
  let found := registeredMetadataTarget ((registry'.toOption.map RegistrySnapshot.registry).getD {})
    name registration.root
  match project', registry', found with
  | .ok snapshot, .ok registrySnapshot, .ok (_, entry) =>
    if snapshot.project = plan.project ∧ registrySnapshot.registry = updatedRegistry ∧
        entry.languages = updated.languages then
      match ← result (verifyPath host pinned) with
      | .ok _ => return ({ plan with registration := entry, project := snapshot.project }, true)
      | .error causes =>
        let written ← refresh host written
        rollbackMetadataFailure host pinned project registry causes written
    else
      let written ← refresh host written
      rollbackMetadataFailure host pinned project registry [.readback] written
  | _, _, _ =>
    let written ← refresh host written
    rollbackMetadataFailure host pinned project registry
      (.readback :: causesOf project' ++ causesOf registry' ++ causesOf found) written
where
  causesOf {α : Type} : Except (List Cause) α → List Cause
    | .ok _ => []
    | .error causes => causes

def encodeProjectMetadata : Op Bytes :=
  if plan.projectChanged then
    match host.encodeProject plan.project with
    | some contents => pure contents
    | none => throw [.encode]
  else pure []

def ofExcept {α : Type} : Except (List Cause) α → Op α
  | .ok a => pure a
  | .error causes => throw causes

structure Selection where
  name : String
  root : String
  /-- The identity of the directory that was selected, if it was one. -/
  rootInfo : Option ℕ

structure Prepared where
  registry : RegistrySnapshot
  name : String
  registration : Registration
  pinned : Pinned
  plan : Plan
  project : ProjectSnapshot

def prepare (selection : Selection) : Op Prepared := do
  match selection.rootInfo with
  | none => throw [.rootChanged]
  | some rootInfo =>
    attempt host (.file .lock)
    let registry ← readStrictRegistry host
    let (name, registration) ←
      ofExcept (registeredMetadataTarget registry.registry selection.name selection.root)
    let pinned ← openPinnedWorkspaceRoot host registration.root
    ensure (rootInfo = pinned.rootId) [.rootChanged]
    let (plan, project) ← planWorkspaceMetadata host pinned name registration
    return ⟨registry, name, registration, pinned, plan, project⟩

def applyPlan (p : Prepared) : Repairing (Plan × Bool) := do
  let contents ← plainly (encodeProjectMetadata host p.plan)
  let updated := plannedRegistration p.plan.registration p.plan.project
  let updatedRegistry :=
    { p.registry.registry with workspaces := put p.name updated p.registry.registry.workspaces }
  let written ← commitProject host p.pinned p.project p.registry p.plan contents
  verifyOrRollback host p.pinned p.project p.registry written
  let written ← commitRegistry host p.pinned p.project p.registry p.plan updatedRegistry written
  verifyOrRollback host p.pinned p.project p.registry written
  readback host p.pinned p.project p.registry p.plan p.name p.registration updatedRegistry updated
    written

def applyWorkspaceMetadataRepairSelected (selection : Selection) : Repairing (Plan × Bool) := do
  let p ← plainly (prepare host selection)
  if p.plan.drift then applyPlan host p else return (p.plan, false)

end Apply

end MiLsp.Repair
