import MiLsp.Library.Entries
import MiLsp.Library.Strings

namespace MiLsp.Registry

open Library Entries Strings

abbrev Slice (α : Type) := Option (List α)

namespace Slice

variable {α : Type}

def items (s : Slice α) : List α := s.getD []

/-- `append([]T(nil), s...)`, which is nil when there is nothing to append. -/
def copy (s : Slice α) : Slice α := if s.items.isEmpty then none else some s.items

end Slice

structure CanonLink where
  aliasName : String
  role : String
deriving DecidableEq

structure Registration where
  root : String
  languages : Slice String := none
  kind : String := ""
  solution : String := ""
  canonLinks : Slice CanonLink := none
deriving DecidableEq

structure RegistryFile where
  lastWorkspace : String := ""
  workspaces : List (String × Registration) := []
deriving DecidableEq

def cloneRegistration (ws : Registration) : Registration :=
  { ws with languages := ws.languages.copy, canonLinks := ws.canonLinks.copy }

def cloneRegistry (registry : RegistryFile) : RegistryFile :=
  { registry with
    workspaces := registry.workspaces.map fun pair ↦ (pair.1, cloneRegistration pair.2) }

def preserveCanonLinks (existing incoming : Registration) : Registration :=
  if incoming.canonLinks.items.isEmpty && !existing.canonLinks.items.isEmpty then
    { incoming with canonLinks := existing.canonLinks.copy }
  else incoming

def registerWorkspaceLocked (name : String) (registration : Registration)
    (registry : RegistryFile) : RegistryFile :=
  let registration := match registry.workspaces.lookup name with
    | some existing => preserveCanonLinks existing registration
    | none => registration
  ⟨name, put name registration registry.workspaces⟩

def removeWorkspaceLocked (name : String) (registry : RegistryFile) : Option RegistryFile :=
  match registry.workspaces.lookup name with
  | none => none
  | some _ => some
    ⟨if registry.lastWorkspace = name then "" else registry.lastWorkspace,
      registry.workspaces.filter (·.1 ≠ name)⟩

inductive RootStatus
  | present
  | missing
  | denied
  | unavailable

structure StalePath where
  aliasName : String
  root : String
  error : String

structure PruneReport where
  dryRun : Bool
  candidates : List StalePath
  removed : List StalePath
  skipped : List StalePath

variable (notFound : String) (stat : String → RootStatus)

def classifyRoot (root : String) : Option (Bool × String) :=
  if trimSpace root = "" then some (false, "empty root cannot be classified as missing")
  else match stat root with
    | .present => none
    | .missing => some (true, notFound)
    | .denied => some (false, "permission denied; root retained")
    | .unavailable => some (false, "root status unavailable; root retained")

def stalePaths (candidate : Bool) (registry : RegistryFile) : List StalePath :=
  registry.workspaces.filterMap fun pair ↦
    match classifyRoot notFound stat pair.2.root with
    | some (isCandidate, error) =>
      if isCandidate = candidate then some ⟨pair.1, pair.2.root, error⟩ else none
    | none => none

variable (apply : Bool)

/-- The report, and the registry that is saved when something is removed. -/
def pruneRegistry (stat : String → RootStatus)
    (registry : RegistryFile) : PruneReport × Option RegistryFile :=
  let candidates := stalePaths notFound stat true registry
  let removed := if apply then candidates else []
  let aliases := removed.map StalePath.aliasName
  let report : PruneReport := ⟨!apply, candidates, removed, stalePaths notFound stat false registry⟩
  if removed.isEmpty then (report, none)
  else
    (report, some
      ⟨if aliases.contains registry.lastWorkspace then "" else registry.lastWorkspace,
        registry.workspaces.filter fun pair ↦ !aliases.contains pair.1⟩)

def pruneStaleWorkspacesLocked (stat : String → RootStatus)
    (registry : RegistryFile) : PruneReport × Option RegistryFile :=
  pruneRegistry "root does not exist" apply stat registry

def garbageCollectRegistryLocked (stat : String → RootStatus)
    (registry : RegistryFile) : PruneReport × Option RegistryFile :=
  pruneRegistry "path not found" apply stat registry

/-- What an automatic registration finds out about its root and about the file system. -/
structure AutoRegister where
  canonicalRoot : Option String
  isDir : String → Bool
  normalizeComparablePath : String → Option String
  /-- `filepath.Base` of the root, trimmed. -/
  base : String
  /-- The hexadecimal digest of the root. -/
  digest : String
  /-- The layout that is detected, if any, under an alias. -/
  detect : String → Option Registration
  /-- The project file exists or could be written. -/
  projectSaved : Bool

namespace AutoRegister

variable (auto : AutoRegister) (registry : RegistryFile)

def registeredWorkspaceForRoot : Bool :=
  match auto.canonicalRoot with
  | none => false
  | some root => registry.workspaces.any fun pair ↦
      auto.isDir pair.2.root && decide (auto.normalizeComparablePath pair.2.root = some root)

/-- As many numbers as the registry has names, and one more, are enough. -/
def candidates (names : ℕ) : List String :=
  let base := if auto.base ∈ ["", ".", "/"] then "workspace" else auto.base
  let lengths := (List.range (auto.digest.length / 2 + 1)).filter fun k ↦ 3 ≤ k
  let short := lengths.map fun k ↦ base ++ "-" ++ String.ofList (auto.digest.toList.take (2 * k))
  let numbered := (List.range (names + 1)).map fun n ↦
    base ++ "-" ++ auto.digest ++ "-" ++ toString (n + 2)
  base :: (short ++ numbered)

def autoRegisterAlias : String :=
  ((auto.candidates registry.workspaces.length).find? fun aliasName ↦
    (registry.workspaces.lookup aliasName).isNone).getD auto.base

def registerLocked : Option RegistryFile :=
  if auto.registeredWorkspaceForRoot registry then none
  else
    let aliasName := auto.autoRegisterAlias registry
    match auto.detect aliasName with
    | none => none
    | some registration =>
      if auto.projectSaved then
        some { registry with workspaces := put aliasName registration registry.workspaces }
      else none

end AutoRegister

inductive Op
  | register (name : String) (registration : Registration)
  | remove (name : String)
  | prune (apply : Bool) (stat : String → RootStatus)
  | collectGarbage (apply : Bool) (stat : String → RootStatus)
  | autoRegister (auto : AutoRegister)

variable (registry : RegistryFile)

def Op.run : Op → Option RegistryFile
  | .register name registration => some (registerWorkspaceLocked name registration registry)
  | .remove name => removeWorkspaceLocked name registry
  | .prune apply stat => (pruneStaleWorkspacesLocked apply stat registry).2
  | .collectGarbage apply stat => (garbageCollectRegistryLocked apply stat registry).2
  | .autoRegister auto => auto.registerLocked registry

def Op.effect (op : Op) : RegistryFile := (op.run registry).getD registry

end MiLsp.Registry
