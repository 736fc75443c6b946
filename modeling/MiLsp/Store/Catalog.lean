import Mathlib.Data.Int.Notation
import MiLsp.Library.Table
import MiLsp.Library.Attempt

namespace MiLsp.Store

open Library Attempt

inductive CatalogError
  | constraint (table : String)
deriving DecidableEq

structure WorkspaceRepo where
  id : String
  name : String
  root : String
  languages : List String
  defaultEntrypoint : String

structure WorkspaceEntrypoint where
  id : String
  repoID : String
  path : String
  kind : String
  isDefault : Bool

structure ProjectFile where
  repos : List WorkspaceRepo
  entrypoints : List WorkspaceEntrypoint

structure FileRecord where
  filePath : String
  repoID : String
  repoName : String
  contentHash : String
  indexedAt : ℤ
  language : String

structure SymbolRecord where
  filePath : String
  repoID : String
  repoName : String
  name : String
  kind : String
  startLine : ℤ
  endLine : ℤ
  parent : String
  qualifiedName : String
  signature : String
  signatureHash : String
  scope : String
  language : String
  fileHash : String
  implements : String
  searchText : String
deriving DecidableEq

def SymbolRecord.key (x : SymbolRecord) : String × String × String × ℤ :=
  (x.filePath, x.qualifiedName, x.signatureHash, x.startLine)

structure Catalog where
  repos : Table WorkspaceRepo.id
  entrypoints : Table WorkspaceEntrypoint.id
  files : Table FileRecord.filePath
  symbols : Table SymbolRecord.key

namespace Catalog

def empty : Catalog := ⟨.empty, .empty, .empty, .empty⟩

def insertRepo (t : Table WorkspaceRepo.id) (x : WorkspaceRepo) :
    Except CatalogError (Table WorkspaceRepo.id) :=
  orElse (.constraint "workspace_repos") (t.insert? x)

def insertEntrypoint (t : Table WorkspaceEntrypoint.id) (x : WorkspaceEntrypoint) :
    Except CatalogError (Table WorkspaceEntrypoint.id) :=
  if t.rows.any fun other ↦ other.repoID = x.repoID && other.path = x.path then
    .error (.constraint "workspace_entrypoints")
  else orElse (.constraint "workspace_entrypoints") (t.insert? x)

def insertFile (t : Table FileRecord.filePath) (x : FileRecord) :
    Except CatalogError (Table FileRecord.filePath) :=
  orElse (.constraint "files") (t.insert? x)

def replaceSymbols (t : Table SymbolRecord.key) (symbols : List SymbolRecord) :
    Table SymbolRecord.key :=
  symbols.foldl Table.put t

end Catalog

def replaceCatalogTx (project : ProjectFile) (files : List FileRecord)
    (symbols : List SymbolRecord) : Except CatalogError Catalog := do
  let repos ← project.repos.foldlM Catalog.insertRepo .empty
  let entrypoints ← project.entrypoints.foldlM Catalog.insertEntrypoint .empty
  let files ← files.foldlM Catalog.insertFile .empty
  return ⟨repos, entrypoints, files, Catalog.replaceSymbols .empty symbols⟩

structure IncrementalFileChange where
  filePath : String
  repoID : String
  repoName : String
  language : String
  contentHash : String
  symbols : List SymbolRecord
  deleted : Bool
deriving DecidableEq

variable (c : Catalog)

def deleteFileSymbolsTx (filePath : String) : Catalog :=
  { c with
    symbols := c.symbols.delete fun x ↦ x.filePath = filePath
    files := c.files.delete fun x ↦ x.filePath = filePath }

def replaceFileSymbolsTx (indexedAt : ℤ) (change : IncrementalFileChange) : Catalog :=
  let c := deleteFileSymbolsTx c change.filePath
  { c with
    files := c.files.put
      { filePath := change.filePath
        repoID := change.repoID
        repoName := change.repoName
        contentHash := change.contentHash
        indexedAt
        language := change.language }
    symbols := Catalog.replaceSymbols c.symbols change.symbols }

def applyIncrementalFileChangesTx (indexedAt : ℤ)
    (changes : List IncrementalFileChange) : Catalog :=
  changes.foldl (fun c change ↦
    if change.deleted then deleteFileSymbolsTx c change.filePath
    else replaceFileSymbolsTx c indexedAt change) c

end MiLsp.Store
