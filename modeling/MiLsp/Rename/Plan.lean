import Mathlib.Algebra.Ring.Nat
import MiLsp.Incremental.Paths
import MiLsp.Library.Attempt
import MiLsp.Library.Files
import MiLsp.Library.Trees
import MiLsp.Rename.Edits

namespace MiLsp.Rename

open Library Strings Attempt Files Incremental

structure Stored where
  bytes : Bytes
  mode : ℕ

abbrev RenameDisk := Disk String Stored

inductive TempKind
  | stage
  | backup
deriving DecidableEq

/-- Where the path of a file is looked at; `n` counts the files of a list. -/
inductive Phase
  | expected (n : ℕ)
  | planned (n : ℕ)
  | reread (n : ℕ)
  | check
  | commit
  | rollback
deriving DecidableEq

inductive Site
  | getwd (phase : Phase)
  | lstatTarget (phase : Phase)
  | evalTarget (phase : Phase)
  | evalRoot (phase : Phase)
  | evalInside (phase : Phase)
  | readSource (phase : Phase)
  | createTemp (kind : TempKind)
  | chmod (kind : TempKind)
  | write (kind : TempKind)
  | sync (kind : TempKind)
  | stat (kind : TempKind)
  | close (kind : TempKind)
  | abandonLstat (kind : TempKind)
  | abandonRemove (kind : TempKind)
  | identify (kind : TempKind)
  | lstatStage
  | readStage
  | renameStage
  | lstatCommitted
  | lstatBackup
  | readBackup
  | readCommitted
  | renameBackup
  | cleanupLstat (kind : TempKind)
  | cleanupRemove (kind : TempKind)
deriving DecidableEq

/-- Which operations fail on which file, with which text, and what a failed write leaves. -/
structure Faults where
  error : Site → String → Option String
  partly : TempKind → String → Bytes

def Faults.hits (faults : Faults) (site : Site) (path : String) : Bool :=
  (faults.error site path).isSome

/-- `place` is a name's physical path, directory links followed; `tempName` is tried for a temporary
file. -/
structure RenameHost where
  cwd : String
  isAbs_cwd : isAbs cwd = true
  uriToNativePath : String → String
  place : String → String
  physicalRoot : String → String
  nativeDigest : Bytes → String
  tempName : RenameDisk → String → TempKind → String
  tempName_ne : ∀ d dir kind, tempName d dir kind ≠ ""

structure NativeDocumentEdit where
  uri : String
  version : Option ℤ
  edits : List NativeTextEdit

structure WorkspaceEdit where
  changes : ℕ
  documentChanges : List (Option NativeDocumentEdit)

structure WorkerResponse where
  renamePlaceholder : String
  workspaceEdit : Option WorkspaceEdit
  documentVersions : String → ℤ
  documentSnapshots : String → String

def nativeRenameFileLimit : ℕ := 32

def nativeRenameEditLimit : ℕ := 5000

def sourceLimit : ℕ := 2 * 2 ^ 20

variable (host : RenameHost) (faults : Faults) (path : String)

def hasScheme : Bool :=
  let rest := path.toList.dropWhile fun c ↦ c ≠ ':' ∧ c ≠ '/' ∧ c ≠ '\\'
  rest.head? = some ':' && rest.length < path.toList.length

def localPath : Except String String :=
  if hasScheme path then
    if host.uriToNativePath path = "" then
      .error "rename path URI must resolve to a local file"
    else .ok (host.uriToNativePath path)
  else .ok path

def pathContainsGit : Bool :=
  (segments path).any fun segment ↦ segment.toList.map Char.toLower = ".git".toList

def lexicalPath (root path : String) (phase : Phase) : Except String (String × String) := do
  if root = "" ∨ path = "" ∨ '\x00' ∈ path.toList then
    throw "rename path is empty or invalid"
  let path ← localPath host path
  if isAbs root = false ∧ faults.hits (.getwd phase) path then
    throw "rename workspace path is unavailable"
  let absolute := cleanPath (if isAbs path then path else joinPath (absPath host.cwd root) path)
  let relative ← orElse "rename path is outside the lexical workspace"
    (relTo (absPath host.cwd root) absolute)
  return (absolute, relative)

def nativeRenamePath (root path : String) (phase : Phase) (d : RenameDisk) :
    Except String (String × String × File Stored) := do
  let (absolute, relative) ← lexicalPath host faults root path phase
  let info ← orElse "rename target must be a regular non-symlink file"
    (if faults.hits (.lstatTarget phase) path then none else d.file (host.place absolute))
  if faults.hits (.evalTarget phase) path then
    throw "rename target physical path is unavailable"
  let physicalRelative ← orElse "rename target escaped the physical workspace"
    (if faults.hits (.evalRoot phase) path || faults.hits (.evalInside phase) path then none
      else relTo (host.physicalRoot (absPath host.cwd root)) (host.place absolute))
  if pathContainsGit relative || pathContainsGit physicalRelative then
    throw "rename target is inside .git"
  return (absolute, relative, info)

structure StagedRenameFile where
  path : String
  relative : String
  original : Bytes
  updated : Bytes
  mode : ℕ
  snapshot : String
  identity : ℕ
  stage : String := ""
  backup : String := ""
  stageIdentity : Option ℕ := none
  backupIdentity : Option ℕ := none
  committedIdentity : Option ℕ := none
  preserveBackup : Bool := false

structure PlanState where
  seen : List String
  expected : List String
  totalEdits : ℕ
  files : List StagedRenameFile

variable (root symbol newName : String) (response : WorkerResponse) (d : RenameDisk)

def referencePathRefused : String :=
  "invalid_path: expected reference path is not a regular non-symlink file " ++
    "inside the selected workspace"

def unversionedRefused : String :=
  "unsupported_operation: rename plan contains an unversioned edit or resource operation; " ++
    "no files changed"

def planPathRefused : String :=
  "invalid_path: rename plan escaped the selected workspace, targets .git, or uses a symlink"

def expectFile (expected : List String) (entry : String × ℕ) : Except String (List String) := do
  let (validated, _, info) ← (nativeRenamePath host faults root entry.1 (.expected entry.2)
    d).mapError fun _ ↦ referencePathRefused
  if info.content.bytes.length > sourceLimit then
    throw referencePathRefused
  return expected.insert (cleanPath validated)

def editSource (edits : List NativeTextEdit) (original : Bytes) : Except String Bytes := do
  let converted ← orElse
    "explicit_incomplete: rename edit does not match the selected symbol exactly; no files changed"
    (edits.mapM (convertEdit original symbol newName))
  orElse "invalid_response: overlapping rename edits; no files changed"
    (updateBytes original converted)

def planDocument (acc : PlanState) (entry : Option NativeDocumentEdit × ℕ) :
    Except String PlanState := do
  let doc ← orElse unversionedRefused (entry.1.filter fun doc ↦ doc.uri ≠ "" && doc.edits ≠ [])
  let version ← orElse unversionedRefused doc.version
  if doc.uri ∈ acc.seen then
    throw "invalid_response: duplicate document in rename plan"
  if response.documentVersions doc.uri ≠ version ∨ response.documentSnapshots doc.uri = "" then
    throw "explicit_incomplete: source version or snapshot is missing/stale; no files changed"
  if host.uriToNativePath doc.uri = "" then
    throw "invalid_path: rename plan contains an invalid or non-local file URI"
  let (absolute, relative, info) ← (nativeRenamePath host faults root
    (host.uriToNativePath doc.uri) (.planned entry.2) d).mapError fun _ ↦ planPathRefused
  if info.content.bytes.length > sourceLimit then
    throw planPathRefused
  if cleanPath absolute ∉ acc.expected then
    throw "explicit_incomplete: rename plan contains an unreferenced file; no files changed"
  if acc.totalEdits + doc.edits.length > nativeRenameEditLimit then
    throw "work_limit: rename plan exceeds 5000 edits; no files changed"
  let source ← orElse "unavailable: rename source could not be read as UTF-8"
    ((if faults.hits (.readSource (.planned entry.2)) absolute then none
      else d.file (host.place absolute)).filter fun source ↦ utf8Valid source.content.bytes)
  let (_, _, current) ← (nativeRenamePath host faults root absolute (.reread entry.2)
    d).mapError fun _ ↦
      "explicit_incomplete: rename target identity changed while staging; no files changed"
  if info.ino ≠ current.ino then
    throw "explicit_incomplete: rename target identity changed while staging; no files changed"
  if host.nativeDigest source.content.bytes ≠ response.documentSnapshots doc.uri then
    throw "explicit_incomplete: source changed after the semantic plan; no files changed"
  let updated ← editSource symbol newName doc.edits source.content.bytes
  return {
    seen := doc.uri :: acc.seen
    expected := acc.expected.filter (· ≠ cleanPath absolute)
    totalEdits := acc.totalEdits + doc.edits.length
    files := acc.files ++ [{
      path := absolute
      relative
      original := source.content.bytes
      updated
      mode := info.content.mode
      snapshot := response.documentSnapshots doc.uri
      identity := info.ino }] }

def planRename (expectedFiles : List String) : Except String (List StagedRenameFile) := do
  if response.renamePlaceholder ≠ symbol then
    throw "explicit_incomplete: gopls did not confirm the selected symbol; no files changed"
  let plan ← orElse "invalid_response: workspace edit is not valid JSON" response.workspaceEdit
  if plan.changes ≠ 0 ∨ plan.documentChanges = [] ∨
      plan.documentChanges.length > nativeRenameFileLimit then
    throw <| "unsupported_operation: rename must be a complete versioned documentChanges plan; " ++
      "no files changed"
  let expected ← expectedFiles.zipIdx.foldlM (expectFile host faults root d) []
  if expected = [] then
    throw "explicit_incomplete: semantic references did not identify files to rename"
  let acc ← plan.documentChanges.zipIdx.foldlM
    (planDocument host faults root symbol newName response d) ⟨[], expected, 0, []⟩
  if acc.totalEdits = 0 then
    throw "unsupported_operation: rename plan contains no edits"
  if acc.expected ≠ [] then
    throw "explicit_incomplete: rename plan omitted one or more referenced files; no files changed"
  return acc.files.insertionSort fun a b ↦ a.relative ≤ b.relative

section Paths

variable {path : String}

theorem isAbs_cleanPath (h : isAbs path = true) :
    isAbs (cleanPath path) = true ∧ cleanPath (cleanPath path) = cleanPath path := by
  rw [isAbs, cleanPath, cleanPath, String.toList_ofList, Paths.isAbs_clean, Paths.clean_clean]
  exact ⟨h, rfl⟩

theorem isAbs_joinPath {dir : String} (h : isAbs dir = true) :
    isAbs (joinPath dir path) = true := by
  rw [isAbs, joinPath, String.toList_ofList]
  exact Paths.isAbs_join h _

theorem isAbs_absPath {cwd : String} (h : isAbs cwd = true) : isAbs (absPath cwd path) = true := by
  rw [absPath]
  split_ifs with habs
  · exact (isAbs_cleanPath habs).1
  · exact isAbs_joinPath h

theorem hasScheme_of_isAbs (h : isAbs path = true) : hasScheme path = false := by
  rw [isAbs, Paths.isAbs, decide_eq_true_eq] at h
  rw [hasScheme]
  cases hpath : path.toList with
  | nil => rfl
  | cons c rest =>
    rw [hpath] at h
    obtain rfl := Option.some_inj.mp h
    simp

end Paths

variable {host faults root symbol newName response d} {phase : Phase}

theorem lexicalPath_spec {path abs rel : String}
    (h : lexicalPath host faults root path phase = .ok (abs, rel)) :
    isAbs abs = true ∧ cleanPath abs = abs ∧
      (isAbs path = true → cleanPath path = path → abs = path) := by
  simp only [lexicalPath, bind_eq_ok, guarded_eq_ok, orElse_eq_ok, pure_eq_ok, Prod.mk.injEq] at h
  obtain ⟨-, path', hlocal, -, rel', -, rfl, -⟩ := h
  have habs : isAbs (if isAbs path' then path' else joinPath (absPath host.cwd root) path') =
      true := by
    split_ifs with hpath
    · exact hpath
    · exact isAbs_joinPath (isAbs_absPath host.isAbs_cwd)
  refine ⟨(isAbs_cleanPath habs).1, (isAbs_cleanPath habs).2, fun hpath hclean ↦ ?_⟩
  rw [localPath, hasScheme_of_isAbs hpath, if_neg Bool.false_ne_true, Except.ok.injEq] at hlocal
  rw [← hlocal, if_pos hpath, hclean]

theorem nativeRenamePath_spec {path abs rel : String} {info : File Stored}
    (h : nativeRenamePath host faults root path phase d = .ok (abs, rel, info)) :
    d.file (host.place abs) = some info ∧ isAbs abs = true ∧ cleanPath abs = abs ∧
      (isAbs path = true → cleanPath path = path → abs = path) := by
  simp only [nativeRenamePath, bind_eq_ok, guarded_eq_ok, orElse_eq_ok, pure_eq_ok, Prod.exists,
    Prod.mk.injEq] at h
  obtain ⟨abs', rel', hlexical, info', hinfo, -, -, -, -, rfl, rfl, rfl⟩ := h
  refine ⟨?_, lexicalPath_spec hlexical⟩
  split_ifs at hinfo
  exact hinfo

def StagedRenameFile.core (file : StagedRenameFile) : StagedRenameFile :=
  { file with
    stage := ""
    backup := ""
    stageIdentity := none
    backupIdentity := none
    committedIdentity := none
    preserveBackup := false }

structure StagedRenameFile.Planned (host : RenameHost) (d : RenameDisk)
    (file : StagedRenameFile) : Prop where
  isAbs_path : isAbs file.path = true
  cleanPath_path : cleanPath file.path = file.path
  on_disk : d.file (host.place file.path) = some ⟨file.identity, ⟨file.original, file.mode⟩⟩
  core_eq : file.core = file

theorem planDocument_spec {acc acc' : PlanState} {entry : Option NativeDocumentEdit × ℕ}
    (h : planDocument host faults root symbol newName response d acc entry = .ok acc') :
    ∃ file, acc'.files = acc.files ++ [file] ∧ file.Planned host d := by
  simp only [planDocument, bind_eq_ok, guarded_eq_ok, orElse_eq_ok, mapError_eq_ok, pure_eq_ok,
    Prod.exists] at h
  obtain ⟨doc, -, version, -, -, -, -, abs, rel, info, hpath, -, -, -, source, hsource, abs', rel',
    current, -, -, -, updated, -, rfl⟩ := h
  obtain ⟨hinfo, habs, hclean, -⟩ := nativeRenamePath_spec hpath
  have hfile := (Option.filter_eq_some_iff.mp hsource).1
  split_ifs at hfile
  obtain rfl : info = source := Option.some_inj.mp (hinfo.symm.trans hfile)
  exact ⟨_, rfl, habs, hclean, hinfo, rfl⟩

theorem planRename_spec {expectedFiles : List String} {files : List StagedRenameFile}
    (h : planRename host faults root symbol newName response d expectedFiles = .ok files) :
    ∀ file ∈ files, file.Planned host d := by
  simp only [planRename, bind_eq_ok, guarded_eq_ok, orElse_eq_ok, pure_eq_ok] at h
  obtain ⟨-, plan, -, -, expected, -, -, acc, hacc, -, -, rfl⟩ := h
  have hplanned : ∀ file ∈ acc.files, file.Planned host d := by
    refine foldlM_invariant (I := fun acc ↦ ∀ file ∈ acc.files, file.Planned host d) ?_
      (by simp) hacc
    intro acc entry _ acc' hfiles hstep
    obtain ⟨file, heq, hfile⟩ := planDocument_spec hstep
    rw [heq, List.forall_mem_append]
    exact ⟨hfiles, by simpa using hfile⟩
  intro file hfile
  exact hplanned file ((List.perm_insertionSort _ _).mem_iff.mp hfile)

end MiLsp.Rename
