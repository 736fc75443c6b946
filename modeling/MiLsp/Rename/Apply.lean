import MiLsp.Rename.Plan

namespace MiLsp.Rename

open Library Strings Attempt Files

structure NativeRecoveryArtifact where
  file : String
  path : String
  kind : TempKind
  state : String
  detail : String

inductive RenameError
  | plain (message : String)
  | apply (code message : String) (touched : List String)
      (recovery : List NativeRecoveryArtifact) (applied : Bool) (cause : Option String)

def RenameError.isApplied : RenameError → Bool
  | plain _ => false
  | apply _ _ _ _ applied _ => applied

def RenameError.recovery : RenameError → List NativeRecoveryArtifact
  | plain _ => []
  | apply _ _ _ recovery _ _ => recovery

def RenameError.message : RenameError → String
  | plain message => message
  | apply code message _ _ _ none => code ++ ": " ++ message
  | apply code message _ _ _ (some cause) => code ++ ": " ++ message ++ ": " ++ cause

variable (host : RenameHost) (faults : Faults)

def removeRenameArtifact (lstatSite removeSite : Site) (owner path : String)
    (identity : Option ℕ) (d : RenameDisk) : Except String RenameDisk :=
  match faults.error lstatSite owner with
  | some cause => .error cause
  | none =>
    match d.file (host.place path) with
    | none => .ok d
    | some info =>
      if identity ≠ some info.ino then
        .error "temporary artifact identity changed; left untouched"
      else match faults.error removeSite owner with
        | some cause => .error cause
        | none => .ok (d.remove (host.place path))

structure TempOutcome where
  path : String
  error : Option String
  disk : RenameDisk

variable (kind : TempKind) (owner path cause : String)

def discardTemp (d : RenameDisk) : TempOutcome :=
  match faults.error (.stat kind) owner with
  | some e =>
    ⟨path, some (cause ++ "; temporary artifact identity unavailable at " ++ path ++ ": " ++ e), d⟩
  | none =>
    match removeRenameArtifact host faults (.abandonLstat kind) (.abandonRemove kind) owner path
        ((d.file (host.place path)).map File.ino) d with
    | .error e =>
      ⟨path, some (cause ++ "; temporary artifact retained at " ++ path ++ ": " ++ e), d⟩
    | .ok d => ⟨"", some cause, d⟩

def abandonTemp (d : RenameDisk) : TempOutcome :=
  let out := discardTemp host faults kind owner path cause d
  match out.path, faults.error (.close kind) owner with
  | "", some e => { out with error := some (cause ++ "; close failed: " ++ e) }
  | _, _ => out

def fillTemp (owner path : String) (data : Bytes) (mode : ℕ) (d : RenameDisk) : TempOutcome :=
  match faults.error (.chmod kind) owner with
  | some cause => abandonTemp host faults kind owner path cause d
  | none =>
    match faults.error (.write kind) owner with
    | some cause =>
      abandonTemp host faults kind owner path cause
        (d.write (host.place path) ⟨faults.partly kind owner, mode⟩)
    | none =>
      let d := d.write (host.place path) ⟨data, mode⟩
      match faults.error (.sync kind) owner with
      | some cause => abandonTemp host faults kind owner path cause d
      | none =>
        match faults.error (.close kind) owner with
        | some cause => discardTemp host faults kind owner path cause d
        | none =>
          match faults.error (.stat kind) owner with
          | some cause =>
            ⟨path, some ("temporary artifact identity unavailable at " ++ path ++ ": " ++ cause), d⟩
          | none => ⟨path, none, d⟩

def writeRenameTemp (owner : String) (data : Bytes) (mode : ℕ) (d : RenameDisk) : TempOutcome :=
  match faults.error (.createTemp kind) owner with
  | some cause => ⟨"", some cause, d⟩
  | none =>
    let path := host.tempName d (String.ofList (Paths.dir owner.toList)) kind
    if d.file (host.place path) = none then
      fillTemp host faults kind owner path data mode (d.create (host.place path) ⟨[], 0o600⟩)
    else ⟨"", some "file exists", d⟩

def lstat (site : Site) (owner path : String) (d : RenameDisk) : Except String (File Stored) :=
  match faults.error site owner with
  | some cause => .error cause
  | none => orElse "no such file or directory" (d.file (host.place path))

def readFile (site : Site) (owner path : String) (d : RenameDisk) : Except String Bytes :=
  (lstat host faults site owner path d).map fun file ↦ file.content.bytes

variable (file : StagedRenameFile)

def stageFile (d : RenameDisk) : Option String × StagedRenameFile × RenameDisk :=
  let out := writeRenameTemp host faults .stage file.path file.updated file.mode d
  let file := { file with stage := out.path }
  match out.error with
  | some e => (some ("unavailable: could not stage rename: " ++ e), file, out.disk)
  | none =>
    match lstat host faults (.identify .stage) file.path file.stage out.disk with
    | .error e =>
      (some ("unavailable: could not verify staged rename file: " ++ e), file, out.disk)
    | .ok info =>
      let file := { file with stageIdentity := some info.ino }
      let out := writeRenameTemp host faults .backup file.path file.original file.mode out.disk
      let file := { file with backup := out.path }
      match out.error with
      | some e => (some ("unavailable: could not stage rollback copy: " ++ e), file, out.disk)
      | none =>
        match lstat host faults (.identify .backup) file.path file.backup out.disk with
        | .error e =>
          (some ("unavailable: could not verify rollback copy: " ++ e), file, out.disk)
        | .ok info => (none, { file with backupIdentity := some info.ino }, out.disk)

def stageFiles : List StagedRenameFile → RenameDisk →
    Option String × List StagedRenameFile × RenameDisk
  | [], d => (none, [], d)
  | file :: rest, d =>
    match stageFile host faults file d with
    | (some e, file, d) => (some e, file :: rest, d)
    | (none, file, d) =>
      let (e, rest, d) := stageFiles rest d
      (e, file :: rest, d)

variable (root : String)

def nativeRenameOriginalUnchanged (phase : Phase) (file : StagedRenameFile)
    (d : RenameDisk) : Except String Unit := do
  let (_, _, info) ← (nativeRenamePath host faults root file.path phase d).mapError fun _ ↦
    "rename target identity changed"
  if file.identity ≠ info.ino then
    throw "rename target identity changed"
  let current ← (readFile host faults (.readSource phase) file.path file.path d).mapError fun _ ↦
    "rename source bytes changed"
  if host.nativeDigest current ≠ file.snapshot then
    throw "rename source bytes changed"

def stageIntact (d : RenameDisk) : Bool :=
  match lstat host faults .lstatStage file.path file.stage d,
      readFile host faults .readStage file.path file.stage d with
  | .ok info, .ok bytes =>
    file.stageIdentity = some info.ino && host.nativeDigest bytes = host.nativeDigest file.updated
  | _, _ => false

variable (file : StagedRenameFile)

def rollbackRefusal (d : RenameDisk) : Option (String × String) :=
  let current := nativeRenamePath host faults root file.path .rollback d
  if file.backup = "" then some ("backup_unavailable", "the rollback copy is missing")
  else if file.backupIdentity = none then
    some ("backup_conflict", "rollback copy identity is unavailable; left untouched")
  else match current with
    | .error _ => some ("rollback_conflict",
        "target path is no longer a regular in-workspace file; left untouched")
    | .ok (_, _, info) =>
      if file.committedIdentity ≠ some info.ino then
        some ("rollback_conflict", "target identity no longer matches this rename; left untouched")
      else match lstat host faults .lstatBackup file.path file.backup d,
          readFile host faults .readBackup file.path file.backup d with
        | .ok backupInfo, .ok bytes =>
          if file.backupIdentity ≠ some backupInfo.ino ∨
              host.nativeDigest bytes ≠ host.nativeDigest file.original then
            some ("backup_conflict", "rollback copy identity or bytes changed; left untouched")
          else match readFile host faults .readCommitted file.path file.path d with
            | .error _ => some ("rollback_conflict",
                "target bytes no longer match this rename; left untouched")
            | .ok current =>
              if host.nativeDigest current ≠ host.nativeDigest file.updated then
                some ("rollback_conflict",
                  "target bytes no longer match this rename; left untouched")
              else (faults.error .renameBackup file.path).map fun cause ↦ ("restore_failed", cause)
        | _, _ =>
          some ("backup_conflict", "rollback copy identity or bytes changed; left untouched")

def rollbackNativeRename (root : String) : List StagedRenameFile → RenameDisk →
    List NativeRecoveryArtifact × List StagedRenameFile × RenameDisk
  | [], d => ([], [], d)
  | file :: rest, d =>
    match rollbackRefusal host faults root file d with
    | some (state, detail) =>
      let (recovery, files, d) := rollbackNativeRename root rest d
      (⟨file.relative, file.backup, .backup, state, detail⟩ :: recovery,
        { file with preserveBackup := file.backup ≠ "" } :: files, d)
    | none =>
      let (recovery, files, d) :=
        rollbackNativeRename root rest (d.rename (host.place file.backup) (host.place file.path))
      (recovery, { file with backup := "", backupIdentity := none } :: files, d)

variable (files : List StagedRenameFile)

def nativeTouched : List String :=
  files.map StagedRenameFile.relative

structure RenameOutcome where
  touched : List String
  error : Option RenameError
  files : List StagedRenameFile
  disk : RenameDisk

def failCommit (committed pending : List StagedRenameFile) (d : RenameDisk)
    (message cause : String) : RenameOutcome :=
  let (recovery, restored, d) := rollbackNativeRename host faults root committed d
  let touched := nativeTouched committed.reverse
  if recovery ≠ [] then
    ⟨touched, some (.apply "mutation_recovery_failed" message touched recovery false (some cause)),
      restored.reverse ++ pending, d⟩
  else ⟨[], some (.plain cause), restored.reverse ++ pending, d⟩

def commitFiles (root : String) : List StagedRenameFile → List StagedRenameFile → RenameDisk →
    RenameOutcome
  | committed, [], d => ⟨nativeTouched committed.reverse, none, committed.reverse, d⟩
  | committed, file :: pending, d =>
    match nativeRenameOriginalUnchanged host faults root .commit file d with
    | .error _ =>
      failCommit host faults root committed (file :: pending) d
        "source changed during commit; inspect recovery artifacts"
        "explicit_incomplete: source changed during commit; prior files were rolled back"
    | .ok _ =>
      if stageIntact host faults file d = false then
        failCommit host faults root committed (file :: pending) d
          "staged target changed before commit; inspect recovery artifacts"
          "explicit_incomplete: staged rename file identity or bytes changed"
      else match faults.error .renameStage file.path with
        | some cause =>
          failCommit host faults root committed (file :: pending) d
            "rename commit failed; inspect recovery artifacts"
            ("unavailable: rename commit failed and prior files were rolled back: " ++ cause)
        | none =>
          let d := d.rename (host.place file.stage) (host.place file.path)
          let file := { file with stage := "" }
          match lstat host faults .lstatCommitted file.path file.path d with
          | .error _ =>
            failCommit host faults root (file :: committed) pending d
              "committed target identity is unavailable; inspect recovery artifacts"
              "mutation_recovery_failed: committed target identity could not be verified"
          | .ok info =>
            if file.stageIdentity ≠ some info.ino then
              failCommit host faults root (file :: committed) pending d
                "committed target identity is unavailable; inspect recovery artifacts"
                "mutation_recovery_failed: committed target identity could not be verified"
            else
              commitFiles root ({ file with committedIdentity := some info.ino } :: committed)
                pending d

def cleanupCopy (path : String)
    (identity : Option ℕ) (d : RenameDisk) : List NativeRecoveryArtifact × RenameDisk :=
  if path = "" then ([], d)
  else match removeRenameArtifact host faults (.cleanupLstat kind) (.cleanupRemove kind) file.path
      path identity d with
    | .ok d => ([], d)
    | .error e => ([⟨file.relative, path, kind, "cleanup_failed", e⟩], d)

def cleanupFiles : List StagedRenameFile → RenameDisk → List NativeRecoveryArtifact × RenameDisk
  | [], d => ([], d)
  | file :: rest, d =>
    let (stages, d) := cleanupCopy host faults .stage file file.stage file.stageIdentity d
    let (backups, d) := cleanupCopy host faults .backup file
      (if file.preserveBackup then "" else file.backup) file.backupIdentity d
    let (recovery, d) := cleanupFiles rest d
    (stages ++ backups ++ recovery, d)

structure RenameResult where
  touched : List String
  error : Option RenameError
  disk : RenameDisk

/-- The deferred cleanup: a copy that could not be removed makes an error. -/
def RenameOutcome.finish (out : RenameOutcome) : RenameResult :=
  let (cleanup, d) := cleanupFiles host faults out.files out.disk
  let error :=
    if cleanup = [] then out.error
    else match out.error with
      | some (.apply code message touched recovery applied cause) =>
        some (.apply code message touched (recovery ++ cleanup) applied cause)
      | error =>
        some (.apply "mutation_recovery_failed"
          "rename artifacts could not be cleaned; inspect recovery paths" out.touched cleanup
          error.isNone (error.map RenameError.message))
  ⟨out.touched, error, d⟩

def identityChanged : String :=
  "explicit_incomplete: source or target identity changed before commit; no files changed"

def stageAndCommit (d : RenameDisk) : RenameOutcome :=
  match stageFiles host faults files d with
  | (some e, files, d) => ⟨[], some (.plain e), files, d⟩
  | (none, files, d) =>
    match files.forM fun file ↦ nativeRenameOriginalUnchanged host faults root .check file d with
    | .error _ =>
      ⟨[], some (.plain identityChanged), files, d⟩
    | .ok _ => commitFiles host faults root [] files d

def applyNativeRenamePlan (root symbol newName : String) (expectedFiles : List String)
    (response : WorkerResponse) (d : RenameDisk) : RenameResult :=
  match planRename host faults root symbol newName response d expectedFiles with
  | .error e => ⟨[], some (.plain e), d⟩
  | .ok files => (stageAndCommit host faults root files d).finish host faults

end MiLsp.Rename
