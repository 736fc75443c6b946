import Mathlib.Algebra.Ring.Nat
import MiLsp.Library.Attempt
import MiLsp.SelfUpdate.Version

namespace MiLsp.SelfUpdate

open Library.Attempt

structure Entry (Image : Type) where
  id : ℕ
  regular : Bool
  image : Image
deriving DecidableEq

structure TxOwner where
  schema : String
  source : String
  hash : String
deriving DecidableEq

structure Marker where
  size : ℕ
  owner : Option TxOwner
deriving DecidableEq

@[ext]
structure Disk (Image : Type) where
  executable : Option (Entry Image)
  backup : Option (Entry Image)
  marker : Option Marker
deriving DecidableEq

/-- What images answer when asked for their version, and the hashes of files and paths. -/
structure Host (Image : Type) where
  executablePath : String
  pathIdentity : String
  fileHash : Image → String
  readback : Image → Option String
  pathIdentity_length : pathIdentity.length = 64
  fileHash_length : ∀ image, (fileHash image).length = 64

inductive OSError
  | permission
  | textBusy
  | other

def txErrorCode : OSError → String
  | .permission => "UPDATE_PERMISSION_DENIED"
  | .textBusy => "UPDATE_IN_USE_DEFERRED"
  | .other => ""

inductive Site
  | statExecutable
  | hashExecutable
  | readOld
  | rehashExecutable
  | openArchive
  | statArchive
  | readArchive
  | seekArchive
  | createStage
  | extract
  | chmodStage
  | syncStage
  | closeStage
  | hashStage
  | statCurrent
  | hashCurrent
  | statBackup
  | createMarker
  | writeMarker
  | syncMarker
  | closeMarker
  | linkBackup
  | statLinked
  | hashLinked
  | statTarget
  | hashTarget
  | renameStage
  | readNew
  | refresh
  | restoreStatBackup
  | restoreHashBackup
  | restoreStatTarget
  | restoreHashTarget
  | restoreRename
  | removeBackup
  | removeMarker
  | readMarker
  | cleanupStat
  | cleanupHash
deriving DecidableEq

abbrev Faults := Site → Option OSError

def noFaults : Faults := fun _ ↦ none

def Site.restores : Site → Bool
  | restoreStatBackup | restoreHashBackup | restoreStatTarget | restoreHashTarget
  | restoreRename => true
  | _ => false

def Site.removes : Site → Bool
  | removeBackup | removeMarker => true
  | _ => false

structure Archive (Image : Type) where
  regular : Bool
  size : ℕ
  sha256 : String
  /-- What is extracted for the target version, if the archive is accepted. -/
  extracted : Option Image

structure Transaction (Image : Type) where
  archive : Option (Archive Image)
  expectedArchiveSHA256 : String
  targetVersion : String
  stageID : ℕ

structure TransactionResult where
  installed : String := ""
  previous : String := ""
  code : String := ""
  changed : Bool := false

inductive Mutation
  | createMarker
  | writeMarker
  | linkBackup
  | renameStage
  | restore
  | removeBackup
  | removeMarker
deriving DecidableEq

variable {Image : Type}

abbrev Log (Image : Type) := List (Mutation × Disk Image)

def Log.final (log : Log Image) (d : Disk Image) : Disk Image := (log.getLast?.map Prod.snd).getD d

def Log.cut (log : Log Image) (d : Disk Image) (m : Mutation) : Disk Image :=
  match log.find? (·.1 = m) with
  | some entry => entry.2
  | none => log.final d

structure Outcome (Image : Type) where
  result : TransactionResult
  failed : Bool
  log : Log Image

def txMaxArchive : ℕ := 512 * 2 ^ 20

def ownerSchema : String := "mi-lsp-transaction-owner/v1"

def txOwner (host : Host Image) (image : Image) : TxOwner :=
  ⟨ownerSchema, host.pathIdentity, host.fileHash image⟩

def ownerMarker (owner : TxOwner) : Marker where
  size := "\x7b\"schema\":\"\",\"source\":\"\",\"hash\":\"\"\x7d".length + owner.schema.length +
    owner.source.length + owner.hash.length
  owner := some owner

def isHexDigit (c : Char) : Bool := isDigit c || 'a' ≤ c && c ≤ 'f' || 'A' ≤ c && c ≤ 'F'

def fail (result : TransactionResult) (code : String) (log : Log Image) : Outcome Image :=
  ⟨{ result with code }, true, log⟩

variable (host : Host Image) (faults : Faults) (site : Site)

def attempt : Except OSError Unit :=
  match faults site with
  | some e => .error e
  | none => .ok ()

variable (entry : Option (Entry Image))

def lstat : Except OSError (Entry Image) := do
  attempt faults site
  orElse .other entry

def txFileHash : Except OSError String := do
  attempt faults site
  let entry ← orElse .other entry
  pure (host.fileHash entry.image)

def readback (site : Site) (entry : Option (Entry Image)) : Except OSError String := do
  attempt faults site
  let entry ← orElse .other entry
  orElse .other (host.readback entry.image)

variable (tx : Transaction Image)

def inspect (d : Disk Image) : Except String (Entry Image × String) := do
  if host.executablePath = "" ∨ txSemver tx.targetVersion = false then throw ""
  let info ← (lstat faults .statExecutable d.executable).mapError txErrorCode
  if info.regular = false then throw "UPDATE_PERMISSION_DENIED"
  let oldHash ← (txFileHash host faults .hashExecutable d.executable).mapError txErrorCode
  let oldVersion ← (readback host faults .readOld d.executable).mapError fun _ ↦ ""
  if txSemver oldVersion = false then throw ""
  let current ← (txFileHash host faults .rehashExecutable d.executable).mapError fun _ ↦ ""
  if current ≠ oldHash then throw ""
  pure (info, oldVersion)

def stage : Except String (Entry Image) := do
  (attempt faults .openArchive).mapError txErrorCode
  let archive ← orElse "" tx.archive
  let mismatch (_ : OSError) : String := "UPDATE_CHECKSUM_MISMATCH"
  (attempt faults .statArchive).mapError mismatch
  if archive.regular = false ∨ txMaxArchive < archive.size then throw "UPDATE_CHECKSUM_MISMATCH"
  (attempt faults .readArchive).mapError mismatch
  if tx.expectedArchiveSHA256.length ≠ 64 ∨ tx.expectedArchiveSHA256.toList.all isHexDigit = false ∨
      archive.sha256 ≠ tx.expectedArchiveSHA256.toLower then throw "UPDATE_CHECKSUM_MISMATCH"
  (attempt faults .seekArchive).mapError mismatch
  (attempt faults .createStage).mapError txErrorCode
  (attempt faults .extract).mapError txErrorCode
  let image ← orElse "" archive.extracted
  (attempt faults .chmodStage).mapError txErrorCode
  (attempt faults .syncStage).mapError txErrorCode
  (attempt faults .closeStage).mapError txErrorCode
  (attempt faults .hashStage).mapError txErrorCode
  pure ⟨tx.stageID, true, image⟩

def unchanged (statSite hashSite : Site) (info : Entry Image) (entry : Option (Entry Image)) :
    Bool :=
  match lstat faults statSite entry, txFileHash host faults hashSite entry with
  | .ok current, .ok currentHash =>
    current.regular && decide (info.id = current.id) &&
      decide (currentHash = host.fileHash info.image)
  | _, _ => false

variable (d : Disk Image)

def refreshInstalled (result : TransactionResult) : TransactionResult :=
  match readback host faults .refresh d.executable with
  | .ok v => { result with installed := if txSemver v then v else "" }
  | .error _ => { result with installed := "" }

def dropMarker : Log Image :=
  match faults .removeMarker with
  | some _ => []
  | none => [(.removeMarker, { d with marker := none })]

def dropBackup : Log Image :=
  match faults .removeBackup with
  | some _ => []
  | none => [(.removeBackup, { d with backup := none })]

def restoreTarget (staged : Entry Image) (executable : Option (Entry Image)) :
    Except String Unit := do
  (attempt faults .restoreStatTarget).mapError fun _ ↦ "target unavailable"
  match executable with
  | none => pure ()
  | some current =>
    if current.regular = false then throw "target identity changed"
    let hash ← (txFileHash host faults .restoreHashTarget executable).mapError
      fun _ ↦ "target content changed"
    if hash ≠ host.fileHash staged.image then throw "target content changed"

variable (info staged : Entry Image)

def restore (d : Disk Image) : Except String (Disk Image) := do
  let bi ← (lstat faults .restoreStatBackup d.backup).mapError fun _ ↦ "backup identity changed"
  if bi.regular = false ∨ info.id ≠ bi.id then throw "backup identity changed"
  let bh ← (txFileHash host faults .restoreHashBackup d.backup).mapError
    fun _ ↦ "backup content changed"
  if bh ≠ host.fileHash info.image then throw "backup content changed"
  restoreTarget host faults staged d.executable
  (attempt faults .restoreRename).mapError txErrorCode
  pure { d with executable := some bi, backup := none }

def rollback (oldVersion : String) (re : Option OSError)
    (swapped : Disk Image) (log : Log Image) : Outcome Image :=
  let result : TransactionResult := { installed := oldVersion }
  let code :=
    if swapped.executable.isNone ∨ re.any fun e ↦ txErrorCode e = "UPDATE_QUARANTINED" then
      "UPDATE_QUARANTINED"
    else "UPDATE_READBACK_FAILED_ROLLED_BACK"
  match restore host faults info staged swapped with
  | .error _ => fail (refreshInstalled host faults swapped result) "" log
  | .ok restored =>
    let log := log ++ (.restore, restored) :: dropMarker faults restored
    let result := refreshInstalled host faults restored result
    fail result (if result.installed ≠ oldVersion then "" else code) log

variable (info staged : Entry Image)

def promote (oldVersion : String) (linked : Disk Image) (log : Log Image) : Outcome Image :=
  match faults .renameStage with
  | some e =>
    let removed := dropBackup faults linked
    let installed := match readback host faults .refresh linked.executable with
      | .ok v => v
      | .error _ => ""
    fail { installed } (txErrorCode e) (log ++ removed ++ dropMarker faults (removed.final linked))
  | none =>
    let swapped := { linked with executable := some staged }
    let log := log ++ [(.renameStage, swapped)]
    match readback host faults .readNew swapped.executable with
    | .error e => rollback host faults info staged oldVersion (some e) swapped log
    | .ok version =>
      if version ≠ tx.targetVersion then
        rollback host faults info staged oldVersion none swapped log
      else ⟨{ installed := version, previous := oldVersion, changed := true }, false, log⟩

/-- The marker is created, and then the backup as a second link of the executable. -/
def secure (oldVersion : String) (d : Disk Image) : Outcome Image :=
  let result : TransactionResult := { installed := oldVersion }
  match faults .createMarker, d.marker with
  | some e, _ => fail result (txErrorCode e) []
  | none, some _ => fail result (txErrorCode .other) []
  | none, none =>
    let created := { d with marker := some ⟨0, none⟩ }
    let log := [(.createMarker, created)]
    match faults .writeMarker with
    | some e => fail result (txErrorCode e) (log ++ dropMarker faults created)
    | none =>
      let written := { d with marker := some (ownerMarker (txOwner host info.image)) }
      let log := log ++ [(.writeMarker, written)]
      match ((faults .syncMarker).or (faults .closeMarker)).or (faults .linkBackup) with
      | some e => fail result (txErrorCode e) (log ++ dropMarker faults written)
      | none =>
        let linked := { written with backup := d.executable }
        let log := log ++ [(.linkBackup, linked)]
        if unchanged host faults .statLinked .hashLinked info linked.backup = false ∨
            unchanged host faults .statTarget .hashTarget info linked.executable = false then
          fail (refreshInstalled host faults linked result) "" log
        else promote host faults tx info staged oldVersion linked log

def applyTransaction (d : Disk Image) : Outcome Image :=
  match inspect host faults tx d with
  | .error code => fail {} code []
  | .ok (info, oldVersion) =>
    match stage faults tx with
    | .error code => fail { installed := oldVersion } code []
    | .ok staged =>
      if unchanged host faults .statCurrent .hashCurrent info d.executable = false then
        fail (refreshInstalled host faults d { installed := oldVersion }) "" []
      else if (faults .statBackup).isSome ∨ d.backup.isSome then
        fail { installed := oldVersion } "UPDATE_IN_USE_DEFERRED" []
      else secure host faults tx info staged oldVersion d

def markerOwner (marker : Option Marker) : Except String TxOwner := do
  (attempt faults .readMarker).mapError fun _ ↦ "backup ownership unavailable"
  let marker ← orElse "backup ownership unavailable" marker
  if 4096 < marker.size then throw "backup ownership invalid"
  let owner ← orElse "backup ownership invalid" marker.owner
  if owner.schema ≠ ownerSchema ∨ owner.source ≠ host.pathIdentity then
    throw "backup ownership invalid"
  pure owner

def ownedBackup : Except String Unit := do
  let owner ← markerOwner host faults d.marker
  let info ← (lstat faults .cleanupStat d.backup).mapError fun _ ↦ "backup unavailable"
  if info.regular = false then throw "backup unavailable"
  let hash ← (txFileHash host faults .cleanupHash d.backup).mapError
    fun _ ↦ "backup identity changed"
  if hash ≠ owner.hash then throw "backup identity changed"

def cleanupOld (child : Bool) (d : Disk Image) : Option String × Log Image :=
  if child then (some "backup cleanup deferred", [])
  else match ownedBackup host faults d with
    | .error message => (some message, [])
    | .ok _ =>
      match faults .removeBackup with
      | some _ => (some "backup removal deferred", [])
      | none =>
        let removed := { d with backup := none }
        match faults .removeMarker with
        | some _ => (some "backup marker removal deferred", [(.removeBackup, removed)])
        | none =>
          (none, [(.removeBackup, removed), (.removeMarker, { removed with marker := none })])

end MiLsp.SelfUpdate
