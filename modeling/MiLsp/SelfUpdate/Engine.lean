import Mathlib.Algebra.Ring.Int.Defs
import MiLsp.Library.Strings
import MiLsp.SelfUpdate.Transaction

namespace MiLsp.SelfUpdate

open Library.Strings

inductive LastResult
  | unset
  | failed
  | deferred
  | updated
  | upToDate
  | disabled
  | pinned
deriving DecidableEq

structure Status where
  schema : String := ""
  tool : String := ""
  installed : String := ""
  latest : String := ""
  lastCheck : Option ℤ := none
  lastResult : LastResult := .unset
  code : Option String := none
  previous : Option String := none
  channel : String := ""
  auto : Bool := false

structure Asset where
  name : String
  url : String
  size : ℤ

structure Release where
  version : String
  assets : List Asset

structure UpdateCache where
  lastCheck : Option ℤ
  release : Release
  error : String

def allowedCodes : List String :=
  ["UPDATE_NETWORK_UNAVAILABLE", "UPDATE_NO_RELEASE", "UPDATE_CHECKSUM_MISMATCH",
    "UPDATE_DOWNGRADE_REFUSED", "UPDATE_BELOW_FLOOR", "UPDATE_LOCKED", "UPDATE_IN_USE_DEFERRED",
    "UPDATE_READBACK_FAILED_ROLLED_BACK", "UPDATE_QUARANTINED", "UPDATE_PERMISSION_DENIED"]

def statusSchema : String := "update-status/v1"

def toolName : String := "mi-lsp"

def validStatus (s : Status) : Bool :=
  decide (s.schema = statusSchema) && decide (s.tool = toolName) && decide (s.installed ≠ "") &&
  (decide (s.channel = "latest") || decide (s.channel = "pinned")) &&
  match s.lastResult with
  | .failed | .deferred => s.code.any (· ∈ allowedCodes) && s.previous.isNone
  | .updated =>
    s.code.isNone && s.previous.any (· ≠ "") && decide (s.latest ≠ "") &&
      decide (s.installed = s.latest)
  | .upToDate | .disabled | .pinned => s.code.isNone && s.previous.isNone
  | .unset => false

/-- The status and the cache on disk, where missing or unreadable files have no value. -/
structure World (Image : Type) where
  disk : Disk Image
  status : Option Status
  cache : Option UpdateCache

def readCached (status : Option Status) : Option Status := status.filter validStatus

structure Policy where
  channel : String
  auto : Bool
  reason : Option LastResult

inductive PinFile
  | missing
  | unreadable
  | invalid
  | valid (pinned : Bool)

/-- What the policy is read from: two variables of the environment and the pin file. -/
structure PolicySource where
  autoUpdate : Bool
  channelPinned : Bool
  pin : PinFile

def updatePolicy (p : PolicySource) : Except String Policy :=
  let pinned : Policy := ⟨"pinned", p.autoUpdate, some .pinned⟩
  let unpinned : Policy :=
    ⟨"latest", p.autoUpdate, if p.autoUpdate then none else some .disabled⟩
  if p.channelPinned then .ok pinned
  else match p.pin with
    | .unreadable => .error "cannot read policy"
    | .invalid => .error "invalid pin marker"
    | .valid true => .ok pinned
    | .valid false | .missing => .ok unpinned

inductive Lock
  | taken
  | busy
  | failed

inductive LatestError
  | noRelease
  | network
deriving DecidableEq

/-- What one call meets: the binary that makes it, the environment, the network, and its failures.
-/
structure Update (Image : Type) where
  automatic : Bool
  minimumVersion : String
  now : ℤ
  firstReadFails : Bool
  lockedReadFails : Bool
  lastReadFails : Bool
  policy : PolicySource
  lockedPolicy : PolicySource
  lock : Lock
  firstSaveFails : Bool
  secondSaveFails : Bool
  statusSaveFails : Bool
  latest : Except LatestError Release
  mkdirFails : Bool
  checksums : Option (List String)
  archive : Option (Archive Image)
  archiveOpenFails : Bool
  archiveReadFails : Bool
  stageID : ℕ
  faults : Faults

structure Source where
  allowedURL : String → Bool
  platform : String

def maxMetadata : ℤ := 2 * 2 ^ 20

def maxAsset : ℤ := 512 * 2 ^ 20

def releaseAssetName (source : Source) (version : String) : String :=
  "mi-lsp_" ++ version ++ "_" ++ source.platform ++ ".tar.gz"

def checksumsName (version : String) : String := "mi-lsp_" ++ version ++ "_checksums.txt"

def findAsset (assets : List Asset) (name : String) : Option Asset :=
  match assets.filter (·.name = name) with
  | [asset] => some asset
  | _ => none

def downloadPrefix : String := "https://github.com/fgpaz/mi-lsp/releases/download/"

def validReleaseAsset (source : Source) (a : Asset) (name : String) (limit : ℤ) : Bool :=
  decide (a.name = name) && decide (0 ≤ a.size) && decide (a.size ≤ limit) &&
  source.allowedURL a.url && hasPrefix a.url downloadPrefix &&
  match (a.url.toList.drop downloadPrefix.length).splitOn '/' with
  | [tag, file] => decide (tag ≠ []) && decide (file = name.toList)
  | _ => false

def fields (line : String) : List (List Char) :=
  (line.toList.splitOnP isSpace).filter (· ≠ [])

def checksumFor (lines : List String) (name : String) : Option String :=
  let listed := lines.filterMap fun line ↦
    match fields line with
    | [sum, file] => if (if file.head? = some '*' then file.drop 1 else file) = name.toList
        then some sum else none
    | _ => none
  match listed with
  | [sum] =>
    if sum.length = 64 && sum.all isHexDigit then some (String.ofList sum).toLower else none
  | _ => none

structure Reply (Image : Type) where
  status : Status
  error : Option String
  world : World Image

variable {Image : Type} (host : Host Image) (source : Source) (call : Update Image)

def installedVersion (d : Disk Image) : Option String :=
  d.executable.bind fun entry ↦ host.readback entry.image

def readInstalled (fails : Bool) (d : Disk Image) : Option String :=
  if fails then none else (installedVersion host d).filter (· ≠ "")

def saveStatus (s : Status) (w : World Image) : Reply Image :=
  if validStatus s = false then ⟨s, some "invalid status", w⟩
  else if call.statusSaveFails then ⟨s, some "cannot persist status", w⟩
  else ⟨s, none, { w with status := some s }⟩

def finishFailure (s : Status) (code : String) (w : World Image) : Reply Image :=
  if code ∉ allowedCodes then ⟨s, some "unknown update failure", w⟩
  else
    let lastResult := if code = "UPDATE_LOCKED" ∨ code = "UPDATE_IN_USE_DEFERRED" then
      LastResult.deferred else .failed
    saveStatus call { s with lastResult, code := some code, previous := none } w

def nilStatus (s prior : Status) (w : World Image) : Reply Image :=
  ⟨{ prior with channel := s.channel, auto := s.auto }, none, w⟩

def install (s : Status) (version : String) (archive : Archive Image) (hash : String)
    (w : World Image) : Reply Image :=
  let tx : Transaction Image := ⟨some archive, hash, version, call.stageID⟩
  let out := applyTransaction host call.faults tx w.disk
  let after := { w with disk := out.log.final w.disk }
  match readInstalled host call.lastReadFails after.disk with
  | none => ⟨s, some "installed version unavailable", after⟩
  | some actual =>
    let current := { s with installed := actual }
    if out.failed ∨ out.result.code ≠ "" then
      if out.result.code ∉ allowedCodes then ⟨current, some "transaction failed", after⟩
      else finishFailure call current out.result.code after
    else if out.result.changed = false ∨ actual ≠ version then
      ⟨current, some "transaction readback mismatch", after⟩
    else if out.result.previous = "" ∨ out.result.previous ≠ s.installed then
      ⟨current, some "previous version unavailable", after⟩
    else
      saveStatus call { current with previous := some out.result.previous, lastResult := .updated }
        after

def download (s : Status) (release : Release) (w : World Image) : Reply Image :=
  let archiveName := releaseAssetName source release.version
  let checksName := checksumsName release.version
  match findAsset release.assets archiveName, findAsset release.assets checksName with
  | some archiveAsset, some checks =>
    if validReleaseAsset source archiveAsset archiveName maxAsset = false ∨
        validReleaseAsset source checks checksName maxMetadata = false then
      ⟨s, some "invalid release asset", w⟩
    else if call.mkdirFails then finishFailure call s "UPDATE_PERMISSION_DENIED" w
    else match call.checksums with
      | none => finishFailure call s "UPDATE_NETWORK_UNAVAILABLE" w
      | some lines =>
        match checksumFor lines archiveName with
        | none => finishFailure call s "UPDATE_CHECKSUM_MISMATCH" w
        | some hash =>
          match call.archive with
          | none => finishFailure call s "UPDATE_NETWORK_UNAVAILABLE" w
          | some archive =>
            if call.archiveOpenFails then ⟨s, some "archive unavailable", w⟩
            else if call.archiveReadFails ∨ maxAsset < archive.size ∨ archive.sha256 ≠ hash then
              finishFailure call s "UPDATE_CHECKSUM_MISMATCH" w
            else install host call s release.version archive hash w
  | _, _ => finishFailure call s "UPDATE_NO_RELEASE" w

def upgrade (s : Status) (release : Release) (w : World Image) : Reply Image :=
  let s := { s with latest := release.version }
  match compareVersions release.version s.installed with
  | none => finishFailure call s "UPDATE_NO_RELEASE" w
  | some .lt => finishFailure call s "UPDATE_DOWNGRADE_REFUSED" w
  | some .eq => saveStatus call { s with lastResult := .upToDate } w
  | some .gt =>
    match compareVersions release.version call.minimumVersion with
    | none => finishFailure call s "UPDATE_NO_RELEASE" w
    | some .lt => finishFailure call s "UPDATE_BELOW_FLOOR" w
    | some _ => download host source call s release w

def day : ℤ := 24 * 3600 * 10 ^ 9

def freshCache (w : World Image) : Option (UpdateCache × ℤ) :=
  match w.cache with
  | some cache =>
    match cache.lastCheck with
    | some last => if call.automatic && decide (call.now - last < day) then some (cache, last)
        else none
    | none => none
  | none => none

def applyFresh (s prior : Status) (cache : UpdateCache) (last : ℤ) (w : World Image) :
    Reply Image :=
  let s := { s with lastCheck := some last }
  if cache.error ≠ "" then
    if cache.error ≠ "UPDATE_NETWORK_UNAVAILABLE" ∧ cache.error ≠ "UPDATE_NO_RELEASE" then
      ⟨s, some "invalid cache error", w⟩
    else if prior.lastCheck = some last ∧ prior.installed = s.installed ∧
        prior.lastResult = .failed ∧ prior.code = some cache.error then nilStatus s prior w
    else finishFailure call s cache.error w
  else if prior.lastResult ≠ .deferred ∧ prior.lastCheck = some last ∧
      prior.latest = cache.release.version ∧ prior.installed = s.installed then
    if (compareVersions cache.release.version cache.release.version).isNone then
      ⟨s, some "invalid cached release", w⟩
    else nilStatus s prior w
  else upgrade host source call s cache.release w

/-- The metadata is fetched; while that goes on the cache says that the network failed. -/
def applyFetched (s : Status) (w : World Image) : Reply Image :=
  let pending : UpdateCache := ⟨some call.now, ⟨"", []⟩, "UPDATE_NETWORK_UNAVAILABLE"⟩
  if call.firstSaveFails then ⟨s, some "cannot persist update cache", w⟩
  else
    match call.latest with
    | .error e =>
      let code := if e = .noRelease then "UPDATE_NO_RELEASE" else "UPDATE_NETWORK_UNAVAILABLE"
      if call.secondSaveFails then
        ⟨s, some "cannot persist update cache", { w with cache := some pending }⟩
      else
        finishFailure call { s with lastCheck := some call.now } code
          { w with cache := some { pending with error := code } }
    | .ok release =>
      if call.secondSaveFails then
        ⟨s, some "cannot persist update cache", { w with cache := some pending }⟩
      else
        upgrade host source call { s with lastCheck := some call.now } release
          { w with cache := some { pending with release, error := "" } }

def applyLocked (reason : Option LastResult) (s : Status) (w : World Image) : Reply Image :=
  let prior := (readCached w.status).getD {}
  match reason with
  | some reason =>
    saveStatus call
      { s with lastResult := reason, latest := prior.latest, lastCheck := prior.lastCheck } w
  | none =>
    match freshCache call w with
    | some (cache, last) => applyFresh host source call s prior cache last w
    | none => applyFetched host source call s w

def apply (w : World Image) : Reply Image :=
  match readInstalled host call.firstReadFails w.disk with
  | none => ⟨{}, some "installed version unavailable", w⟩
  | some installed =>
    match updatePolicy call.policy with
    | .error e => ⟨{}, some e, w⟩
    | .ok policy =>
      let s : Status :=
        { schema := statusSchema
          tool := toolName
          installed
          channel := policy.channel
          auto := policy.auto }
      match call.lock with
      | .busy => ⟨{ s with lastResult := .deferred, code := some "UPDATE_LOCKED" }, none, w⟩
      | .failed => ⟨s, some "update failed", w⟩
      | .taken =>
        match readInstalled host call.lockedReadFails w.disk with
        | none => ⟨s, some "update failed", w⟩
        | some actual =>
          let s := { s with installed := actual }
          match updatePolicy call.lockedPolicy with
          | .error _ => ⟨s, some "update failed", w⟩
          | .ok policy =>
            let s := { s with channel := policy.channel, auto := policy.auto }
            let reply := applyLocked host source call policy.reason s w
            { reply with error := reply.error.map fun _ ↦ "update failed" }

end MiLsp.SelfUpdate
