import MiLsp.Library.Attempt
import MiLsp.Library.Paths
import MiLsp.EditPlan.Ranges

namespace MiLsp.EditPlan

open Library Strings Attempt Paths

def cleanPath (path : String) : String := String.ofList (Paths.clean path.toList)

def editPlanDenyPaths (configured : List String) : List String :=
  [".git/**", ".mi-lsp/**", ".docs/wiki/_mi-lsp/read-model.toml"] ++
    (configured.map trimSpace).filter (· ≠ "")

def editPlanPathInsideRoot (root absPath : String) : Bool :=
  let root := cleanPath root
  let absPath := cleanPath absPath
  absPath = root || hasPrefix absPath (root ++ "/")

variable (host : Host)

def denies (pattern relPath : String) : Bool :=
  let normalized := trimPrefix (trimSpace pattern) "./"
  let directory := trimSuffix normalized "/**"
  normalized ≠ "" &&
    (hasSuffix normalized "/**" && (relPath = directory || hasPrefix relPath (directory ++ "/")) ||
      relPath = normalized || host.pathMatch normalized relPath)

def editPlanDeniedBy (relPath : String) (denyPaths : List String) : Option String :=
  denyPaths.find? (denies host · (trimPrefix (cleanPath relPath) "./"))

/-- The walk meets at most one directory for each character of the path. -/
def evalExistingPathOrAncestor : ℕ → String → Except String String
  | 0, _ => .error "file does not exist"
  | steps + 1, candidate =>
    match host.lstat candidate with
    | .present => host.evalSymlinks candidate
    | .failed => .error "lstat failed"
    | .absent =>
      let parent := String.ofList (Paths.dir candidate.toList)
      if parent = candidate then .error "file does not exist"
      else evalExistingPathOrAncestor steps parent

def symlinkLeavesRoot (root absPath : String) : Bool :=
  match evalExistingPathOrAncestor host (absPath.length + 1) (cleanPath absPath) with
  | .error _ => false
  | .ok evaluated =>
    match host.evalSymlinks root with
    | .ok resolvedRoot => !editPlanPathInsideRoot resolvedRoot evaluated
    | .error _ => !editPlanPathInsideRoot root evaluated

def editPlanAbsPath (root : List Char) (requested : String) : List Char :=
  Paths.clean
    (if Paths.isAbs requested.toList then requested.toList
      else Paths.join root requested.toList)

def relativeEditPlanPath (root absPath : List Char) (denyPaths : List String) :
    Except PathError (String × String) :=
  match Paths.below? root absPath with
  | none => .error .outsideRoot
  | some rel =>
    if Paths.dotDot.isPrefixOf rel then .error .outsideRoot
    else
      let rel := String.ofList (Paths.clean rel)
      match editPlanDeniedBy host rel denyPaths with
      | some pattern => .error (.denied pattern)
      | none => .ok (String.ofList absPath, rel)

def resolveEditPlanPath (root requested : String) (denyPaths : List String) :
    Except PathError (String × String) :=
  let root := Paths.clean root.toList
  let absPath := editPlanAbsPath root requested
  if trimSpace requested = "" then .error .required
  else if requested.toList.any fun c ↦ c = '\r' || c = '\n' then .error .newline
  else if !editPlanPathInsideRoot (String.ofList root) (String.ofList absPath) then
    .error .outsideRoot
  else if symlinkLeavesRoot host (String.ofList root) (String.ofList absPath) then
    .error .symlinkOutsideRoot
  else relativeEditPlanPath host root absPath denyPaths

section Paths

variable {abs rel : String} {denyPaths : List String}

theorem relativeEditPlanPath_eq_ok {root path : List Char}
    (h : relativeEditPlanPath host root path denyPaths = .ok (abs, rel)) :
    abs = String.ofList path ∧ editPlanDeniedBy host rel denyPaths = none ∧
      ∃ below, below? root path = some below ∧ ¬dotDot.isPrefixOf below ∧
        rel = String.ofList (clean below) := by
  unfold relativeEditPlanPath at h
  split at h
  · cases h
  next below hbelow =>
    split at h
    · cases h
    next hdots =>
      dsimp only at h
      split at h
      · cases h
      next hdenied =>
        cases h
        exact ⟨rfl, hdenied, below, hbelow, hdots, rfl⟩

variable {root requested : String}

theorem resolveEditPlanPath_eq_ok
    (h : resolveEditPlanPath host root requested denyPaths = .ok (abs, rel)) :
    symlinkLeavesRoot host (String.ofList (clean root.toList))
        (String.ofList (editPlanAbsPath (clean root.toList) requested)) = false ∧
      relativeEditPlanPath host (clean root.toList)
        (editPlanAbsPath (clean root.toList) requested) denyPaths = .ok (abs, rel) := by
  unfold resolveEditPlanPath at h
  dsimp only at h
  split_ifs at h with _ _ _ hleaves
  exact ⟨by simpa using hleaves, h⟩

theorem resolveEditPlanPath_abs
    (h : resolveEditPlanPath host root requested denyPaths = .ok (abs, rel)) :
    abs = String.ofList (clean root.toList ++ '/' :: rel.toList) := by
  obtain ⟨-, hrelative⟩ := resolveEditPlanPath_eq_ok host h
  obtain ⟨rfl, -, below, hbelow, hdots, rfl⟩ := relativeEditPlanPath_eq_ok host hrelative
  have habs := below?_eq_some hbelow
  rw [String.toList_ofList, clean_below (clean_ne_nil _) habs hdots, habs]

end Paths

structure EditPlanResolvedTarget (root : String) (denyPaths : List String) where
  target : EditPlanTarget
  relPath : String
  absPath : String
  before : Bytes
  startByte : ℕ
  endByte : ℕ
  lineCount : ℕ
  path_ok : resolveEditPlanPath host root target.path denyPaths = .ok (absPath, relPath)
  before_ok : host.readFile absPath = .ok before
  range_ok : editPlanLineRangeOffsets before target.range.startLine target.range.endLine =
    .ok (startByte, endByte, lineCount)
  endLine_pos : 0 < target.range.endLine

structure EditPlanGuardrail where
  code : String
  status : String
  message : String

inductive EditPlanEvidence
  | targetHash (path value : String)
  | targetRange (path : String) (startLine endLine : ℤ)
  | targetContent (path : String) (value : Bytes)

structure EditPlanFlags where
  strict : Bool
  applyRequested : Bool
  includeContent : Bool
  evidenceOnlyDirtyApply : Bool

def editPlanVersion (packet : EditPlanRequest) : Option EditPlanVersion :=
  if trimSpace packet.version = "edit-plan-v1" then some .v1
  else if trimSpace packet.version = "edit-plan-v2" then some .v2
  else none

def editPlanBinaryExtensions : List String :=
  [".7z", ".bin", ".bmp", ".db", ".dll", ".dylib", ".exe", ".gif", ".gz", ".ico", ".jar", ".jpeg",
    ".jpg", ".pdf", ".png", ".sqlite", ".sqlite3", ".tar", ".webp", ".zip"]

def isEditPlanBinaryPath (relPath : String) (content : Bytes) : Bool :=
  host.toLower (ext relPath) ∈ editPlanBinaryExtensions || (0 : UInt8) ∈ content

def normalizeEditPlanTargetLanguage (language relPath : String) : Except LanguageError String := do
  let language := host.toLower (trimSpace language)
  let language ←
    if language = "" then
      let extension := host.toLower (ext relPath)
      if extension = ".go" then .ok "go"
      else if extension = ".cs" then .ok "csharp"
      else if extension ∈ [".ts", ".tsx", ".js", ".jsx"] then .ok "typescript"
      else if extension = ".py" then .ok "python"
      else .error (.required relPath)
    else if language = "cs" then .ok "csharp"
    else if language ∈ ["ts", "tsx", "javascript", "js", "jsx"] then .ok "typescript"
    else if language = "py" then .ok "python"
    else .ok language
  if language ∈ ["go", "csharp", "typescript", "python"] then .ok language
  else .error (.unsupported language)

def editPlanHashMatches (expected actual : String) : Bool :=
  trimPrefix (trimSpace (host.toLower expected)) "sha256:" = host.toLower actual

def editPlanEvidenceContent (content : Bytes) (start stop : ℕ) : Bytes :=
  if stop < start ∨ content.length < stop then []
  else ((content.take stop).drop start).take 8000

variable (version : EditPlanVersion)

/-- A version 2 target names its language, and may leave its range open at both ends. -/
def normalizeEditPlanTarget (relPath : String)
    (target : EditPlanTarget) :
    Except LanguageError { t : EditPlanTarget // t.path = target.path } :=
  match version with
  | .v1 => .ok ⟨target, rfl⟩
  | .v2 => do
    let language ← normalizeEditPlanTargetLanguage host target.language relPath
    if target.range.startLine ≤ 0 ∧ target.range.endLine ≤ 0 then
      .ok ⟨{ target with language := language, range.startLine := 1 }, rfl⟩
    else .ok ⟨{ target with language := language }, rfl⟩

variable (root : String)

def resolveEditPlanTarget (denyPaths : List String) (flags : EditPlanFlags)
    (version : EditPlanVersion) (maxFileBytes : ℤ) (target : EditPlanTarget) :
    Except TargetError (EditPlanResolvedTarget host root denyPaths) := do
  let ⟨(absPath, relPath), hpath⟩ ←
    (attach (resolveEditPlanPath host root target.path denyPaths)).mapError .path
  let info ← (host.stat absPath).mapError .unreadable
  if flags.evidenceOnlyDirtyApply && !hasPrefix relPath ".docs/auditoria/" then
    throw .notEvidence
  if info.isDir then throw .directory
  if info.size > maxFileBytes then throw (.tooLarge maxFileBytes)
  let ⟨before, hbefore⟩ ← (attach (host.readFile absPath)).mapError .readFailed
  if isEditPlanBinaryPath host relPath before then throw .binary
  let ⟨target, htarget⟩ ← (normalizeEditPlanTarget host version relPath target).mapError .language
  let ⟨(startByte, endByte, lineCount), hrange⟩ ←
    (attach (editPlanLineRangeOffsets before target.range.startLine
      target.range.endLine)).mapError .range
  return {
    target := { target with
      range.endLine :=
        if target.range.endLine ≤ 0 then (lineCount : ℤ) else target.range.endLine }
    relPath, absPath, before, startByte, endByte, lineCount
    path_ok := by simpa only [htarget] using hpath
    before_ok := hbefore
    range_ok := editPlanLineRangeOffsets_endLine hrange
    endLine_pos := editPlanLineRangeOffsets_endLine_pos hrange }

/-- A missing or wrong hash is a warning, except where it is required. -/
def checkExpectedHash (id : String) (required : Bool) (target : EditPlanTarget) (actual : String) :
    Except TargetError (List EditPlanGuardrail) :=
  let hashMode := host.toLower (trimSpace target.hashMode)
  let expectedHash := trimSpace target.expectedHash
  if hashMode ≠ "" ∧ hashMode ≠ "physical_bytes" then .error (.hashMode target.hashMode)
  else if expectedHash = "" then
    if required then .error .expectedHashRequired
    else .ok [⟨"missing_expected_hash", "warning",
      "target " ++ id ++ " has no expected_hash; dry-run validated current bytes only"⟩]
  else if !editPlanHashMatches host expectedHash actual then
    if required then .error .expectedHashMismatch
    else .ok [⟨"expected_hash_mismatch", "warning",
      "target " ++ id ++ ": expected_hash mismatch; dry-run based on current file bytes"⟩]
  else .ok []

def editPlanOperationUsesWholeRange : EditPlanKind → Bool
  | .insertBefore | .insertAfter | .deleteRange | .replaceRange => true
  | _ => false

variable (operation : EditPlanOperation)

def editPlanOperationImportPath : Bool :=
  trimSpace operation.importPath ≠ "" || !isBlank operation.content

def validateEditPlanV2Operation (target : EditPlanTarget) : Except OperationError Unit :=
  if target.language ≠ "go" then .error (.languageNotSupported target.language)
  else
    match operation.kind with
    | .replaceGoFunction | .replaceGoFunctionBody | .insertGoFunctionAfter =>
      if (target.symbolName.map trimSpace).getD "" = "" then .error .symbolNameRequired
      else if isBlank operation.content then .error .contentRequired
      else .ok ()
    | .ensureGoImport | .removeGoImport =>
      if editPlanOperationImportPath operation then .ok () else .error .importRequired
    | kind => .error (.unsupportedKindV2 kind)

def validateEditPlanOperation (version : EditPlanVersion)
    (target : EditPlanTarget) : Except OperationError Unit :=
  match version, operation.kind with
  | .v2, _ => validateEditPlanV2Operation operation target
  | .v1, .replaceLiteral =>
    if operation.find = [] then .error (.findRequired .replaceLiteral) else .ok ()
  | .v1, .replaceRegexLimited =>
    if operation.find = [] then .error (.findRequired .replaceRegexLimited)
    else if operation.maxReplacements ≤ 0 then .error .maxReplacementsRequired
    else if carriageReturn ∈ operation.find ∨ newline ∈ operation.find then .error .multilineRegex
    else
      match host.compile operation.find with
      | .error cause => .error (.invalidRegex cause)
      | .ok _ => .ok ()
  | .v1, .insertBefore | .v1, .insertAfter | .v1, .replaceRange =>
    if operation.content = [] then .error .contentRequired else .ok ()
  | .v1, .deleteRange => .ok ()
  | .v1, kind => .error (.unsupportedKind kind)

structure EditPlanTargets (root : String) (denyPaths : List String) where
  byID : Table (Prod.fst : String × EditPlanResolvedTarget host root denyPaths → String)
  requested : List EditPlanTarget
  guardrails : List EditPlanGuardrail
  evidence : List EditPlanEvidence

def addEditPlanTarget (denyPaths : List String) (flags : EditPlanFlags) (version : EditPlanVersion)
    (maxFileBytes : ℤ) (requireEvidence : Bool) (plan : EditPlanTargets host root denyPaths)
    (target : EditPlanTarget) : Except EditPlanError (EditPlanTargets host root denyPaths) := do
  let id := trimSpace target.id
  if id = "" then throw .targetIDRequired
  if (plan.byID.find? id).isSome then throw (.duplicateTarget id)
  let resolved ←
    (resolveEditPlanTarget host root denyPaths flags version maxFileBytes target).mapError
      (.target id)
  let hash := host.sha256Hex resolved.before
  let required := flags.applyRequested || flags.strict || requireEvidence
  let warnings ← (checkExpectedHash host id required target hash).mapError (.target id)
  let content :=
    if flags.includeContent then
      [.targetContent resolved.relPath
        (editPlanEvidenceContent resolved.before resolved.startByte resolved.endByte)]
    else []
  return {
    byID := plan.byID.put (id, resolved)
    requested := plan.requested ++ [resolved.target]
    guardrails := plan.guardrails ++ warnings
    evidence := plan.evidence ++
      [.targetHash resolved.relPath ("sha256:" ++ hash),
        .targetRange resolved.relPath resolved.target.range.startLine
          resolved.target.range.endLine] ++ content }

/-- Operations of version 1 that use their whole range are allowed once for each target. -/
def checkEditPlanOperation (denyPaths : List String) (version : EditPlanVersion)
    (plan : EditPlanTargets host root denyPaths)
    (seen : List String × List (String × String)) (operation : EditPlanOperation) :
    Except EditPlanError (List String × List (String × String)) := do
  let id := trimSpace operation.id
  if id = "" then throw .operationIDRequired
  if id ∈ seen.1 then throw (.duplicateOperation id)
  let targetID := trimSpace operation.targetID
  if targetID = "" then throw (.operation id .targetIDRequired)
  let some (_, resolved) := plan.byID.find? targetID
    | throw (.operation id (.unknownTarget targetID))
  (validateEditPlanOperation host operation version resolved.target).mapError (.operation id)
  if version = .v1 ∧ editPlanOperationUsesWholeRange operation.kind then
    if let some previous := seen.2.lookup targetID then throw (.operationOverlap id previous)
    return (id :: seen.1, (targetID, id) :: seen.2)
  return (id :: seen.1, seen.2)

structure ValidatedEditPlan (root : String) where
  packet : EditPlanRequest
  version : EditPlanVersion
  denyPaths : List String
  targets : EditPlanTargets host root denyPaths

def editPlanGuardrails (flags : EditPlanFlags) : List EditPlanGuardrail :=
  [⟨"dry_run_default", "active",
      "dry-run is the default; writes require --apply --experimental-apply"⟩,
    ⟨"no_stage_commit_format", "active",
      "edit-plan never stages, commits, formats, renames, chmods, or deletes directories"⟩,
    ⟨"path_denylist", "active",
      "blocked paths include .git/**, .mi-lsp/**, read-model.toml, binaries, and " ++
        "configured deny_paths"⟩] ++
  (if version = .v2 then
    [⟨"go_ast_only", "active",
      "edit-plan-v2 implements Go AST operations only; C#, TypeScript, and Python return " ++
        "language_not_supported"⟩]
  else []) ++
  (if flags.applyRequested then
    if flags.evidenceOnlyDirtyApply then
      [⟨"evidence_only_dirty_apply", "active",
        "authorized evidence-only dirty apply permits only pre-existing tracked unstaged paths " ++
          "outside .docs/auditoria/** targets; staged and source/app paths are rejected"⟩]
    else
      [⟨"apply_clean_git", "active",
        "apply requires a clean git workspace and revalidated hashes"⟩]
  else [])

def defaultEditPlanMaxFileBytes : ℤ := 1000000

def validateEditPlanPacket (packet : EditPlanRequest) (flags : EditPlanFlags) :
    Except EditPlanError (ValidatedEditPlan host root) := do
  let some version := editPlanVersion packet | throw (.unsupportedVersion packet.version)
  if packet.targets = [] then throw .noTargets
  if packet.operations = [] then throw .noOperations
  let maxFileBytes :=
    if packet.constraints.maxFileBytes ≤ 0 then defaultEditPlanMaxFileBytes
    else packet.constraints.maxFileBytes
  let denyPaths := editPlanDenyPaths packet.constraints.denyPaths
  let targets ← packet.targets.foldlM
    (addEditPlanTarget host root denyPaths flags version maxFileBytes
      packet.constraints.requireEvidence)
    { byID := .empty, requested := [], guardrails := editPlanGuardrails version flags,
      evidence := [] }
  let _ ← packet.operations.foldlM (checkEditPlanOperation host root denyPaths version targets)
    ([], [])
  return {
    packet := { packet with version := trimSpace packet.version, targets := targets.requested }
    version, denyPaths, targets }

end MiLsp.EditPlan
