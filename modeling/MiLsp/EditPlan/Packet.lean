import MiLsp.Library.Lines
import MiLsp.Library.Strings
import MiLsp.Library.Table

namespace MiLsp.EditPlan

open Library.Strings

inductive EditPlanVersion
  | v1
  | v2
deriving DecidableEq

inductive EditPlanKind
  | replaceLiteral
  | replaceRegexLimited
  | insertBefore
  | insertAfter
  | replaceRange
  | deleteRange
  | replaceGoFunction
  | replaceGoFunctionBody
  | insertGoFunctionAfter
  | ensureGoImport
  | removeGoImport
  | other (name : String)
deriving DecidableEq

structure EditPlanRange where
  startLine : ℤ
  endLine : ℤ

structure EditPlanTarget where
  id : String
  path : String
  language : String
  range : EditPlanRange
  expectedHash : String
  hashMode : String
  symbolName : Option String

structure EditPlanOperation where
  id : String
  kind : EditPlanKind
  targetID : String
  find : Bytes
  replace : Bytes
  content : Bytes
  importPath : String
  maxReplacements : ℤ
deriving DecidableEq

structure EditPlanConstraints where
  requireCleanMatch : Bool
  requireEvidence : Bool
  denyPaths : List String
  maxFileBytes : ℤ

structure EditPlanRequest where
  version : String
  targets : List EditPlanTarget
  operations : List EditPlanOperation
  constraints : EditPlanConstraints

inductive RangeError
  | startLineNotPositive
  | endBeforeStart
  | outside (startLine endLine : ℤ) (lineCount : ℕ)

inductive LanguageError
  | required (relPath : String)
  | unsupported (language : String)

inductive PathError
  | required
  | newline
  | outsideRoot
  | symlinkOutsideRoot
  | denied (pattern : String)
deriving DecidableEq

inductive TargetError
  | path (cause : PathError)
  | unreadable (cause : String)
  | notEvidence
  | directory
  | tooLarge (maxFileBytes : ℤ)
  | readFailed (cause : String)
  | binary
  | language (cause : LanguageError)
  | range (cause : RangeError)
  | hashMode (value : String)
  | expectedHashRequired
  | expectedHashMismatch

inductive OperationError
  | targetIDRequired
  | unknownTarget (targetID : String)
  | findRequired (kind : EditPlanKind)
  | maxReplacementsRequired
  | multilineRegex
  | invalidRegex (cause : String)
  | contentRequired
  | unsupportedKind (kind : EditPlanKind)
  | languageNotSupported (language : String)
  | symbolNameRequired
  | importRequired
  | unsupportedKindV2 (kind : EditPlanKind)
  | rangeNoLongerValid (cause : RangeError)
  | matchNotFound (kind : EditPlanKind)
  | tooManyMatches (kind : EditPlanKind) (count : ℕ) (maxReplacements : ℤ)
  | goAST (cause : String)
  /-- The operation's target id names no target: its nil file state is a run-time panic. -/
  | nilFileState

inductive EditPlanError
  | unsupportedVersion (version : String)
  | noTargets
  | noOperations
  | targetIDRequired
  | duplicateTarget (id : String)
  | target (id : String) (cause : TargetError)
  | operationIDRequired
  | duplicateOperation (id : String)
  | operation (id : String) (cause : OperationError)
  | operationOverlap (id previous : String)

structure FileInfo where
  isDir : Bool
  size : ℤ

structure CompiledRegex where
  findAllStringIndex : Bytes → List (ℕ × ℕ)
  replaceAllString : Bytes → Bytes → Bytes

inductive Presence
  | present
  | absent
  | failed

structure Host where
  lstat : String → Presence
  evalSymlinks : String → Except String String
  stat : String → Except String FileInfo
  readFile : String → Except String Bytes
  sha256Hex : Bytes → String
  toLower : String → String
  pathMatch : String → String → Bool
  compile : Bytes → Except String CompiledRegex

end MiLsp.EditPlan
