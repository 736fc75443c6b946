import Mathlib.Data.List.Dedup
import Mathlib.Data.List.Sort
import MiLsp.Library.Paths
import MiLsp.Library.Strings

namespace MiLsp.Incremental

open Library Strings

variable (path : String)

def cleanPath : String := String.ofList (Paths.clean path.toList)

def joinPath (dir path : String) : String := String.ofList (Paths.join dir.toList path.toList)

def isAbs (path : String) : Bool := Paths.isAbs path.toList

def baseName : String :=
  let trimmed := path.toList.reverse.dropWhile (· = '/')
  if path = "" then "."
  else if trimmed = [] then "/"
  else String.ofList (trimmed.takeWhile (· ≠ '/')).reverse

def trimSlashes : String :=
  String.ofList ((path.toList.dropWhile (· = '/')).reverse.dropWhile (· = '/')).reverse

def segments : List String := (path.toList.splitOn '/').map String.ofList

def backslashes : String :=
  String.ofList (path.toList.map fun c ↦ if c = '\\' then '/' else c)

def absPath (cwd path : String) : String := if isAbs path then cleanPath path else joinPath cwd path

/-- The way from `root` to `path`, both clean and absolute, unless it leaves `root`. -/
def relTo (root path : String) : Option String :=
  if path = root then some "."
  else if root = "/" then some (trimPrefix path "/")
  else (Paths.below? root.toList path.toList).map String.ofList

def normalizeIncrementalPath : String :=
  let path := trimSpace (backslashes path)
  if path = "" ∨ '\x00' ∈ path.toList then ""
  else
    let clean := trimPrefix (cleanPath path) "./"
    if clean = "." then "" else clean

/-- A list of path elements goes through a directory that nobody indexes. -/
def excludedSegments (skip : List String) : List String → Bool
  | [] => false
  | part :: rest =>
    skip.contains part ||
      part = ".docs" && rest.head?.any (["raw", "auditoria", "temp"].contains ·) ||
      excludedSegments skip rest

def registry : List (String × String) :=
  [(".js", "javascript"), (".jsx", "javascript"), (".mjs", "javascript"), (".cjs", "javascript"),
    (".ts", "typescript"), (".tsx", "typescript"), (".mts", "typescript"), (".cts", "typescript"),
    (".cs", "csharp"), (".kt", "kotlin"), (".rs", "rust"), (".go", "go"), (".py", "python"),
    (".pyi", "python")]

variable (toLower : String → String)

def forPath (path : String) : Option String := registry.lookup (toLower (ext path))

def isSupportedCodePath (path : String) : Bool := (forPath toLower path).isSome

def languageFromExt (path : String) : Option String := forPath toLower (toLower (ext path))

def isExcludedIncrementalPath (path : String) : Bool :=
  excludedSegments [".mi-lsp", ".git", ".worktrees"]
    (segments (toLower (trimSlashes (normalizeIncrementalPath path))))

def authorityNames : List String :=
  ["00_governance.md", "07_technical.md", ".gitignore", ".gitattributes", ".gitmodules",
    ".milspignore", "00_gobierno_documental.md"]

def isAuthorityConfigPath (path : String) : Bool :=
  let normalized := toLower (normalizeIncrementalPath path)
  if normalized = "" ∨ isExcludedIncrementalPath toLower normalized then false
  else
    let base := baseName normalized
    if base = "read-model.toml" ∧ (segments (trimSlashes normalized)).contains "_mi-lsp" then true
    else if authorityNames.contains base then true
    else if base = "project.toml" then hasPrefix normalized ".mi-lsp/"
    else hasPrefix normalized "readme" && hasSuffix normalized ".md"

def isDocPath (path : String) : Bool :=
  let normalized := toLower path
  let base := toLower (baseName path)
  hasPrefix normalized "wiki/" || hasPrefix normalized ".docs/wiki/" ||
    hasSuffix normalized ".md" || hasSuffix normalized ".mdown" ||
    hasSuffix normalized ".markdown" || hasPrefix base "readme" && hasSuffix base ".md"

variable (cwd root path : String)

def incrementalPath? : Option String :=
  let path := trimSpace path
  let way :=
    if path = "" then none
    else if isAbs path then relTo (absPath cwd root) (cleanPath path)
    else some path
  (way.map normalizeIncrementalPath).filter fun path ↦
    path ≠ "" && path ≠ ".." && !hasPrefix path "../" && !isExcludedIncrementalPath toLower path &&
      (isSupportedCodePath toLower path || isDocPath toLower path ||
        isAuthorityConfigPath toLower path)

def normalizeIncrementalPaths (cwd root : String) (paths : List String) : List String :=
  (paths.filterMap (incrementalPath? toLower cwd root)).dedup.insertionSort (· ≤ ·)

theorem mem_normalizeIncrementalPaths {cwd root : String} {paths : List String} {rel : String} :
    rel ∈ normalizeIncrementalPaths toLower cwd root paths ↔
      ∃ path ∈ paths, incrementalPath? toLower cwd root path = some rel := by
  rw [normalizeIncrementalPaths, (List.perm_insertionSort _ _).mem_iff, List.mem_dedup,
    List.mem_filterMap]

theorem incrementalPath?_kind {cwd root path rel : String}
    (h : incrementalPath? toLower cwd root path = some rel) :
    isExcludedIncrementalPath toLower rel = false ∧
      (isSupportedCodePath toLower rel ∨ isDocPath toLower rel ∨
        isAuthorityConfigPath toLower rel) := by
  have hkept := (Option.filter_eq_some_iff.mp h).2
  simp only [Bool.and_eq_true, Bool.or_eq_true, Bool.not_eq_true', or_assoc] at hkept
  exact ⟨hkept.1.2, hkept.2⟩

inductive WatchDomain
  | authorityConfig
  | docs
  | code
deriving DecidableEq

def skipDirs : List String :=
  [".git", "node_modules", "bin", "obj", "dist", ".mi-lsp", ".vs", ".idea", "__pycache__",
    ".worktrees", "vendor", ".next", "out"]

def normalizeWatchPath : String :=
  let path := trimSpace (backslashes path)
  if path = "" ∨ '\x00' ∈ path.toList then ""
  else
    let inside := if root = "" then none else relTo (absPath cwd root) (absPath cwd path)
    if root ≠ "" ∧ inside = none ∧ isAbs path then ""
    else
      let path := trimPrefix (cleanPath (inside.getD path)) "./"
      if path = "." then "" else toLower path

def isExcludedWatchPath (path : String) : Bool :=
  excludedSegments skipDirs (segments (trimSlashes path))

def isCanonicalMarkdownWatchPath (path : String) : Bool :=
  let lower := toLower path
  (hasSuffix lower ".md" || hasSuffix lower ".mdown" || hasSuffix lower ".markdown") &&
    ([".docs/", "wiki/", "docs/", "bibliotecas/"].any (hasPrefix lower) ||
      hasPrefix (toLower (baseName lower)) "readme")

def classifyWatchPath : Option WatchDomain :=
  let path := normalizeWatchPath toLower cwd root path
  if path = "" ∨ isExcludedWatchPath path then none
  else if isAuthorityConfigPath toLower path then some .authorityConfig
  else if isSupportedCodePath toLower path then some .code
  else if isCanonicalMarkdownWatchPath toLower path then some .docs
  else none

end MiLsp.Incremental
