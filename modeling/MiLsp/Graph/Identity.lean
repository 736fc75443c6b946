import Mathlib.Data.Vector.Basic
import MiLsp.Library.Attempt
import MiLsp.Library.Strings

namespace MiLsp.Graph

open Library.Strings

abbrev GraphDigest := Vector UInt8 32

instance : LawfulBEq GraphDigest := Vector.instLawfulBEq

def zeroDigest : GraphDigest := Vector.replicate 32 0

inductive GraphError
  | coded (code field message : String)
  | nodeKeyInvalid
  | edgeInvalid
  | evidenceInvalid
  | unresolved
  | generationInvalid
  | generationCorrupt
  | pointerConflict
  | constraint
  | noRows
  | migrationTransition
  | compatibilityConflict
  | crashRecoveryRequired
deriving DecidableEq

structure URL where
  scheme : String
  host : String
  hostname : String
  hasUser : Bool
  rawQuery : String
  fragment : String
  escapedPath : String

structure GraphHost where
  sha256 : Bytes → GraphDigest
  nfc : String → String
  toLower : String → String
  parseURL : String → Option URL

variable (host : GraphHost)

def isControl (c : Char) : Bool := c.val < 0x20 || 0x7F ≤ c.val && c.val < 0xA0

variable (v : String)

def normalizeText : Except GraphError String :=
  if v.toList.any isControl then
    .error (.coded "GPH_IDENTITY_FIELD_MISSING" "" "control character is forbidden")
  else .ok (host.nfc (trimSpace v))

def required (v field : String) : Except GraphError String := do
  let v ← normalizeText host v
  if v = "" then throw (.coded "GPH_IDENTITY_FIELD_MISSING" field "field is required")
  return v

def isLowerASCII (b : UInt8) : Bool := 97 ≤ b && b ≤ 122

def isNameByte (b : UInt8) : Bool :=
  isLowerASCII b || 48 ≤ b && b ≤ 57 || b ∈ [46, 95, 43, 45]

def enum (v field : String) : Except GraphError String := do
  let v ← required host v field
  let v := host.toLower v
  if !(utf8 v).head?.any isLowerASCII then
    throw (.coded "GPH_IDENTITY_ENUM_INVALID" field
      "identifier must start with lowercase ASCII letter")
  if !(utf8 v).all isNameByte then
    throw (.coded "GPH_IDENTITY_ENUM_INVALID" field
      "identifier must use lowercase ASCII registered-name characters")
  return v

def hasDrive : Bool := (utf8 v)[1]? = some 58

def slashPath (v field : String) : Except GraphError String := do
  let v ← required host v field
  if containsRune v '\\' || hasPrefix v "/" || hasPrefix v "//" || hasDrive v then
    throw (.coded "GPH_IDENTITY_PATH_INVALID" field "path must be relative slash form")
  let parts := v.toList.splitOn '/'
  if parts.any fun part ↦ part = [] || part = ['.', '.'] then
    throw (.coded "GPH_IDENTITY_PATH_INVALID" field "invalid path segment")
  let out := parts.filter (· ≠ ['.'])
  if out = [] then throw (.coded "GPH_IDENTITY_PATH_INVALID" field "empty path")
  return String.ofList (['/'].intercalate out)

def repositoryError (message : String) : GraphError :=
  .coded "GPH_IDENTITY_REPOSITORY_MISSING" "repository_identity" message

/-- An identity without a scheme is an HTTPS origin or, when it has a colon, an SSH one. -/
def repositoryOrigin : Except GraphError String :=
  let v :=
    if !containsText v "://" && !hasPrefix (host.toLower v) "git@" && !containsRune v ':' &&
      containsRune v '/' then "https://" ++ v else v
  if hasPrefix (host.toLower v) "git@" || !containsText v "://" && containsRune v ':' then
    match v.toList.takeWhile (· ≠ ':'), v.toList.dropWhile (· ≠ ':') with
    | c :: origin, _ :: path =>
      .ok ("ssh://" ++ String.ofList (c :: origin) ++ "/" ++ String.ofList path)
    | _, _ => .error (repositoryError "invalid SSH identity")
  else .ok v

def normalizeRepositoryIdentity : Except GraphError String := do
  let v ← normalizeText host v
  if v = "" then throw (repositoryError "repository identity is required")
  if containsRune v '\x00' || hasPrefix v "/" || hasPrefix v "~" || hasDrive v ||
      v.toList.any (fun c ↦ c = '\r' || c = '\n' || c = '\t') then
    throw (repositoryError "local/control identity forbidden")
  let v ← repositoryOrigin host v
  let some u := host.parseURL v
    | throw (repositoryError "repository must be HTTPS or SSH origin")
  if u.scheme = "" || u.host = "" then
    throw (repositoryError "repository must be HTTPS or SSH origin")
  if u.rawQuery ≠ "" || u.fragment ≠ "" then throw (repositoryError "query/fragment forbidden")
  let scheme := host.toLower u.scheme
  if scheme ≠ "https" && scheme ≠ "ssh" then
    throw (repositoryError "unsupported repository scheme")
  if u.hasUser && scheme = "https" then
    throw (repositoryError "HTTPS credentials forbidden")
  let hostname := host.toLower u.hostname
  if hostname = "" || containsText hostname ".." || containsRune hostname '/' ||
      containsRune hostname '\\' then throw (repositoryError "invalid host")
  let path := trimSuffix (trimSuffix u.escapedPath "/") ".git"
  if path = "" || path = "/" || containsText path ".." then
    throw (repositoryError "invalid or folder-only repository path")
  if (((trimPrefix path "/").toList.splitOn '/').any fun part ↦
      part = [] || part = ['.'] || part = ['.', '.']) then
    throw (repositoryError "invalid repository path")
  return hostname ++ path

structure NodeKeyFields where
  repositoryIdentity : String
  backendType : String
  language : String
  projectOrModule : String
  ownerPath : String
  symbolKind : String
  semanticIdentity : String
deriving DecidableEq

inductive RegisteredField
  | backendType
  | symbolKind
  | relation

def RegisteredField.name : RegisteredField → String
  | backendType => "backend_type"
  | symbolKind => "symbol_kind"
  | relation => "relation"

def registeredGraphValues : RegisteredField → List String
  | .backendType => ["roslyn", "go", "tsserver", "pyright", "docgraph", "kotlin-language-server"]
  | .symbolKind =>
    ["workspace", "repository", "project", "package", "file", "namespace", "type", "method",
      "function", "field", "property", "event", "route", "test", "document"]
  | .relation =>
    ["contains", "imports", "references", "calls", "implements", "extends", "tests",
      "route_to_handler", "publishes", "consumes", "reads", "writes", "fulfills", "verifies",
      "affects", "supports", "materializes", "supersedes", "experiences", "stages", "maps",
      "grounds_in", "code", "doc_mentions", "doc_wikilink", "doc_embed", "doc_markdown_link",
      "doc_id", "doc_hierarchy", "doc_related", "doc_depends", "doc_supports", "doc_contradicts",
      "doc_supersedes"]

def registered (v : String) (field : RegisteredField) : Except GraphError String := do
  let v ← enum host v field.name
  if v ∉ registeredGraphValues field then
    throw (.coded "GPH_IDENTITY_REGISTERED_INVALID" field.name
      "value is not registered for schema v1")
  return v

def newNodeKey (f : NodeKeyFields) : Except GraphError NodeKeyFields := do
  let repositoryIdentity ← normalizeRepositoryIdentity host f.repositoryIdentity
  let backendType ← registered host f.backendType .backendType
  let language ← enum host f.language "language"
  let projectOrModule ← slashPath host f.projectOrModule "project_or_module"
  let ownerPath ← slashPath host f.ownerPath "owner_path"
  let symbolKind ← registered host f.symbolKind .symbolKind
  let semanticIdentity ← required host f.semanticIdentity "semantic_identity"
  return ⟨repositoryIdentity, backendType, language, projectOrModule, ownerPath, symbolKind,
    semanticIdentity⟩

def NodeKeyFields.canonicalTuple (k : NodeKeyFields) : List String :=
  [k.repositoryIdentity, k.backendType, k.language, k.projectOrModule, k.ownerPath, k.symbolKind,
    k.semanticIdentity]

section Framing

def bigEndian (width n : ℕ) : Bytes :=
  (List.range width).reverse.map fun i ↦ (n / 256 ^ i % 256).toUInt8

variable (tag : UInt8)

def field (content : Bytes) : Bytes :=
  tag :: bigEndian 4 content.length ++ content

def textField (s : String) : Bytes := field tag (utf8 s)

def digestField (d : GraphDigest) : Bytes := field tag d.toList

def integerField (n : ℤ) : Bytes := field tag (bigEndian 8 (n % 2 ^ 64).toNat)

end Framing

def NodeKeyFields.serialize (k : NodeKeyFields) : Except GraphError Bytes := do
  let n ← newNodeKey host k
  return utf8 "MILSP-NK" ++ [1] ++ bigEndian 2 7 ++
    ((n.canonicalTuple.zipIdx 1).map fun (s, i) ↦ textField i.toUInt8 s).flatten

def NodeKeyFields.hash (k : NodeKeyFields) : Except GraphError GraphDigest := do
  return host.sha256 (← k.serialize host)

def hexDigit (n : ℕ) : Char := if n < 10 then Char.ofNat (48 + n) else Char.ofNat (87 + n)

variable (d : GraphDigest)

def hexString : String :=
  String.ofList (d.toList.flatMap fun b ↦ [hexDigit (b.toNat / 16), hexDigit (b.toNat % 16)])

theorem hexDigit_injective : ∀ n < 16, ∀ m < 16, hexDigit n = hexDigit m → n = m := by
  decide

theorem hexPair_injective {a b : UInt8}
    (h : [hexDigit (a.toNat / 16), hexDigit (a.toNat % 16)] =
      [hexDigit (b.toNat / 16), hexDigit (b.toNat % 16)]) : a = b := by
  simp only [List.cons.injEq, and_true] at h
  have ha := a.toNat_lt
  have hb := b.toNat_lt
  have hdiv := hexDigit_injective _ (by omega) _ (by omega) h.1
  have hmod := hexDigit_injective _ (Nat.mod_lt _ (by omega)) _ (Nat.mod_lt _ (by omega)) h.2
  apply UInt8.toNat_inj.mp
  omega

theorem hexString_injective {a b : GraphDigest} (h : hexString a = hexString b) : a = b := by
  have hbytes : ∀ l l' : List UInt8,
      (l.flatMap fun b ↦ [hexDigit (b.toNat / 16), hexDigit (b.toNat % 16)]) =
        (l'.flatMap fun b ↦ [hexDigit (b.toNat / 16), hexDigit (b.toNat % 16)]) → l = l' := by
    intro l
    induction l with
    | nil =>
      intro l' h
      cases l' with
      | nil => rfl
      | cons b l' => simp at h
    | cons a l ih =>
      intro l' h
      cases l' with
      | nil => simp at h
      | cons b l' =>
        obtain ⟨hpair, hrest⟩ := List.append_inj h rfl
        rw [hexPair_injective hpair, ih l' hrest]
  apply Vector.toList_inj.mp
  exact hbytes _ _ (String.ofList_injective h)

def nodeRID : String := "milsp:gph-node:v1:" ++ hexString d

theorem append_text_injective {p x y : String} (h : p ++ x = p ++ y) : x = y := by
  have htext := congrArg String.toList h
  rw [String.toList_append, String.toList_append] at htext
  exact String.toList_inj.mp (List.append_cancel_left htext)

theorem nodeRID_injective {a b : GraphDigest} (h : nodeRID a = nodeRID b) : a = b := by
  have htext : hexString a = hexString b := append_text_injective h
  exact hexString_injective htext

def edgeRID : String := "milsp:gph-edge:v1:" ++ hexString d

def evidenceRID : String := "milsp:gph-evidence:v1:" ++ hexString d

def unresolvedRID : String := "milsp:gph-unresolved:v1:" ++ hexString d

def edgeKey (source target : GraphDigest) (relation scope : String) : GraphDigest :=
  host.sha256 (utf8 "MILSP-EK/v1" ++ digestField 1 source ++ textField 2 relation ++
    digestField 3 target ++ textField 4 scope)

def evidenceKey (subject evidence : GraphDigest) (ordinal : ℤ) : GraphDigest :=
  host.sha256 (utf8 "MILSP-EVIDENCE/v1" ++ digestField 1 subject ++ digestField 2 evidence ++
    integerField 3 ordinal)

def evidenceDigest (source observed : GraphDigest) (sourceURI claimKind backend extractor : String)
    (startLine startColumn endLine endColumn : ℤ) : GraphDigest :=
  host.sha256 (utf8 "MILSP-EVIDENCE-DIGEST/v1" ++ digestField 1 source ++
    digestField 2 observed ++ textField 3 sourceURI ++ textField 4 claimKind ++
    textField 5 backend ++ textField 6 extractor ++ integerField 7 startLine ++
    integerField 8 startColumn ++ integerField 9 endLine ++ integerField 10 endColumn)

def generationBytes (schema : ℤ) (repo : String)
    (source config backend content : GraphDigest) : Except GraphError Bytes := do
  let canonical ← normalizeRepositoryIdentity host repo
  if schema < 1 then
    throw (.coded "GPH_GENERATION_INVALID" "schema_version" "schema version is required")
  return utf8 "MILSP-GENERATION/v2" ++ integerField 1 schema ++ textField 2 canonical ++
    digestField 3 source ++ digestField 4 config ++ digestField 5 backend ++
    digestField 6 content

def deriveGenerationID (schema : ℤ) (repo : String)
    (source config backend content : GraphDigest) : GraphDigest :=
  match generationBytes host schema repo source config backend content with
  | .ok raw => host.sha256 raw
  | .error _ => zeroDigest

end MiLsp.Graph
