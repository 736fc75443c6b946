import MiLsp.Library.Decimal
import MiLsp.Library.Percent

namespace MiLsp.Ids

open Library Strings Decimal

inductive IDScheme
  | symbol
  | range
  | doc
deriving DecidableEq

def IDScheme.name : IDScheme → Bytes
  | symbol => utf8 "symbol"
  | range => utf8 "range"
  | doc => utf8 "doc"

structure ID where
  scheme : IDScheme
  workspaceID : Bytes
  file : Bytes
  name : Bytes := []
  sig : Bytes := []
  start : ℤ := 0
  stop : ℤ := 0
  rev : Bytes := []
  legacy : Bool := false
deriving DecidableEq

structure SymbolRecord where
  filePath : Bytes
  qualifiedName : Bytes
  parent : Bytes
  name : Bytes
  signatureHash : Bytes

def slash : UInt8 := 47

def backslash : UInt8 := 92

def hash : UInt8 := 35

def tilde : UInt8 := 126

def colon : UInt8 := 58

def atSign : UInt8 := 64

variable (b : UInt8)

def hexByte : Bool := 48 ≤ b && b ≤ 57 || 97 ≤ b && b ≤ 102

variable (value : Bytes)

def isHex : Bool := value ≠ [] && value.all hexByte

/-- Lower case, where only what it does to lower-case hexadecimal digits matters. -/
structure Lower where
  toLower : Bytes → Bytes
  toLower_hex : ∀ s, isHex s = true → toLower s = s

variable (lower : Lower)

def trimLeft : Bytes → Bytes
  | a :: b :: c :: rest =>
    if isSpace1 a then trimLeft (b :: c :: rest)
    else if isSpace2 a b then trimLeft (c :: rest)
    else if isSpace3 a b c then trimLeft rest
    else a :: b :: c :: rest
  | [a, b] => if isSpace1 a then trimLeft [b] else if isSpace2 a b then [] else [a, b]
  | [a] => if isSpace1 a then [] else [a]
  | [] => []

def trimRightReversed : Bytes → Bytes
  | c :: b :: a :: rest =>
    if isSpace1 c then trimRightReversed (b :: a :: rest)
    else if isSpace2 b c then trimRightReversed (a :: rest)
    else if isSpace3 a b c then trimRightReversed rest
    else c :: b :: a :: rest
  | [b, a] => if isSpace1 b then trimRightReversed [a] else if isSpace2 a b then [] else [b, a]
  | [a] => if isSpace1 a then [] else [a]
  | [] => []

def trimSpaceBytes (s : Bytes) : Bytes := (trimRightReversed (trimLeft s).reverse).reverse

def trimPrefixBytes (s pre : Bytes) : Bytes :=
  if pre.isPrefixOf s then s.drop pre.length else s

def symbolQName (rec : SymbolRecord) : Bytes :=
  let name := trimSpaceBytes rec.qualifiedName
  if name = [] then
    if rec.parent ≠ [] then rec.parent ++ utf8 "." ++ rec.name else rec.name
  else if rec.filePath ≠ [] then trimPrefixBytes name (rec.filePath ++ utf8 "::")
  else name

def signed (rec : SymbolRecord) : Bool :=
  let candidate := lower.toLower (trimSpaceBytes rec.signatureHash)
  candidate.length = 64 && isHex candidate

def stableSymbolID (workspaceID : Bytes) (rec : SymbolRecord) (rev : Bytes) (withSig : Bool) : ID :=
  { scheme := .symbol
    workspaceID
    file := rec.filePath
    name := symbolQName rec
    sig :=
      if withSig && signed lower rec then lower.toLower (trimSpaceBytes rec.signatureHash) else []
    rev }

def stableRangeID (workspaceID file : Bytes) (start stop : ℤ) (rev : Bytes) : ID :=
  { scheme := .range
    workspaceID
    file
    start
    stop := if stop < start then start else stop
    rev }

def stableDocumentID (workspaceID file docID rev : Bytes) : ID :=
  { scheme := .doc
    workspaceID
    file := if file = [] then utf8 "_wiki/" ++ docID else file
    name := docID
    rev }

def unreserved : Bool :=
  65 ≤ b && b ≤ 90 || 97 ≤ b && b ≤ 122 || 48 ≤ b && b ≤ 57 || b ∈ [45, 46, 95, 126]

def encodeIDPart : Bytes := Percent.encode unreserved value

def decodeIDPart : Option Bytes := Percent.decode value

def slashed : Bytes := value.map fun b ↦ if b = backslash then slash else b

def encodeIDPath : Bytes :=
  [slash].intercalate (((slashed value).splitOn slash).map encodeIDPart)

def decodeIDPath : Option Bytes :=
  ((value.splitOn slash).mapM decodeIDPart).map [slash].intercalate

variable (id : ID)

def ID.legacyString : Bytes :=
  let body := match id.scheme with
    | .symbol => utf8 "s1:" ++ id.file ++ [hash] ++ id.name ++
        if id.sig ≠ [] then tilde :: id.sig else []
    | .range => utf8 "r1:" ++ id.file ++ [colon] ++ itoa id.start ++ [minus] ++ itoa id.stop
    | .doc => utf8 "d1:" ++ id.name
  body ++ if id.rev ≠ [] then atSign :: id.rev else []

def ID.symbolText : Bytes :=
  match id.scheme with
  | .symbol => id.name ++ if id.sig ≠ [] then tilde :: lower.toLower id.sig else []
  | .range => itoa id.start ++ [minus] ++ itoa id.stop
  | .doc => id.name

def ID.string : Bytes :=
  if id.legacy ∨ id.workspaceID = [] then id.legacyString
  else utf8 "ws:" ++ id.workspaceID ++ [slash] ++ id.scheme.name ++ [slash] ++
    encodeIDPath id.file ++ [hash] ++ encodeIDPart (id.symbolText lower)

inductive IDError
  | workspaceID
  | separator
  | kind (name : Bytes)
  | escape
  | symbol
  | signatureHash
  | rangeShape
  | range
  | legacyForm
  | legacyScheme
  | legacySymbol
  | legacyRange
deriving DecidableEq

def cutFirst (s : Bytes) : Option (Bytes × Bytes) :=
  (s.findIdx? (· = b)).map fun i ↦ (s.take i, s.drop (i + 1))

def cutLast (s : Bytes) : Option (Bytes × Bytes) :=
  (cutFirst b s.reverse).map fun parts ↦ (parts.2.reverse, parts.1.reverse)

def parseScheme (name : Bytes) : Except IDError IDScheme :=
  if name = IDScheme.symbol.name then .ok .symbol
  else if name = IDScheme.range.name then .ok .range
  else if name = IDScheme.doc.name then .ok .doc
  else .error (.kind name)

def parseRange (start stop : Bytes) (e : IDError) (id : ID) : Except IDError ID :=
  match atoi start, atoi stop with
  | some start, some stop =>
    if start < 1 ∨ stop < start then .error e else .ok { id with start, stop }
  | _, _ => .error e

def parseSymbolText (symbol : Bytes) : Except IDError ID :=
  match id.scheme with
  | .symbol =>
    match cutLast tilde symbol with
    | none => .ok { id with name := symbol }
    | some (name, sig) =>
      if sig.length ≠ 64 ∨ isHex sig = false then .error .signatureHash
      else .ok { id with name, sig := lower.toLower sig }
  | .range =>
    match cutFirst minus symbol with
    | none => .error .rangeShape
    | some (start, stop) =>
      if start = [] then .error .rangeShape else parseRange start stop .range id
  | .doc => .ok { id with name := symbol }

variable (raw : Bytes)

def parseStableID : Except IDError ID :=
  match cutFirst slash (trimPrefixBytes raw (utf8 "ws:")) with
  | none => .error .workspaceID
  | some (workspaceID, rest) =>
    match cutFirst slash rest with
    | none => .error .workspaceID
    | some (kind, rest) =>
      if workspaceID.length ≠ 64 ∨ isHex workspaceID = false then .error .workspaceID
      else match cutFirst hash rest with
        | none => .error .separator
        | some (path, symbol) => do
          let scheme ← parseScheme kind
          match decodeIDPath path with
          | none => .error .escape
          | some file =>
            match decodeIDPart symbol with
            | none | some [] => .error .symbol
            | some symbol => parseSymbolText lower { scheme, workspaceID, file } symbol

def legacyRev (body : Bytes) : Bytes × Bytes :=
  match cutLast atSign body with
  | some (before, rev) =>
    if (rev.length = 8 ∨ rev.length = 64) ∧ isHex rev then (before, rev) else (body, [])
  | none => (body, [])

def legacySymbol (id : ID) (body : Bytes) : Except IDError ID :=
  match cutFirst hash body with
  | none => .error .legacySymbol
  | some (file, name) =>
    if file = [] ∨ name = [] then .error .legacySymbol
    else match cutLast tilde name with
      | some (before, sig) =>
        if (sig.length = 4 ∨ sig.length = 64) ∧ isHex sig then
          .ok { id with file, name := before, sig }
        else .ok { id with file, name }
      | none => .ok { id with file, name }

def legacyRange (id : ID) (body : Bytes) : Except IDError ID :=
  match cutLast colon body with
  | none => .error .legacyRange
  | some (file, lines) =>
    match cutLast minus lines with
    | none => .error .legacyRange
    | some (start, stop) =>
      if file = [] then .error .legacyRange
      else parseRange start stop .legacyRange { id with file }

def parseLegacyID : Except IDError ID :=
  if raw.length < 4 ∨ raw[2]? ≠ some colon then .error .legacyForm
  else
    let pre := raw.take 2
    let (body, rev) := legacyRev (raw.drop 3)
    if pre = utf8 "s1" then
      legacySymbol { scheme := .symbol, workspaceID := [], file := [], rev, legacy := true } body
    else if pre = utf8 "r1" then
      legacyRange { scheme := .range, workspaceID := [], file := [], rev, legacy := true } body
    else if pre = utf8 "d1" then
      .ok { scheme := .doc, workspaceID := [], file := [], name := body, rev, legacy := true }
    else .error .legacyScheme

def parseID : Except IDError ID :=
  let raw := trimSpaceBytes raw
  if (utf8 "ws:").isPrefixOf raw then parseStableID lower raw else parseLegacyID raw

end MiLsp.Ids
