import MiLsp.Graph.Store

namespace MiLsp.Query

open Library.Strings

structure QEdge where
  dir : String
  origin : String
  depth : ℕ

structure QItem where
  id : String := ""
  revision : String := ""
  truncatedItem : Bool := false
  kind : String := ""
  name : String := ""
  file : String := ""
  line : ℤ := 0
  endLine : ℤ := 0
  origin : String := ""
  lang : String := ""
  parent : String := ""
  signature : String := ""
  title : String := ""
  layer : String := ""
  score : ℤ := 0
  text : String := ""
  read : Bool := false
  stale : Bool := false
  missing : Bool := false
  seen : Bool := false
  edge : Option QEdge := none
  inside : String := ""

inductive QValue
  | text (value : String)
  | number (value : ℤ)
  | flag (value : Bool)
  | edge (value : QEdge)

abbrev QRow := List (String × QValue)

/-- The revision in an identifier, the sensitivity that a file declares, and the digest of a query.
-/
structure QHost where
  revisionOf : String → String
  frontmatterSensibilidad : String → String
  queryDigest : String → String

variable (host : QHost)

def QItem.rev (item : QItem) : String :=
  if item.revision ≠ "" then trimPrefix item.revision "rev:" else host.revisionOf item.id

def textField (value : String) : Option QValue :=
  if value = "" then none else some (.text value)

def lineField (value : ℤ) : Option QValue :=
  if 0 < value then some (.number value) else none

def flagField (value : Bool) : Option QValue :=
  if value then some (.flag value) else none

variable (item : QItem)

def QItem.field : String → Option QValue
  | "id" => textField item.id
  | "kind" => textField item.kind
  | "name" => textField item.name
  | "file" | "path" => textField item.file
  | "line" => lineField item.line
  | "end_line" => lineField item.endLine
  | "origin" => textField item.origin
  | "lang" => textField item.lang
  | "parent" => textField item.parent
  | "signature" => textField item.signature
  | "title" => textField item.title
  | "layer" => textField item.layer
  | "score" => if item.score ≠ 0 then some (.number item.score) else none
  | "text" => textField item.text
  | "edge" => item.edge.map .edge
  | "in" => textField item.inside
  | "rev" => if item.rev host = "" then none else some (.text ("rev:" ++ item.rev host))
  | "truncated_item" => flagField item.truncatedItem
  | "stale" => flagField item.stale
  | "missing" => flagField item.missing
  | "seen" => flagField item.seen
  | _ => none

def qDefaultFields : List String := ["id", "kind", "name", "file", "line", "origin"]

variable (row : QRow)

def QRow.get (name : String) : Option QValue :=
  (row.find? (·.1 = name)).map (·.2)

def QItem.addTo (name : String) : QRow :=
  if (QRow.get row name).isSome then row
  else match item.field host name with
    | some value => row ++ [(name, value)]
    | none => row

def QItem.project (fields : List String) : QRow :=
  let chosen :=
    if fields = [] then
      qDefaultFields ++ ["edge", "in"] ++ (if item.read then ["text"] else [])
    else fields
  let names := chosen ++ (if item.stale || item.seen then ["rev"] else []) ++
    ["stale", "missing", "seen", "truncated_item"]
  names.foldl (item.addTo host) []

def QRow.with (name : String) (value : QValue) : QRow :=
  if (QRow.get row name).isSome then
    row.map fun entry ↦ if entry.1 = name then (name, value) else entry
  else row ++ [(name, value)]

/-- The bytes of a character in a JSON string that leaves `<`, `>` and `&` as they are. -/
def plainCharLength (c : Char) : ℕ :=
  if c ∈ ['<', '>', '&'] then 1 else Graph.jsonCharLength c

def plainTextLength (value : String) : ℕ := 2 + (value.toList.map plainCharLength).sum

def QValue.jsonSize : QValue → ℕ
  | .text value => plainTextLength value
  | .number value => (toString value).length
  | .flag value => if value then 4 else 5
  | .edge value => 25 + plainTextLength value.dir + plainTextLength value.origin +
      (toString value.depth).length

def QRow.jsonSize (row : QRow) : ℕ :=
  2 + (row.map fun entry ↦ plainTextLength entry.1 + 1 + QValue.jsonSize entry.2).sum +
    (row.length - 1)

structure QCursorClaims where
  query : String
  workspace : String
  generation : String
  offset : ℕ
  expires : ℤ

def unix (t : ℤ) : ℤ := t / 1000000000

def signQCursor (query workspace generation : String) (offset : ℕ) (now : ℤ) : QCursorClaims where
  query := host.queryDigest query
  workspace := workspace
  generation := generation
  offset := offset
  expires := unix (now + 600 * 1000000000)

/-- Authentic claims are accepted until they expire, for the query and workspace they were signed
for. -/
def verifyQCursor (claims : QCursorClaims) (query workspace : String) (now : ℤ) :
    Except String QCursorClaims :=
  if claims.expires < unix now then .error "cursor_expired"
  else if claims.query ≠ host.queryDigest query ∨ claims.workspace ≠ workspace then
    .error "cursor_invalid"
  else .ok claims

structure QEnvelope where
  ok : Bool := true
  isPartial : Bool := false
  reason : String := ""
  errorCode : String := ""
  items : List QRow
  budgetUsed : ℕ
  truncated : Bool
  continuation : Option QCursorClaims := none

structure QRequest where
  query : String
  workspaceID : String
  fields : List String
  budget : ℕ
  maxBytes : ℕ
  one_le_budget : 1 ≤ budget
  budget_le : budget ≤ 12000
  le_maxBytes : 1024 ≤ maxBytes

/-- What one execution meets: the generation, its items and their first failure, a timeout, the
clock. An envelope's length also depends on what it alone knows. -/
structure QExecution where
  generation : String
  items : List QItem
  failure : String
  late : Bool
  presented : ℤ
  signed : ℤ
  size : QEnvelope → ℕ

variable (req : QRequest) (ex : QExecution)

def qRow (fields : List String) (item : QItem) : QRow :=
  QRow.with (item.project host fields) "sensibilidad"
    (.text (host.frontmatterSensibilidad item.file))

def qRows (budget : ℕ) (fields : List String) : ℕ → List QItem → List QRow × ℕ × Bool
  | used, [] => ([], used, false)
  | used, item :: rest =>
    let row := qRow host fields item
    if used + QRow.jsonSize row > budget * 4 then ([], used, true)
    else
      let (rows, used, truncated) := qRows budget fields (used + QRow.jsonSize row) rest
      (row :: rows, used, truncated)

def qContinuation (offset : ℕ) : QCursorClaims :=
  signQCursor host req.query req.workspaceID ex.generation offset ex.signed

def wholeRunes : ℕ → List Char → List Char
  | _, [] => []
  | n, c :: rest => if c.utf8Size ≤ n then c :: wholeRunes (n - c.utf8Size) rest else []

def truncateQText (text : String) (n : ℕ) : String := String.ofList (wholeRunes n text.toList)

/-- The texts that are tried in turn, each cut from the one before to half the bytes. -/
def cutTexts (n : ℕ) (text : String) : List String :=
  if h : n = 0 then []
  else truncateQText text n :: cutTexts (n / 2) (truncateQText text n)
termination_by n
decreasing_by omega

def cutItem (text : String) : QItem := { item with truncatedItem := true, text }

def cutRows (fields : List String) (item : QItem) : List QRow :=
  (cutTexts item.text.utf8ByteSize item.text).map fun text ↦ qRow host fields (cutItem item text)

variable (env : QEnvelope)

def QEnvelope.exceeded : QEnvelope :=
  { env with
    ok := false
    isPartial := false
    errorCode := "max_bytes_item_exceeded"
    reason := "max_bytes_item_exceeded" }

def QEnvelope.shortened (base n : ℕ) : QEnvelope :=
  { env with
    items := env.items.take n
    truncated := true
    continuation := some (qContinuation host req ex (base + n)) }

def QEnvelope.cut (base : ℕ) (item : QItem) : Option QEnvelope :=
  ((cutRows host req.fields item).find? fun row ↦ ex.size { env with items := [row] } ≤
    req.maxBytes).map fun row ↦
      { env with
        items := [row]
        truncated := true
        continuation := some (qContinuation host req ex (base + 1)) }

/-- Drop rows from the end until the envelope fits; `n` is the number of rows left. -/
def qBoundEnvelope (items : List QItem) (base : ℕ) : ℕ → QEnvelope → QEnvelope
  | 0, env => if ex.size env ≤ req.maxBytes then env else env.exceeded
  | n + 1, env =>
    if ex.size env ≤ req.maxBytes then env
    else
      let rest := qBoundEnvelope items base n (env.shortened host req ex base n)
      match items with
      | item :: _ =>
        if n = 0 ∧ item.text ≠ "" then (env.cut host req ex base item).getD rest else rest
      | [] => rest

def qPage (items : List QItem) (base : ℕ) : QEnvelope :=
  let (rows, used, truncated) := qRows host req.budget req.fields 0 items
  let env : QEnvelope :=
    { items := rows
      budgetUsed := (used + 3) / 4
      truncated := truncated
      continuation :=
        if truncated then some (qContinuation host req ex (base + rows.length)) else none }
  let env :=
    if ex.failure = "" then env
    else
      { env with
        isPartial := rows ≠ []
        ok := rows ≠ []
        reason := ex.failure
        errorCode := ex.failure }
  if ex.late ∧ env.reason ≠ "cancelled" then
    { env with
      isPartial := rows ≠ []
      reason := "timeout"
      ok := rows ≠ []
      errorCode := "timeout" }
  else env

variable (token : Option QCursorClaims)

def qOffset : Except String ℕ :=
  match token with
  | none => .ok 0
  | some token => do
    let claims ← verifyQCursor host token req.query req.workspaceID ex.presented
    if claims.generation ≠ ex.generation then throw "snapshot_changed" else pure claims.offset

def executeQ : Except String QEnvelope := do
  let offset ← qOffset host req ex token
  if offset > ex.items.length then throw "cursor_invalid"
  else
    let items := ex.items.drop offset
    let page := qPage host req ex items offset
    let env := qBoundEnvelope host req ex items offset page.items.length page
    pure { env with budgetUsed := ((env.items.map QRow.jsonSize).sum + 3) / 4 }

end MiLsp.Query
