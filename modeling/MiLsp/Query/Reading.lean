import MiLsp.Query.Paging
import MiLsp.Query.Session

namespace MiLsp.Query

/-- Ranges for an empty input, a context that may end, the reader's answer, the revisions on disk,
the clock. -/
structure ReadRun where
  fresh : Bool
  ranges : List QItem
  ranges_unseen : ∀ item ∈ ranges, item.seen = false
  stop : ℕ → Option String
  /-- The content and the file that the reader gives, if it succeeds. -/
  content : QItem → Option (Option String × Option String)
  fileRevision : QItem → String
  now : ℕ → ℤ

inductive QStageRun
  /-- A source, or a stage that makes new items. -/
  | yields (items : List QItem) (unseen : ∀ item ∈ items, item.seen = false)
  /-- `where`, `limit`, `uniq` and `sort`. -/
  | keeps (f : List QItem → List QItem) (kept : ∀ items, ∀ item ∈ f items, item ∈ items)
  | fields (names : List String)
  | changed (since : ℕ) (now : ℤ) (found : List QItem → List QItem)
      (unseen : ∀ items, ∀ item ∈ found items, item.seen = false)
  | read (run : ReadRun)
  | fails (reason : String)

def QStageRun.isRead : QStageRun → Bool
  | read _ => true
  | _ => false

structure QProgress where
  items : List QItem
  fields : List String
  failure : String
  sessions : SessionState

variable (host : SessionHost) (qhost : QHost) (session : String) (run : ReadRun)

def refresh (item : QItem) (text file : Option String) : QItem :=
  let item := { item with
    text := text.getD item.text
    file := if item.file = "" then file.getD item.file else item.file }
  let current := run.fileRevision item
  let item :=
    if item.kind ≠ "doc" ∧ 0 < item.line ∧ current ≠ "" then
      { item with
        stale := item.stale || (item.rev qhost ≠ "" && item.rev qhost ≠ current)
        revision := current }
    else item
  { item with read := item.text ≠ "" }

def asksSeen (n : ℕ) (item : QItem) (s : SessionState) : Bool × SessionState :=
  if run.fresh then (false, s) else s.seen host session item.id (item.rev qhost) (run.now n)

def readItem (n : ℕ) (item : QItem) (s : SessionState) : Except String QItem × SessionState :=
  match run.stop n with
  | some reason => (.error reason, s)
  | none =>
    if item.missing then (.ok item, s)
    else
      let (seen, s) := asksSeen host qhost session run n item s
      if seen then (.ok { item with text := "", seen := true }, s)
      else if item.kind = "doc" ∧ item.text ≠ "" then (.ok { item with read := true }, s)
      else match run.content item with
        | none => (.error "stage_failed", s)
        | some (text, file) => (.ok (refresh qhost run item text file), s)

def readItems (run : ReadRun) : ℕ → List QItem → SessionState →
    Except String (List QItem) × SessionState
  | _, [], s => (.ok [], s)
  | n, item :: rest, s =>
    match readItem host qhost session run n item s with
    | (.error reason, s) => (.error reason, s)
    | (.ok out, s) =>
      match readItems run (n + 1) rest s with
      | (.error reason, s) => (.error reason, s)
      | (.ok outs, s) => (.ok (out :: outs), s)

def recordable (items : List QItem) : List QItem := items.filter fun item ↦
  item.read && item.text ≠ ""

def rememberItems (run : ReadRun) : ℕ → List QItem → SessionState → SessionState
  | _, [], s => s
  | n, item :: rest, s =>
    rememberItems run (n + 1) rest (s.remember host qhost session item (run.now n))

def qRead (items : List QItem) (s : SessionState) : Except String (List QItem) × SessionState :=
  let items := if items = [] then run.ranges else items
  match readItems host qhost session run 0 items s with
  | (.error reason, s) => (.error reason, s)
  | (.ok out, s) => (.ok out, rememberItems host qhost session run items.length (recordable out) s)

def qPublicReason (reason : String) : String :=
  if reason ∈ ["timeout", "cancelled", "cursor_invalid", "cursor_expired", "snapshot_changed",
    "stage_failed", "max_bytes_item_exceeded", ""] then reason
  else "stage_failed"

def QProgress.fail (p : QProgress) (reason : String) : QProgress :=
  { p with failure := if p.failure = "" then qPublicReason reason else p.failure }

def QProgress.stage (p : QProgress) : QStageRun → QProgress
  | .yields items _ => { p with items }
  | .keeps f _ => { p with items := f p.items }
  | .fields names => { p with fields := names }
  | .changed since now found _ =>
    let (old, sessions) := p.sessions.changedCandidates host session since now
    { p with items := found old, sessions }
  | .read run =>
    match qRead host qhost session run p.items p.sessions with
    | (.ok items, sessions) => { p with items, sessions }
    | (.error reason, sessions) => { p with sessions }.fail reason
  | .fails reason => p.fail reason

/-- One request. The items and the failure of `ex` are left to the stages. -/
structure QRun where
  req : QRequest
  session : String
  token : Option QCursorClaims
  /-- The key under which rows already sent are left out. -/
  dedupe : Option String
  /-- The stages that are entered before the context ends. -/
  stages : List QStageRun
  /-- The code of a context that has ended when the stages are through. -/
  ended : Option String
  /-- The order of the rows, unless a stage sorts them. -/
  arrange : List QItem → List QItem
  arrange_mem : ∀ items, ∀ item ∈ arrange items, item ∈ items
  ex : QExecution
  now : ℤ

/-- What a request is answered with: the rows, and the items that they stand for. -/
structure QResponse where
  session : String
  items : List QItem
  rows : List QRow

namespace QRun

variable (run : QRun)

def progress (s : SessionState) : QProgress :=
  run.stages.foldl (QProgress.stage host qhost run.session) ⟨[], run.req.fields, "", s⟩

variable (items : List QItem)

def dedupeItems (s : SessionState) : List QItem × SessionState :=
  match run.dedupe with
  | none => (items, s)
  | some key => s.filterDedupe host qhost run.session key items run.now

variable (p : QProgress)

def chosen : QRequest := { run.req with fields := p.fields }

def firstFailure : String :=
  match run.ended with
  | none => p.failure
  | some code => if code = "cancelled" ∨ p.failure ≠ "cancelled" then code else p.failure

variable (items : List QItem)

def execution : QExecution :=
  { run.ex with items, failure := run.firstFailure p }

def page (offset : ℕ) : QEnvelope :=
  qPage qhost (run.chosen p) (run.execution p items) items offset

def envelope (offset : ℕ) : QEnvelope :=
  qBoundEnvelope qhost (run.chosen p) (run.execution p items) items offset
    (run.page qhost p items offset).items.length (run.page qhost p items offset)

/-- The items of the rows that were sent; of several with one identifier the last. -/
def sentItems (rows : List QRow) : List QItem :=
  rows.filterMap fun row ↦
    match QRow.get row "id" with
    | some (.text id) => items.reverse.find? fun item ↦ item.id = id
    | _ => none

def rememberSentItems (env : QEnvelope) (s : SessionState) : SessionState :=
  match run.dedupe with
  | none => s
  | some key =>
    if env.ok ∧ ¬env.isPartial then
      s.rememberDedupe host qhost run.session key (sentItems items env.items) run.now
    else s

def execute (s : SessionState) : QResponse × SessionState :=
  match qOffset qhost run.req run.ex run.token with
  | .error _ => (⟨run.session, [], []⟩, s)
  | .ok offset =>
    let p := run.progress host qhost s
    let items := run.arrange p.items
    if offset > items.length then (⟨run.session, [], []⟩, p.sessions)
    else
      let (items, s) := run.dedupeItems host qhost (items.drop offset) p.sessions
      let (_, s) := s.nextMark host run.session run.now
      let env := run.envelope qhost p items offset
      (⟨run.session, items, env.items⟩, run.rememberSentItems host qhost items env s)

end QRun

end MiLsp.Query
