import MiLsp.Output.Envelope
import MiLsp.Query.Primitives

namespace MiLsp.Query.ByteBound

open Library.Json Output

/-- The rows write their texts plainly; the envelope around them escapes what they wrote. -/
def valueSize : QValue → ℕ
  | .text value => textSize value
  | .number value => intLength value
  | .flag value => boolLength value
  | .edge value =>
    objectSize [("dir", textSize value.dir), ("from", textSize value.origin),
      ("depth", intLength value.depth)]

def rowSize (row : QRow) : ℕ := objectSize (row.map fun entry ↦ (entry.1, valueSize entry.2))

/-- The rows of `q`, or something else of which only the size is known. -/
inductive Items
  | rows (list : List QRow)
  | other (size : ℕ)

def Items.size : Items → ℕ
  | .rows list => listLength (list.map rowSize)
  | .other size => size

/-- The members that the bound reads or sets, and the sizes of the others. -/
structure Envelope where
  ok : Bool := true
  isPartial : Bool := false
  reason : String := ""
  error : Option EnvelopeError := none
  items : Items
  truncated : Bool := false
  continuation : Option Continuation := none
  others : Members := []

def Envelope.size (env : Envelope) : ℕ :=
  objectSize (optionalFlag "partial" env.isPartial ++ ("ok", boolLength env.ok) ::
    textMember "reason" env.reason ++ ("items", env.items.size) ::
    optionalMember "error" (env.error.map (·.size)) ++ ("truncated", boolLength env.truncated) ::
    optionalMember "continuation" (env.continuation.map (·.size)) ++ env.others)

section Bound

variable (host : QHost) (token : QCursorClaims → String)

structure Call where
  items : List QItem
  fields : List String
  maxBytes : ℕ
  query : String
  workspaceID : String
  workspace : String
  generation : String
  baseOffset : ℕ
  now : ℤ

variable (call : Call)

def continuationAt (offset : ℕ) : Continuation where
  reason := "q_page"
  next := { op := "q", query := call.query, workspace := call.workspace }
  cursor := token (signQCursor host call.query call.workspaceID call.generation offset call.now)

def itemExceeded : EnvelopeError where
  kind := "q"
  code := "max_bytes_item_exceeded"
  reasonCode := "max_bytes_item_exceeded"
  message := "max_bytes_item_exceeded"
  stage := "projection"

variable (env : Envelope)

def Envelope.exceeded : Envelope :=
  { env with
    ok := false
    isPartial := false
    error := some itemExceeded
    reason := "max_bytes_item_exceeded" }

def Envelope.continued (rows : ℕ) : Envelope :=
  { env with
    truncated := true
    continuation := some (continuationAt host token call (call.baseOffset + rows)) }

def Envelope.withRows (rows : List QRow) : Envelope :=
  { env with items := .rows rows }

variable (row : QRow)

def cutRow (item : QItem) (text : String) : QRow :=
  QRow.with ((cutItem item text).project host call.fields) "sensibilidad"
    ((QRow.get row "sensibilidad").getD (.text ""))

def Envelope.fittingCut (item : QItem) : Option QRow :=
  ((cutTexts item.text.utf8ByteSize item.text).map (cutRow host call row item)).find?
    fun cut ↦ (env.withRows [cut]).size ≤ call.maxBytes

def Envelope.cut : Option QRow :=
  match call.items with
  | item :: _ => if item.text ≠ "" then env.fittingCut host call row item else none
  | [] => none

def boundRows : List QRow → Envelope → Envelope
  | [], env => if env.size ≤ call.maxBytes then env else env.exceeded
  | row :: rest, env =>
    if env.size ≤ call.maxBytes then env
    else
      let shorter := boundRows rest
        ((env.withRows rest.reverse).continued host token call rest.length)
      if rest = [] then
        match env.cut host call row with
        | some cut => (env.withRows [cut]).continued host token call 1
        | none => shorter
      else shorter

def qBoundEnvelope : Envelope :=
  match env.items with
  | .rows rows => boundRows host token call rows.reverse env
  | .other _ => if env.size ≤ call.maxBytes then env else env.exceeded

/-- The envelope carries the error of an answer that cannot be made to fit. -/
def Envelope.Refuses : Prop :=
  ∃ e, env.error = some e ∧ e.code = "max_bytes_item_exceeded"

def Envelope.Within : Prop := env.size ≤ call.maxBytes ∨ env.Refuses

def Envelope.growth : ℤ := (env.continued host token call 1).size - env.size

/-- Where the only row is cut, the cut leaves room for the flag and the continuation. -/
def Envelope.HasRoom : Prop :=
  env.Within call ∨ ∀ row cut, env.items = .rows [row] → env.cut host call row = some cut →
    (env.withRows [cut]).size + env.growth host token call ≤ call.maxBytes

variable {host token call} {env : Envelope} {row : QRow}

theorem size_items (env : Envelope) (a b : Items) :
    { env with items := a }.size + b.size = { env with items := b }.size + a.size := by
  have heq : ∀ x, ({ env with items := x } : Envelope).size = x.size +
      ({ env with items := .other 0 } : Envelope).size := by
    intro x
    rw [Envelope.size, Envelope.size, objectSize, objectSize, recordLength_eq _ (by simp),
      recordLength_eq _ (by simp)]
    simp only [membersWeight_append, membersWeight_cons, Items.size]
    omega
  have ha := heq a
  have hb := heq b
  omega

theorem size_continued (env : Envelope) (rows : List QRow) :
    (((env.withRows rows).continued host token call 1).size : ℤ) =
      (env.withRows rows).size + env.growth host token call := by
  have hplain : env.size + (Items.rows rows).size = (env.withRows rows).size + env.items.size :=
    size_items env env.items (.rows rows)
  have hlong : (env.continued host token call 1).size + (Items.rows rows).size =
      ((env.withRows rows).continued host token call 1).size + env.items.size :=
    size_items (env.continued host token call 1) env.items (.rows rows)
  rw [Envelope.growth]
  omega

theorem cut_fits {cut : QRow} (h : env.cut host call row = some cut) :
    (env.withRows [cut]).size ≤ call.maxBytes := by
  unfold Envelope.cut at h
  split at h
  · split_ifs at h
    simpa using List.find?_some h
  · cases h

theorem exceeded_refuses (env : Envelope) : env.exceeded.Refuses := ⟨_, rfl, rfl⟩

theorem fits_or_exceeded (env : Envelope) :
    (if env.size ≤ call.maxBytes then env else env.exceeded).Within call := by
  split_ifs with h
  · exact .inl h
  · exact .inr (exceeded_refuses env)

theorem boundRows_within {rows : List QRow} (h : env.continued host token call rows.length = env) :
    (boundRows host token call rows env).Within call := by
  induction rows generalizing env with
  | nil => exact fits_or_exceeded env
  | cons row rest ih =>
    have hshorter := @ih ((env.withRows rest.reverse).continued host token call rest.length) rfl
    unfold boundRows
    split_ifs with hfit hlast
    · exact .inl hfit
    · cases hcut : env.cut host call row with
      | none => exact hshorter
      | some cut =>
        left
        have hsame : (env.withRows [cut]).continued host token call 1 = env.withRows [cut] := by
          subst hlast
          rw [← h]
          rfl
        dsimp only
        rw [hsame]
        exact cut_fits hcut
    · exact hshorter

theorem boundRows_within_of_two {next : QRow} {rest : List QRow} :
    (boundRows host token call (row :: next :: rest) env).Within call := by
  unfold boundRows
  split_ifs with hfit hlast
  · exact .inl hfit
  · cases hlast
  · exact boundRows_within rfl

theorem boundRows_one_within_iff (h : env.items = .rows [row]) :
    (boundRows host token call [row] env).Within call ↔ env.HasRoom host token call := by
  have hempty : (boundRows host token call []
      ((env.withRows []).continued host token call 0)).Within call := boundRows_within rfl
  unfold boundRows
  by_cases hfit : env.size ≤ call.maxBytes
  · rw [if_pos hfit]
    exact iff_of_true (.inl hfit) (.inl (.inl hfit))
  rw [if_neg hfit, if_pos rfl]
  cases hcut : env.cut host call row with
  | none =>
    refine iff_of_true hempty (.inr ?_)
    intro row' cut hrow hsome
    rw [h] at hrow
    cases hrow
    rw [hcut] at hsome
    cases hsome
  | some cut =>
    have hsize := @size_continued host token call env [cut]
    constructor
    · rintro (hle | hrefuses)
      · right
        intro row' cut' hrow hsome
        rw [h] at hrow
        cases hrow
        rw [hcut] at hsome
        cases hsome
        rw [← hsize]
        exact_mod_cast hle
      · exact .inl (.inr hrefuses)
    · rintro ((hle | hrefuses) | hroom)
      · exact absurd hle hfit
      · exact .inr hrefuses
      · left
        have := hroom row cut h hcut
        rw [← hsize] at this
        exact_mod_cast this

/-- The loop ends, within the bound exactly where the cut of an only row leaves room for what is
added after it was measured. -/
theorem qBoundEnvelope_within_iff (env : Envelope) :
    (qBoundEnvelope host token call env).Within call ↔ env.HasRoom host token call := by
  have hmany : (∀ row, env.items ≠ .rows [row]) → env.HasRoom host token call :=
    fun h ↦ .inr fun row _ hrow _ ↦ absurd hrow (h row)
  unfold qBoundEnvelope
  cases hitems : env.items with
  | other size =>
    exact iff_of_true (fits_or_exceeded env) (hmany (by simp [hitems]))
  | rows list =>
    dsimp only
    have hback := List.reverse_reverse list
    rcases hl : list.reverse with _ | ⟨row, _ | ⟨next, rest⟩⟩
    · rw [hl] at hback
      exact iff_of_true (fits_or_exceeded env) (hmany (by simp [hitems, ← hback]))
    · rw [hl] at hback
      exact boundRows_one_within_iff (by rw [hitems, ← hback]; rfl)
    · refine iff_of_true boundRows_within_of_two (hmany ?_)
      intro row' h
      rw [hitems] at h
      cases h
      cases hl

end Bound

section Pages

theorem QRow.get_with (row : QRow) (name : String) (value : QValue) :
    QRow.get (QRow.with row name value) name = some value := by
  rw [QRow.with]
  split_ifs with hsome
  · simp only [QRow.get, Option.isSome_map, List.find?_isSome, decide_eq_true_eq] at hsome
    induction row with
    | nil => simp at hsome
    | cons entry row ih =>
      by_cases hentry : entry.1 = name
      · simp [QRow.get, hentry]
      · simp only [List.mem_cons, exists_eq_or_imp, hentry, false_or] at hsome
        simpa [QRow.get, hentry] using ih hsome
  · rw [QRow.get, Option.isSome_map, Bool.not_eq_true, Option.isSome_eq_false_iff,
      Option.isNone_iff_eq_none] at hsome
    simp [QRow.get, List.find?_append, hsome]

/-- A page of `q` as it is written: the tokens of its cursors, the errors of its codes and the
members that the page does not say. -/
structure Rendering where
  workspace : String
  token : QCursorClaims → String
  error : String → EnvelopeError
  error_exceeded : error "max_bytes_item_exceeded" = itemExceeded
  others : ℕ → Members

namespace Rendering

variable (r : Rendering) (host : QHost) (req : QRequest) (ex : QExecution) (items : List QItem)
  (base : ℕ)

def envelope (env : QEnvelope) : Envelope where
  ok := env.ok
  isPartial := env.isPartial
  reason := env.reason
  error := if env.errorCode = "" then none else some (r.error env.errorCode)
  items := .rows env.items
  truncated := env.truncated
  continuation := env.continuation.map fun claims ↦
    { reason := "q_page"
      next := { op := "q", query := req.query, workspace := r.workspace }
      cursor := r.token claims }
  others := r.others env.budgetUsed

def call : Call where
  items
  fields := req.fields
  maxBytes := req.maxBytes
  query := req.query
  workspaceID := req.workspaceID
  workspace := r.workspace
  generation := ex.generation
  baseOffset := base
  now := ex.signed

/-- The first row shows the sensitivity of the first item's file. -/
def Labelled (rows : List QRow) : Prop :=
  ∀ row ∈ rows.head?, ∀ item ∈ items.head?,
    QRow.get row "sensibilidad" = some (.text (host.frontmatterSensibilidad item.file))

variable {r host req ex items base} {env : QEnvelope}

theorem envelope_exceeded : r.envelope req env.exceeded = (r.envelope req env).exceeded := by
  rw [envelope, QEnvelope.exceeded, Envelope.exceeded, ← r.error_exceeded]
  rfl

theorem envelope_shortened (items : List QItem) {row : QRow} {rest : List QRow}
    (h : env.items = (row :: rest).reverse) :
    r.envelope req (env.shortened host req ex base rest.length) =
      ((r.envelope req env).withRows rest.reverse).continued host r.token
        (r.call req ex items base) rest.length := by
  have htake : env.items.take rest.length = rest.reverse := by
    rw [h, List.reverse_cons, List.take_left' List.length_reverse]
  rw [QEnvelope.shortened, htake]
  rfl

theorem labelled_qPage : Labelled host items (qPage host req ex items base).items := by
  have hitems : (qPage host req ex items base).items =
      (qRows host req.budget req.fields 0 items).1 := by
    rw [qPage]
    dsimp only
    split_ifs <;> rfl
  rw [hitems]
  cases items with
  | nil => exact fun row hrow ↦ by cases hrow
  | cons item others =>
    rw [qRows]
    dsimp only
    split_ifs
    · exact fun row hrow ↦ by cases hrow
    · rintro row ⟨rfl⟩ item ⟨rfl⟩
      exact QRow.get_with _ _ _

section

variable (hsize : ∀ env, ex.size env = (r.envelope req env).size)
include hsize

theorem envelope_cut {row : QRow} {item : QItem}
    (hrow : QRow.get row "sensibilidad" = some (.text (host.frontmatterSensibilidad item.file))) :
    (env.cut host req ex base item).map (r.envelope req) =
      ((r.envelope req env).fittingCut host (r.call req ex items base) row item).map fun cut ↦
        ((r.envelope req env).withRows [cut]).continued host r.token (r.call req ex items base)
          1 := by
  have hcut : (fun text ↦ qRow host req.fields (cutItem item text)) =
      cutRow host (r.call req ex items base) row item := by
    funext text
    rw [cutRow, hrow]
    rfl
  rw [QEnvelope.cut, cutRows, hcut, Option.map_map, Envelope.fittingCut]
  simp only [hsize]
  rfl

theorem envelope_boundRows {rows : List QRow} (hitems : env.items = rows.reverse)
    (hrows : Labelled host items env.items) :
    r.envelope req (Query.qBoundEnvelope host req ex items base rows.length env) =
      boundRows host r.token (r.call req ex items base) rows (r.envelope req env) := by
  induction rows generalizing env with
  | nil =>
    rw [List.length_nil, Query.qBoundEnvelope, boundRows, hsize, apply_ite (r.envelope req),
      envelope_exceeded]
    rfl
  | cons row rest ih =>
    have htake : (env.shortened host req ex base rest.length).items = rest.reverse := by
      rw [QEnvelope.shortened, hitems, List.reverse_cons, List.take_left' List.length_reverse]
    have hshorter := ih htake (by
      intro first hfirst
      rw [htake] at hfirst
      exact hrows first (by rw [hitems, List.reverse_cons, List.head?_append, hfirst]; rfl))
    rw [envelope_shortened items hitems] at hshorter
    rw [List.length_cons, Query.qBoundEnvelope, boundRows, hsize, apply_ite (r.envelope req)]
    refine if_congr Iff.rfl rfl ?_
    cases items with
    | nil =>
      dsimp only
      rw [hshorter]
      exact (ite_self _).symm
    | cons item others =>
      dsimp only
      by_cases hcuts : rest = [] ∧ item.text ≠ ""
      · obtain ⟨rfl, htext⟩ := hcuts
        have hcut := @envelope_cut r host req ex (item :: others) base env hsize row item
          (hrows row (by rw [hitems]; rfl) item rfl)
        have hsome : (r.envelope req env).cut host (r.call req ex (item :: others) base) row =
            (r.envelope req env).fittingCut host (r.call req ex (item :: others) base) row item :=
          if_pos htext
        rw [if_pos ⟨List.length_nil, htext⟩, if_pos rfl, hsome]
        cases hfit : (r.envelope req env).fittingCut host (r.call req ex (item :: others) base)
            row item with
        | none =>
          rw [hfit, Option.map_none, Option.map_eq_none_iff] at hcut
          rw [hcut]
          exact hshorter
        | some cut =>
          rw [hfit, Option.map_some, Option.map_eq_some_iff] at hcut
          obtain ⟨env', hcut, henv⟩ := hcut
          rw [hcut]
          exact henv
      · rw [if_neg (by rwa [List.length_eq_zero_iff]), hshorter]
        split_ifs with hlast
        · have hnone : (r.envelope req env).cut host (r.call req ex (item :: others) base) row =
              none := if_neg fun htext ↦ hcuts ⟨hlast, htext⟩
          rw [hnone]
        · rfl

/-- A page is bounded as its envelope is. -/
theorem envelope_qPage :
    r.envelope req (Query.qBoundEnvelope host req ex items base
        (qPage host req ex items base).items.length (qPage host req ex items base)) =
      qBoundEnvelope host r.token (r.call req ex items base)
        (r.envelope req (qPage host req ex items base)) := by
  have hbound := @envelope_boundRows r host req ex items base (qPage host req ex items base) hsize
    _ (List.reverse_reverse _).symm labelled_qPage
  rwa [List.length_reverse] at hbound

end

end Rendering

end Pages

def sampleBoundHost : QHost := ⟨fun _ ↦ "", fun _ ↦ "", fun _ ↦ "digest"⟩

def sampleReadItem : QItem := { text := "func Run(ctx context.Context) error \x7b .." }

def sampleBoundCall : Call where
  items := [sampleReadItem]
  fields := ["text"]
  maxBytes := 1024
  query := "sym Run | read"
  workspaceID := "w1"
  workspace := "repo"
  generation := "g1"
  baseOffset := 0
  now := 0

def sampleLongEnvelope : Envelope where
  items := .rows [qRow sampleBoundHost ["text"] sampleReadItem]
  others := [("stages", 910)]

def sampleBounded : Envelope :=
  qBoundEnvelope sampleBoundHost (fun _ ↦ "q1.body.mac") sampleBoundCall sampleLongEnvelope

/-- The row is cut to fit 1024 bytes, which the flag and the continuation then exceed. -/
theorem cut_answer_exceeds_bound :
    1024 ≤ sampleBoundCall.maxBytes ∧ ¬sampleBounded.Within sampleBoundCall := by
  have hsize : 1024 < sampleBounded.size := by decide +kernel
  have herror : sampleBounded.error.isNone = true := by decide +kernel
  refine ⟨le_refl _, ?_⟩
  rintro (hle | ⟨e, he, -⟩)
  · exact absurd hle (Nat.not_le.mpr hsize)
  · rw [he] at herror
    cases herror

end MiLsp.Query.ByteBound
