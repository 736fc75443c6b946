import MiLsp.Library.Paging
import MiLsp.Query.Primitives

namespace MiLsp.Query

open Library.Paging List QEnvelope QRow

section Page

variable (host : QHost) (req : QRequest) (ex : QExecution)

def Delivers (fields : List String) (item : QItem) (row : QRow) : Prop :=
  row = qRow host fields item ∨ row ∈ cutRows host fields item

variable (items : List QItem) (base : ℕ)

def QEnvelope.Serves (env : QEnvelope) : Prop :=
  ∃ n ≤ items.length, List.Forall₂ (Delivers host req.fields) (items.take n) env.items ∧
    (env.continuation = none → n = items.length) ∧
    ∀ c, env.continuation = some c → c = qContinuation host req ex (base + n)

def QEnvelope.atMost (env : QEnvelope) (base n : ℕ) : QEnvelope :=
  if n < env.items.length then env.shortened host req ex base n else env

def QEnvelope.Fits (env : QEnvelope) : Prop :=
  (∃ n, 0 < n ∧ ex.size (env.atMost host req ex base n) ≤ req.maxBytes) ∨
    ∃ item ∈ items.head?, item.text ≠ "" ∧ ∃ row ∈ cutRows host req.fields item,
      ex.size { env.atMost host req ex base 1 with items := [row] } ≤ req.maxBytes

variable {host req ex}

theorem qRows_eq (budget : ℕ) (fields : List String) (used : ℕ) (items : List QItem) :
    ∃ n ≤ items.length,
      (qRows host budget fields used items).1 = (items.take n).map (qRow host fields) ∧
      ((qRows host budget fields used items).2.2 = false → n = items.length) ∧
      ∀ item ∈ items.take n, jsonSize (qRow host fields item) ≤ budget * 4 := by
  induction items generalizing used with
  | nil => exact ⟨0, le_refl 0, by simp [qRows], fun _ ↦ rfl, by simp⟩
  | cons item rest ih =>
    by_cases h : used + jsonSize (qRow host fields item) > budget * 4
    · refine ⟨0, Nat.zero_le _, ?_, ?_, by simp⟩
      · simp [qRows, h]
      · simp [qRows, h]
    · obtain ⟨n, hn, hrows, hall, hfit⟩ := ih (used + jsonSize (qRow host fields item))
      refine ⟨n + 1, Nat.succ_le_succ hn, ?_, ?_, ?_⟩
      · simp [qRows, h, hrows]
      · intro ht
        simp only [qRows, if_neg h] at ht
        rw [hall ht, length_cons]
      · rw [take_succ_cons, forall_mem_cons]
        exact ⟨by omega, hfit⟩

variable {item : QItem} {n : ℕ}

theorem qRows_ne_nil {budget : ℕ} {fields : List String} {rest : List QItem}
    (h : jsonSize (qRow host fields item) ≤ budget * 4) :
    (qRows host budget fields 0 (item :: rest)).1 ≠ [] := by
  simp [qRows, Nat.not_lt.mpr h]

theorem qPage_items :
    (qPage host req ex items base).items = (qRows host req.budget req.fields 0 items).1 := by
  simp only [qPage]
  split_ifs <;> rfl

theorem qPage_continuation : (qPage host req ex items base).continuation =
      if (qRows host req.budget req.fields 0 items).2.2 then
        some (qContinuation host req ex
          (base + (qRows host req.budget req.fields 0 items).1.length))
      else none := by
  simp only [qPage]
  split_ifs <;> rfl

theorem Delivers.whole (fields : List String) (items : List QItem) :
    List.Forall₂ (Delivers host fields) items (items.map (qRow host fields)) := by
  rw [forall₂_map_right_iff, forall₂_same]
  intro item _
  exact .inl rfl

theorem qPage_serves : (qPage host req ex items base).Serves host req ex items base := by
  obtain ⟨n, hn, hrows, hall, -⟩ := @qRows_eq host req.budget req.fields 0 items
  refine ⟨n, hn, ?_, ?_, ?_⟩
  · rw [qPage_items, hrows]
    exact Delivers.whole _ _
  · intro hnone
    rw [qPage_continuation] at hnone
    apply hall
    by_contra ht
    simp [ht] at hnone
  · intro c hc
    rw [qPage_continuation, hrows, length_map, length_take, Nat.min_eq_left hn] at hc
    split_ifs at hc
    exact (Option.some_inj.mp hc).symm

namespace QEnvelope

variable {items : List QItem} {base : ℕ} {env env' : QEnvelope}

theorem Serves.shortened (h : env.Serves host req ex items base)
    (hn : n ≤ env.items.length) :
    (env.shortened host req ex base n).Serves host req ex items base := by
  obtain ⟨m, hm, hrows, -, -⟩ := h
  have hlen := hrows.length_eq
  rw [length_take] at hlen
  refine ⟨n, by omega, ?_, by simp [QEnvelope.shortened], ?_⟩
  · have htake := forall₂_take n hrows
    rw [take_take, Nat.min_eq_left (by omega)] at htake
    exact htake
  · intro c hc
    exact (Option.some_inj.mp hc).symm

theorem cut_eq_some (h : env.cut host req ex base item = some env') :
    ∃ row ∈ cutRows host req.fields item,
      env' = { env with
        items := [row]
        truncated := true
        continuation := some (qContinuation host req ex (base + 1)) } := by
  obtain ⟨row, hrow, rfl⟩ := Option.map_eq_some_iff.mp h
  exact ⟨row, mem_of_find?_eq_some hrow, rfl⟩

theorem cut_eq_none (h : env.cut host req ex base item = none) :
    ∀ row ∈ cutRows host req.fields item, ¬ex.size { env with items := [row] } ≤ req.maxBytes := by
  have hfind := Option.map_eq_none_iff.mp h
  intro row hrow
  simpa using find?_eq_none.mp hfind row hrow

theorem Serves.cut {rest : List QItem} (h : env.cut host req ex base item = some env') :
    env'.Serves host req ex (item :: rest) base := by
  obtain ⟨row, hrow, rfl⟩ := cut_eq_some h
  refine ⟨1, by simp, ?_, by simp, ?_⟩
  · exact .cons (.inr hrow) .nil
  · intro c hc
    exact (Option.some_inj.mp hc).symm

theorem Serves.bound (h : env.Serves host req ex items base) (hn : env.items.length = n) :
    (qBoundEnvelope host req ex items base n env).Serves host req ex items base ∧
      (qBoundEnvelope host req ex items base n env).items.length ≤ n := by
  induction n generalizing env with
  | zero =>
    rw [qBoundEnvelope]
    split_ifs
    · exact ⟨h, hn.le⟩
    · exact ⟨h, hn.le⟩
  | succ n ih =>
    rw [qBoundEnvelope]
    by_cases hfit : ex.size env ≤ req.maxBytes
    · rw [if_pos hfit]
      exact ⟨h, hn.le⟩
    have hrest :=
      (ih (h.shortened (n := n) (by omega)) (by simp [QEnvelope.shortened, hn])).imp_right
      (·.trans (Nat.le_succ n))
    rw [if_neg hfit]
    cases items with
    | nil => exact hrest
    | cons item rest =>
      dsimp only
      split_ifs
      · cases hcut : env.cut host req ex base item with
        | none => exact hrest
        | some env' =>
          refine ⟨Serves.cut hcut, ?_⟩
          obtain ⟨row, -, rfl⟩ := cut_eq_some hcut
          simp
      · exact hrest

theorem atMost_of_le (h : env.items.length ≤ n) : env.atMost host req ex base n = env :=
  if_neg (Nat.not_lt.mpr h)

theorem atMost_shortened {m : ℕ} (hmn : m ≤ n) (hn : n < env.items.length) :
    (env.shortened host req ex base n).atMost host req ex base m =
      env.atMost host req ex base m := by
  have hlen : (env.shortened host req ex base n).items.length = n := by
    simp [shortened]
    omega
  rw [atMost, atMost, hlen, if_pos (Nat.lt_of_le_of_lt hmn hn)]
  rcases Nat.lt_or_eq_of_le hmn with hlt | rfl
  · simp [if_pos hlt, shortened, take_take, Nat.min_eq_left hmn]
  · rw [if_neg (Nat.lt_irrefl _)]

theorem fits_shortened (h : ¬ex.size env ≤ req.maxBytes) (hn : env.items.length = n + 1)
    (hpos : 0 < n) : (env.shortened host req ex base n).Fits host req ex items base ↔
      env.Fits host req ex items base := by
  have hone := @atMost_shortened host req ex n base env 1 hpos (by omega)
  rw [Fits, Fits, hone]
  apply or_congr_left
  constructor
  · rintro ⟨m, hm, hfit⟩
    by_cases hmn : m ≤ n
    · exact ⟨m, hm, by rwa [atMost_shortened hmn (by omega)] at hfit⟩
    · refine ⟨n, hpos, ?_⟩
      rw [atMost_of_le (by simp [shortened]; omega)] at hfit
      rwa [atMost, if_pos (by omega)]
  · rintro ⟨m, hm, hfit⟩
    by_cases hmn : m ≤ n
    · exact ⟨m, hm, by rwa [atMost_shortened hmn (by omega)]⟩
    · rw [atMost_of_le (by omega)] at hfit
      exact absurd hfit h

theorem bound_items_ne_nil (hn : env.items.length = n) (hpos : 0 < n) :
    (qBoundEnvelope host req ex items base n env).items ≠ [] ↔
      env.Fits host req ex items base := by
  induction n generalizing env with
  | zero => omega
  | succ n ih =>
    rw [qBoundEnvelope]
    by_cases hfit : ex.size env ≤ req.maxBytes
    · rw [if_pos hfit]
      refine iff_of_true ?_ (.inl ⟨n + 1, hpos, by rwa [atMost_of_le hn.le]⟩)
      exact ne_nil_of_length_pos (by omega)
    rw [if_neg hfit]
    rcases Nat.eq_zero_or_pos n with rfl | hpos'
    · -- The last row goes unless one of its cuts fits.
      have hempty : (qBoundEnvelope host req ex items base 0
          (env.shortened host req ex base 0)).items = [] := by
        rw [qBoundEnvelope]
        split_ifs <;> rfl
      have hwhole : ¬∃ m, 0 < m ∧ ex.size (env.atMost host req ex base m) ≤ req.maxBytes := by
        rintro ⟨m, hm, h⟩
        rw [atMost_of_le (by omega)] at h
        exact hfit h
      rw [Fits, or_iff_right hwhole, atMost_of_le hn.le]
      cases items with
      | nil => simp [hempty]
      | cons item rest =>
        simp only [true_and, head?_cons, Option.mem_some_iff, exists_eq_left']
        by_cases htext : item.text ≠ ""
        · rw [if_pos htext]
          cases hcut : env.cut host req ex base item with
          | none =>
            have hno := cut_eq_none hcut
            simp only [Option.getD_none, hempty, ne_eq, not_true_eq_false, false_iff]
            rintro ⟨-, row, hrow, h⟩
            exact hno row hrow h
          | some env' =>
            obtain ⟨row, hrow, heq⟩ := Option.map_eq_some_iff.mp hcut
            refine iff_of_true ?_ ⟨htext, row, mem_of_find?_eq_some hrow, ?_⟩
            · simp [← heq]
            · simpa using find?_some hrow
        · rw [if_neg htext, hempty]
          exact iff_of_false (by simp) fun h ↦ htext h.1
    · have hshort := @ih (env.shortened host req ex base n)
        (by simp [shortened, hn]) hpos'
      rw [fits_shortened hfit hn hpos'] at hshort
      cases items with
      | nil => exact hshort
      | cons item rest =>
        dsimp only
        rw [if_neg (by omega)]
        exact hshort

end QEnvelope

end Page

/-- A client that repeats one request with the cursor of the last answer. Its executions see one
generation and the same items. -/
structure QClient where
  host : QHost
  req : QRequest
  generation : String
  items : List QItem
  execution : ℕ → QExecution
  generation_eq : ∀ k, (execution k).generation = generation
  items_eq : ∀ k, (execution k).items = items
  timely : ∀ k, unix (execution (k + 1)).presented ≤
    unix ((execution k).signed + 600 * 1000000000)

namespace QClient

variable (client : QClient)

def answer (k : ℕ) (token : Option QCursorClaims) : Page (Option QCursorClaims) QRow :=
  match executeQ client.host client.req (client.execution k) token with
  | .ok env => ⟨env.items, env.continuation.map some⟩
  | .error _ => ⟨[], none⟩

def offset (token : Option QCursorClaims) : ℕ := (token.map (·.offset)).getD 0

/-- Every continuation lies after its request, the chain ends, and its pages hold every row, once
and in order. -/
def Partitions : Prop :=
  Advances client.answer offset none ∧
    ∃ rows, Finishes client.answer 0 none rows ∧
      List.Forall₂ (Delivers client.host client.req.fields) client.items rows

def page (k offset : ℕ) : QEnvelope :=
  qPage client.host client.req (client.execution k) (client.items.drop offset) offset

/-- Every row keeps within the token budget, and every page with items left fits the byte bound with
a row. -/
def AllFit : Prop :=
  (∀ item ∈ client.items,
    QRow.jsonSize (qRow client.host client.req.fields item) ≤ client.req.budget * 4) ∧
  ∀ k token, Reached client.answer none k token → offset token < client.items.length →
    (client.page k (offset token)).Fits client.host client.req (client.execution k)
      (client.items.drop (offset token)) (offset token)

def envelope (k offset : ℕ) : QEnvelope :=
  qBoundEnvelope client.host client.req (client.execution k) (client.items.drop offset) offset
    (client.page k offset).items.length (client.page k offset)

variable {client}

variable {k : ℕ} {token : Option QCursorClaims}

theorem answer_eq
    (hoffset : qOffset client.host client.req (client.execution k) token = .ok (offset token))
    (hle : offset token ≤ client.items.length) :
    client.answer k token =
      ⟨(client.envelope k (offset token)).items,
        (client.envelope k (offset token)).continuation.map some⟩ := by
  have hitems := client.items_eq k
  rw [answer, executeQ, hoffset]
  simp only [bind, Except.bind, hitems, if_neg (Nat.not_lt.mpr hle), pure, Except.pure]
  rfl

theorem envelope_serves (k offset : ℕ) :
    (client.envelope k offset).Serves client.host client.req (client.execution k)
      (client.items.drop offset) offset :=
  ((qPage_serves _ _).bound rfl).1

theorem envelope_length_le (k offset : ℕ) :
    (client.envelope k offset).items.length ≤ (client.page k offset).items.length :=
  ((qPage_serves _ _).bound rfl).2

theorem qOffset_continuation (k o : ℕ) :
    qOffset client.host client.req (client.execution (k + 1))
      (some (qContinuation client.host client.req (client.execution k) o)) = .ok o := by
  have htime := Int.not_lt.mpr (client.timely k)
  have hgen := (client.generation_eq k).trans (client.generation_eq (k + 1)).symm
  simp only [qOffset, verifyQCursor, qContinuation, signQCursor, if_neg htime, hgen, ne_eq,
    not_true_eq_false, or_self, if_false, bind, Except.bind, pure, Except.pure]

section

variable (h : Reached client.answer none k token)
include h

theorem reached_accepted :
    qOffset client.host client.req (client.execution k) token = .ok (offset token) ∧
      offset token ≤ client.items.length := by
  induction h with
  | start => exact ⟨rfl, Nat.zero_le _⟩
  | @next k c d _ hnext ih =>
    rw [answer_eq ih.1 ih.2] at hnext
    obtain ⟨claims, hclaims, rfl⟩ := Option.map_eq_some_iff.mp hnext
    obtain ⟨n, hn, -, -, hcont⟩ := client.envelope_serves k (offset c)
    obtain rfl := hcont claims hclaims
    rw [length_drop] at hn
    exact ⟨client.qOffset_continuation k _, by
      change offset c + n ≤ client.items.length
      omega⟩

theorem reached_answer :
    client.answer k token =
      ⟨(client.envelope k (offset token)).items,
        (client.envelope k (offset token)).continuation.map some⟩ :=
  answer_eq (reached_accepted h).1 (reached_accepted h).2

theorem next_offset {next : Option QCursorClaims}
    (hnext : (client.answer k token).next = some next) :
    offset next = offset token + (client.answer k token).rows.length := by
  rw [reached_answer h] at hnext ⊢
  obtain ⟨claims, hclaims, rfl⟩ := Option.map_eq_some_iff.mp hnext
  obtain ⟨n, hn, hrows, -, hcont⟩ := client.envelope_serves k (offset token)
  obtain rfl := hcont claims hclaims
  have hlen := hrows.length_eq
  rw [length_take, Nat.min_eq_left hn] at hlen
  exact congrArg (offset token + ·) hlen

end

theorem rows_ne_nil_of_advances (hadv : Advances client.answer offset none)
    (h : Reached client.answer none k token)
    (hlt : offset token < client.items.length) : (client.answer k token).rows ≠ [] := by
  intro hempty
  cases hnext : (client.answer k token).next with
  | none =>
    -- A page without rows that ends the chain would have no items left.
    rw [reached_answer h] at hempty hnext
    obtain ⟨n, -, hrows, hall, -⟩ := client.envelope_serves k (offset token)
    have hnone := hall (Option.map_eq_none_iff.mp hnext)
    have hlen := hrows.length_eq
    dsimp only at hempty
    rw [hnone, hempty, take_length, length_drop, length_nil] at hlen
    omega
  | some next =>
    have := hadv k token next h hnext
    rw [next_offset h hnext, hempty, length_nil] at this
    omega

theorem within_budget {o i : ℕ} {item : QItem} (hi : o ≤ i)
    (hlt : i < o + (client.envelope k o).items.length) (hitem : client.items[i]? = some item) :
    jsonSize (qRow client.host client.req.fields item) ≤ client.req.budget * 4 := by
  obtain ⟨n, hn, hrows, -, hfit⟩ := @qRows_eq client.host client.req.budget
    client.req.fields 0 (client.items.drop o)
  have hpage : (client.page k o).items.length = n := by
    rw [page, qPage_items, hrows, length_map, length_take, Nat.min_eq_left hn]
  have hle : (client.envelope k o).items.length ≤ n := hpage ▸ client.envelope_length_le k o
  apply hfit item
  rw [mem_iff_getElem?]
  refine ⟨i - o, ?_⟩
  rw [getElem?_take_of_lt (by omega), getElem?_drop, Nat.add_sub_cancel' hi]
  exact hitem

theorem within_page {i : ℕ} (h : Reached client.answer none k token)
    (hi : ∀ next, (client.answer k token).next = some next → i < offset next)
    (hlt : i < client.items.length) :
    i < offset token + (client.envelope k (offset token)).items.length := by
  have hanswer := reached_answer h
  cases hnext : (client.answer k token).next with
  | none =>
    rw [hanswer] at hnext
    obtain ⟨n, -, hrows, hall, -⟩ := client.envelope_serves k (offset token)
    have hlen := hrows.length_eq
    rw [hall (Option.map_eq_none_iff.mp hnext), take_length, length_drop] at hlen
    omega
  | some next =>
    have hoffset := next_offset h hnext
    rw [hanswer] at hoffset
    have := hi next hnext
    exact hoffset ▸ this

theorem rows_ne_nil_iff
    (h : Reached client.answer none k token)
    (hpos : 0 < (client.page k (offset token)).items.length) :
    (client.answer k token).rows ≠ [] ↔
      (client.page k (offset token)).Fits client.host client.req (client.execution k)
        (client.items.drop (offset token)) (offset token) := by
  rw [reached_answer h]
  exact bound_items_ne_nil rfl hpos

theorem Partitions.allFit (h : client.Partitions) : client.AllFit := by
  obtain ⟨hadv, rows, hfin, -⟩ := h
  constructor
  · intro item hitem
    obtain ⟨i, hi⟩ := mem_iff_getElem?.mp hitem
    have hlt : i < client.items.length := by
      by_contra hge
      rw [getElem?_eq_none (Nat.not_lt.mp hge)] at hi
      exact absurd hi (by simp)
    obtain ⟨k, token, hreached, hle, hnext⟩ :=
      hfin.covers offset .start (Nat.zero_le i)
    exact within_budget hle (within_page hreached hnext hlt) hi
  · intro k token hreached hlt
    have hne := rows_ne_nil_of_advances hadv hreached hlt
    refine (rows_ne_nil_iff hreached ?_).mp hne
    rw [reached_answer hreached] at hne
    exact Nat.lt_of_lt_of_le (length_pos_iff.mpr hne) (client.envelope_length_le k _)

theorem AllFit.rows_ne_nil (hfit : client.AllFit) (h : Reached client.answer none k token)
    (hlt : offset token < client.items.length) : (client.answer k token).rows ≠ [] := by
  refine (rows_ne_nil_iff h ?_).mpr (hfit.2 k token h hlt)
  rw [page, qPage_items, drop_eq_getElem_cons hlt]
  exact length_pos_iff.mpr (qRows_ne_nil (hfit.1 _ (getElem_mem hlt)))

theorem next_of_end (h : Reached client.answer none k token)
    (hend : client.items.length ≤ offset token) : (client.answer k token).next = none := by
  have hdrop : client.items.drop (offset token) = [] := drop_eq_nil_of_le hend
  have hitems : (client.page k (offset token)).items = [] := by
    rw [page, qPage_items, hdrop, qRows]
  have hnone : (client.page k (offset token)).continuation = none := by
    rw [page, qPage_continuation, hdrop, qRows]
    rfl
  rw [reached_answer h, envelope, hitems, length_nil, qBoundEnvelope]
  split_ifs
  · rw [hnone, Option.map_none]
  · rw [exceeded, hnone, Option.map_none]

theorem AllFit.advances (hfit : client.AllFit) : Advances client.answer offset none := by
  intro k token next h hnext
  rcases Nat.lt_or_ge (offset token) client.items.length with hlt | hend
  · have hpos := length_pos_iff.mpr (hfit.rows_ne_nil h hlt)
    rw [next_offset h hnext]
    omega
  · rw [next_of_end h hend] at hnext
    exact absurd hnext (by simp)

theorem AllFit.partitions (hfit : client.AllFit) : client.Partitions := by
  refine ⟨hfit.advances, ?_⟩
  refine finishes_of_segments offset (fun k token h ↦ ?_) .start
  have hanswer := reached_answer h
  obtain ⟨n, hn, hrows, hall, -⟩ := client.envelope_serves k (offset token)
  have hlen := hrows.length_eq
  rw [length_take, Nat.min_eq_left hn] at hlen
  rw [length_drop] at hn hall
  refine ⟨n, by rw [hanswer]; exact hrows, ?_, ?_⟩
  · intro hnone
    rw [hanswer] at hnone
    have := hall (Option.map_eq_none_iff.mp hnone)
    omega
  · intro next hnext
    have hadv := hfit.advances k token next h hnext
    have hoffset := next_offset h hnext
    rw [hanswer] at hoffset
    dsimp only at hoffset
    omega

/-- The pages hand over every item once and in order exactly when no row is larger than the token
budget and every page with items left fits the byte bound with a row. -/
theorem partitions_iff (client : QClient) : client.Partitions ↔ client.AllFit :=
  ⟨Partitions.allFit, AllFit.partitions⟩

def sampleItem : QItem where
  kind := "function"
  name := "main"
  file := "main.go"
  line := 3

def sampleClient : QClient where
  host :=
    { revisionOf := fun _ ↦ ""
      frontmatterSensibilidad := fun _ ↦ ""
      queryDigest := id }
  req :=
    { query := "sym main"
      workspaceID := "ws"
      fields := []
      budget := 1
      maxBytes := 1024
      one_le_budget := Nat.one_pos
      budget_le := by decide
      le_maxBytes := by decide }
  generation := "gen"
  items := [sampleItem]
  execution := fun _ ↦
    { generation := "gen"
      items := [sampleItem]
      failure := ""
      late := false
      presented := 0
      signed := 0
      size := fun _ ↦ 512 }
  generation_eq := fun _ ↦ rfl
  items_eq := fun _ ↦ rfl
  timely := fun _ ↦ by decide

/-- The only row is larger than four bytes: the answer is empty and continues where it began. -/
theorem sampleClient_stalls :
    ((sampleClient.answer 0 none).rows = [] ∧
      (sampleClient.answer 0 none).next.map offset = some 0) ∧ ¬sampleClient.Partitions := by
  refine ⟨⟨by rfl, by rfl⟩, ?_⟩
  intro h
  have hle := h.allFit.1 sampleItem (mem_singleton.mpr rfl)
  revert hle
  decide +kernel

end QClient

end MiLsp.Query
