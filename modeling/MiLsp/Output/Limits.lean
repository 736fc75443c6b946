import MiLsp.Output.Envelope

namespace MiLsp.Output.Limits

open Library.Json List Option MiLsp.Graph

/-- The two hints of the limits are apart from all others. -/
inductive NextHint
  | nextPage (offset : ℤ)
  | tooLong (maxChars : ℤ)
  | other (text : String)
deriving DecidableEq

def tooLongAdvice : String :=
  " chars; raise --token-budget or --max-chars, or use --format compact"

def NextHint.text : NextHint → String
  | .nextPage offset => "rerun with --offset " ++ toString offset ++ " for next page"
  | .tooLong maxChars => "response exceeded " ++ toString maxChars ++ tooLongAdvice
  | .other text => text

/-- An envelope with a list of items; the empty list is encoded as `[]` or as `null`. -/
structure Envelope (α : Type) where
  items : List α
  emptySize : ℕ := 2
  truncated : Bool := false
  nextHint : Option NextHint := none
  omissions : List EnvelopeOmission := []
  diagnostics : Option DiagnosticsSummary := none
  others : Members := []

structure QueryOptions where
  maxItems : ℤ
  offset : ℤ
  maxChars : ℤ
  tokenBudget : ℤ
  maxItems_lt : maxItems < 2 ^ 63

def int64 (n : ℤ) : ℤ := Int.bmod n (2 ^ 64)

def QueryOptions.charLimit (opts : QueryOptions) : ℤ :=
  if opts.maxChars = 0 ∧ 0 < opts.tokenBudget then int64 (opts.tokenBudget * 4) else opts.maxChars

def paginationHint (opts : QueryOptions) : Option NextHint :=
  if opts.maxItems ≤ 0 then none else some (.nextPage (int64 (opts.offset + opts.maxItems)))

open Envelope

section Limits

variable {α : Type} (itemSize : α → ℕ)

def Envelope.itemsSize (env : Envelope α) : ℕ :=
  if env.items = [] then env.emptySize else listLength (env.items.map itemSize)

variable (omissions : List EnvelopeOmission)

def omissionsMember : Members :=
  if omissions = [] then [] else [("omissions", listLength (omissions.map (·.size)))]

def Envelope.size (env : Envelope α) : ℕ :=
  objectSize (("items", env.itemsSize itemSize) :: ("truncated", boolLength env.truncated) ::
    optionalMember "next_hint" (env.nextHint.map fun hint ↦ textSize hint.text) ++
    omissionsMember env.omissions ++ optionalMember "diagnostics" (env.diagnostics.map (·.size)) ++
    env.others)

variable (opts : QueryOptions)

def Bites (env : Envelope α) : Prop := 0 < opts.maxItems ∧ opts.maxItems < env.items.length

instance (env : Envelope α) : Decidable (Bites opts env) :=
  inferInstanceAs (Decidable (_ ∧ _))

def itemsOmitted (count : ℕ) : EnvelopeOmission where
  reason := "max_items omitted " ++ toString count ++ " item(s)"
  errorCode := "max_items"

def limitItems (env : Envelope α) : Envelope α :=
  if Bites opts env then
    { env with
      items := env.items.take opts.maxItems.toNat
      truncated := true
      nextHint := env.nextHint.or (paginationHint opts)
      omissions := env.omissions ++ [itemsOmitted (env.items.length - opts.maxItems.toNat)] }
  else env

def trailingRemoved : EnvelopeOmission where
  reason := "char budget removed trailing item(s)"
  errorCode := "char_budget"

def hasOmissionCode (code : String) : Bool :=
  omissions.any (·.errorCode = code)

def noteRemoved : List EnvelopeOmission :=
  if hasOmissionCode omissions "char_budget" then omissions else omissions ++ [trailingRemoved]

def Envelope.withoutLast (env : Envelope α) : Envelope α :=
  { env with
    items := env.items.dropLast
    truncated := true
    omissions := noteRemoved env.omissions }

variable (limit : ℤ)

def responseExceeded : EnvelopeOmission where
  reason := "response exceeded " ++ toString limit ++ " chars"
  errorCode := "char_budget"

def Envelope.exceeded (paginated omitted : Bool) (env : Envelope α) : Envelope α :=
  { env with
    truncated := true
    nextHint :=
      if !paginated && env.nextHint.isNone then some (.tooLong limit) else env.nextHint
    omissions := if omitted then env.omissions else env.omissions ++ [responseExceeded limit] }

def dropToFit (limit : ℤ) (paginated : Bool) : ℕ → Bool → Envelope α → Envelope α
  | n + 2, _, env =>
    if env.size itemSize ≤ limit then env
    else dropToFit limit paginated (n + 1) true env.withoutLast
  | _, omitted, env =>
    if env.size itemSize ≤ limit then env else env.exceeded limit paginated omitted

/-- The summary counts what is returned, whatever the encoding was measured with. -/
def Envelope.counted (env : Envelope α) : Envelope α :=
  { env with
    diagnostics := env.diagnostics.map fun d ↦
      { d with returned := Int64.ofNat env.items.length } }

def applyEnvelopeLimits (env : Envelope α) : Envelope α :=
  let limited := limitItems opts env
  let paginated := decide (Bites opts env)
  if opts.charLimit ≤ 0 then limited.counted
  else
    (dropToFit itemSize opts.charLimit paginated limited.items.length paginated limited).counted

def Envelope.shortened (env : Envelope α) (k : ℕ) : Envelope α :=
  if env.items.length ≤ k then env
  else
    { env with
      items := env.items.take k
      truncated := true
      omissions := noteRemoved env.omissions }

structure Stops (limit : ℤ) (env : Envelope α) (k : ℕ) : Prop where
  le : k ≤ env.items.length
  pos : k = 0 → env.items.length = 0
  fits : (env.shortened k).size itemSize ≤ limit ∨ k ≤ 1
  greatest : ∀ j, k < j → j ≤ env.items.length → ¬(env.shortened j).size itemSize ≤ limit

/-- A prefix that keeps to the limit or is one item at most, marked where something is missing or no
limit is kept, with a hint to the item after it. -/
structure Sound (env out : Envelope α) : Prop where
  isPrefix : out.items <+: env.items
  bounded : 0 < opts.charLimit → out.size itemSize ≤ opts.charLimit ∨ out.items.length ≤ 1
  marked : env.truncated = false → (out.truncated = true ↔
    out.items ≠ env.items ∨ 0 < opts.charLimit ∧ opts.charLimit < out.size itemSize)
  hint : ∀ n, out.nextHint = some (.nextPage n) → n = opts.offset + out.items.length

/-- The limits do not both bite, the next offset is a 64-bit integer, and the count of the items
left makes nothing too long again. -/
structure Apart (env : Envelope α) : Prop where
  pages : Bites opts env → int64 (opts.offset + opts.maxItems) = opts.offset + opts.maxItems ∧
    (opts.charLimit ≤ 0 ∨ opts.maxItems = 1 ∨
      (limitItems opts env).size itemSize ≤ opts.charLimit)
  counts : 0 < opts.charLimit → ∀ k, Stops itemSize opts.charLimit (limitItems opts env) k →
    ((limitItems opts env).shortened k).size itemSize ≤ opts.charLimit →
    2 ≤ k ∨ k = env.items.length ∧ env.truncated = false →
    ((limitItems opts env).shortened k).counted.size itemSize ≤ opts.charLimit

def stopped (paginated : Bool) (env : Envelope α) (k : ℕ) : Envelope α :=
  if (env.shortened k).size itemSize ≤ limit then env.shortened k
  else (env.shortened k).exceeded limit paginated (paginated || decide (k < env.items.length))

variable {itemSize opts} {env : Envelope α} {limit : ℤ} {paginated : Bool}

@[simp] theorem counted_items : env.counted.items = env.items := rfl

@[simp] theorem counted_truncated : env.counted.truncated = env.truncated := rfl

@[simp] theorem counted_nextHint : env.counted.nextHint = env.nextHint := rfl

variable {k : ℕ}

theorem counted_of_no_diagnostics (h : env.diagnostics = none) :
    ((limitItems opts env).shortened k).counted = (limitItems opts env).shortened k := by
  have hnone : ((limitItems opts env).shortened k).diagnostics = none := by
    rw [shortened, limitItems]
    split_ifs <;> exact h
  rw [counted, hnone, map_none, ← hnone]

theorem noteRemoved_idem : noteRemoved (noteRemoved omissions) = noteRemoved omissions := by
  by_cases h : hasOmissionCode omissions "char_budget" = true
  · simp only [noteRemoved, if_pos h]
  · have hnoted : hasOmissionCode (omissions ++ [trailingRemoved]) "char_budget" = true := by
      simp [hasOmissionCode, trailingRemoved]
    simp only [noteRemoved, if_neg h, if_pos hnoted]

theorem shortened_length (h : k ≤ env.items.length) : (env.shortened k).items.length = k := by
  rw [shortened]
  split_ifs with hle
  · omega
  · simpa using h

theorem shortened_all : env.shortened env.items.length = env := if_pos (le_refl _)

theorem withoutLast_shortened (h : k < env.items.length) :
    (env.shortened (k + 1)).withoutLast = env.shortened k := by
  rw [shortened, shortened, if_neg (Nat.not_le.mpr h)]
  split_ifs with hle
  · have hlen : env.items.length = k + 1 := by omega
    rw [withoutLast, dropLast_eq_take, hlen, Nat.add_sub_cancel]
  · have htake : (env.items.take (k + 1)).dropLast = env.items.take k := by
      rw [dropLast_eq_take, length_take, take_take]
      congr 1
      omega
    simp only [withoutLast, htake, noteRemoved_idem]

theorem Stops.unique {j : ℕ} (hk : Stops itemSize limit env k) (hj : Stops itemSize limit env j) :
    k = j := by
  by_contra hne
  wlog hlt : k < j generalizing k j
  · exact this hj hk (Ne.symm hne) (by omega)
  rcases hj.fits with hfits | hone
  · exact hk.greatest j hlt hj.le hfits
  · have := hk.pos (by omega)
    have := hj.le
    omega

theorem dropToFit_stops {n : ℕ} (hn : n ≤ env.items.length) (hpos : n = 0 → env.items.length = 0)
    (hlarger : ∀ j, n < j → j ≤ env.items.length → ¬(env.shortened j).size itemSize ≤ limit) :
    ∃ k, Stops itemSize limit env k ∧
      dropToFit itemSize limit paginated n (paginated || decide (n < env.items.length))
        (env.shortened n) = stopped itemSize limit paginated env k := by
  have hstop : n ≤ 1 ∨ (env.shortened n).size itemSize ≤ limit →
      Stops itemSize limit env n := fun h ↦ ⟨hn, hpos, h.symm, hlarger⟩
  by_cases hfits : (env.shortened n).size itemSize ≤ limit
  · refine ⟨n, hstop (.inr hfits), ?_⟩
    rw [stopped, if_pos hfits]
    unfold dropToFit
    split
    · rw [if_pos hfits]
    · rw [if_pos hfits]
  rcases Nat.lt_or_ge 1 n with hmany | hone
  · obtain ⟨m, rfl⟩ : ∃ m, n = m + 2 := ⟨n - 2, by omega⟩
    have hbelow := dropToFit_stops (n := m + 1) (by omega) (by omega) (by
      intro j hj hle
      rcases Nat.lt_or_eq_of_le (show m + 2 ≤ j by omega) with hlt | rfl
      · exact hlarger j hlt hle
      · exact hfits)
    rw [show decide (m + 1 < env.items.length) = true from decide_eq_true (by omega),
      Bool.or_true] at hbelow
    rw [dropToFit, if_neg hfits, withoutLast_shortened (by omega)]
    exact hbelow
  · refine ⟨n, hstop (.inl hone), ?_⟩
    rw [stopped, if_neg hfits]
    unfold dropToFit
    split
    · omega
    · rw [if_neg hfits]

theorem limitItems_of_not (h : ¬Bites opts env) : limitItems opts env = env := if_neg h

theorem limitItems_length (h : Bites opts env) :
    ((limitItems opts env).items.length : ℤ) = opts.maxItems := by
  rw [limitItems, if_pos h, length_take]
  obtain ⟨hpos, hlt⟩ := h
  omega

theorem limitItems_items_ne (h : Bites opts env) : (limitItems opts env).items ≠ env.items := by
  intro heq
  have hlen := limitItems_length h
  rw [heq] at hlen
  exact absurd hlen (by have := h.2; omega)

theorem limitItems_initial : (limitItems opts env).items <+: env.items := by
  rw [limitItems]
  split_ifs
  · exact take_prefix _ _
  · exact prefix_refl _

theorem limitItems_nextHint (hnone : env.nextHint = none) (h : Bites opts env) :
    (limitItems opts env).nextHint =
      some (.nextPage (int64 (opts.offset + opts.maxItems))) := by
  rw [limitItems, if_pos h]
  simp only [hnone, none_or, paginationHint, if_neg (Int.not_le.mpr h.1)]

theorem shortened_nextHint (k : ℕ) : (env.shortened k).nextHint = env.nextHint := by
  rw [shortened]
  split_ifs
  · rfl
  · rfl

theorem shortened_initial (k : ℕ) : (env.shortened k).items <+: env.items := by
  rw [shortened]
  split_ifs
  · exact prefix_refl _
  · exact take_prefix _ _

theorem shortened_truncated (h : k < env.items.length) : (env.shortened k).truncated = true := by
  rw [shortened, if_neg (Nat.not_le.mpr h)]

theorem stopped_items (k : ℕ) :
    (stopped itemSize limit paginated env k).items = (env.shortened k).items := by
  rw [stopped]
  split_ifs
  · rfl
  · rfl

theorem stopped_nextHint (k : ℕ) (h : env.nextHint ≠ none) :
    (stopped itemSize limit paginated env k).nextHint = env.nextHint := by
  have hsome : env.nextHint.isNone = false := isNone_eq_false_iff.mpr
    (isSome_iff_ne_none.mpr h)
  rw [stopped]
  split_ifs
  · exact shortened_nextHint k
  · simp only [exceeded, shortened_nextHint, hsome, Bool.and_false, Bool.false_eq_true, if_false]

theorem stopped_nextHint_ne {n : ℤ} (k : ℕ) (h : env.nextHint = none) :
    (stopped itemSize limit paginated env k).nextHint ≠ some (.nextPage n) := by
  rw [stopped]
  split_ifs
  · simp [shortened_nextHint, h]
  · simp only [exceeded, shortened_nextHint, h]
    split_ifs
    · simp
    · simp

theorem applyEnvelopeLimits_eq (h : 0 < opts.charLimit) :
    ∃ k, Stops itemSize opts.charLimit (limitItems opts env) k ∧
      applyEnvelopeLimits itemSize opts env =
        (stopped itemSize opts.charLimit (decide (Bites opts env))
          (limitItems opts env) k).counted := by
  obtain ⟨k, hstops, heq⟩ := @dropToFit_stops α itemSize (limitItems opts env) opts.charLimit
    (decide (Bites opts env)) (limitItems opts env).items.length (le_refl _) id (by omega)
  refine ⟨k, hstops, ?_⟩
  rw [shortened_all, decide_eq_false (Nat.lt_irrefl _), Bool.or_false] at heq
  rw [applyEnvelopeLimits, if_neg (Int.not_le.mpr h), heq]

theorem omissionsMember_weight_le (l m : List EnvelopeOmission) :
    membersWeight jsonCharLength (omissionsMember l) ≤
      membersWeight jsonCharLength (omissionsMember (l ++ m)) := by
  by_cases hl : l = []
  · simp [omissionsMember, hl]
  · have happend : l ++ m ≠ [] := by simp [hl]
    have hle := listLength_le_append (l.map (·.size)) (m.map (·.size))
    rw [omissionsMember, omissionsMember, if_neg hl, if_neg happend, map_append]
    simp only [membersWeight_cons, membersWeight_nil]
    omega

theorem diagnostics_size_le (d : DiagnosticsSummary) (returned : Int64) :
    d.size ≤ ({ d with returned } : DiagnosticsSummary).size + 19 := by
  have hold : intLength d.returned.toInt ≤ 19 + 1 := by
    apply intLength_le (by decide)
    have hlo := Int64.le_toInt d.returned
    have hhi := Int64.toInt_lt d.returned
    omega
  have hnew := intLength_pos returned.toInt
  simp only [DiagnosticsSummary.size, objectSize]
  rw [recordLength_eq _ (by simp), recordLength_eq _ (by simp)]
  simp only [membersWeight_cons]
  omega

theorem tooLong_size (limit : ℤ) : 60 ≤ textSize (NextHint.tooLong limit).text := by
  have happend := textLength_append jsonCharLength
    ("response exceeded " ++ toString limit) tooLongAdvice
  have hadvice : 60 ≤ (tooLongAdvice.toList.map jsonCharLength).sum := by decide +kernel
  have htext : textSize (NextHint.tooLong limit).text = textLength jsonCharLength
    ("response exceeded " ++ toString limit ++ tooLongAdvice) := rfl
  exact hadvice.trans ((Nat.le_add_left _ _).trans (happend.trans htext.symm).le)

theorem exceeded_counted_size (hnone : env.nextHint = none) :
    env.size itemSize < (env.exceeded limit false false).counted.size itemSize := by
  have hhint := tooLong_size limit
  have homissions := omissionsMember_weight_le env.omissions [responseExceeded limit]
  have hflag : boolLength env.truncated ≤ boolLength true + 1 := by
    cases env.truncated <;> decide
  have hcount : membersWeight jsonCharLength
      (optionalMember "diagnostics" (env.diagnostics.map (·.size))) ≤
      membersWeight jsonCharLength
        (optionalMember "diagnostics" ((env.exceeded limit false false).counted.diagnostics.map
          (·.size))) + 19 := by
    cases hd : env.diagnostics with
    | none => simp
    | some d =>
      have hle := diagnostics_size_le d (Int64.ofNat env.items.length)
      simp only [counted, exceeded, hd, map_some, optionalMember_some,
        membersWeight_cons, membersWeight_nil]
      omega
  simp only [size, objectSize]
  rw [recordLength_eq _ (by simp), recordLength_eq _ (by simp)]
  have hadded : (env.exceeded limit false false).counted.nextHint = some (.tooLong limit) := by
    simp [counted, exceeded, hnone]
  have hitems : (env.exceeded limit false false).counted.itemsSize itemSize =
      env.itemsSize itemSize := rfl
  have hnoted : (env.exceeded limit false false).counted.omissions =
      env.omissions ++ [responseExceeded limit] := rfl
  have hset : (env.exceeded limit false false).counted.truncated = true := rfl
  have hothers : (env.exceeded limit false false).counted.others = env.others := rfl
  rw [hadded, hitems, hnoted, hset, hothers, hnone]
  simp only [cons_append, membersWeight_cons, membersWeight_append, map_none,
    optionalMember_none, membersWeight_nil, map_some, optionalMember_some]
  omega

theorem Stops.eq_length_iff (h : Stops itemSize limit env k) :
    k = env.items.length ↔ env.size itemSize ≤ limit ∨ env.items.length ≤ 1 := by
  constructor
  · rintro rfl
    have hfits := h.fits
    rwa [shortened_all] at hfits
  · intro hfits
    by_contra hne
    have hlt := Nat.lt_of_le_of_ne h.le hne
    rcases hfits with hfits | hone
    · exact h.greatest _ hlt (le_refl _) (by rwa [shortened_all])
    · have := h.pos (by omega)
      omega

theorem int64_eq_iff {a b m : ℤ} (hb : 0 ≤ b) (hbm : b ≤ m) (hm : m < 2 ^ 63) :
    int64 (a + m) = a + b ↔ int64 (a + m) = a + m ∧ b = m := by
  constructor
  · intro h
    have hmod : int64 (a + m) % (2 ^ 64 : ℤ) = (a + m) % (2 ^ 64 : ℤ) := Int.bmod_emod
    have hbm' : b = m := by omega
    exact ⟨by rw [h, hbm'], hbm'⟩
  · rintro ⟨h, rfl⟩
    exact h

theorem hint_iff (hnone : env.nextHint = none)
    (hstops : Stops itemSize limit (limitItems opts env) k) :
    (∀ n, (stopped itemSize limit (decide (Bites opts env)) (limitItems opts env) k).nextHint =
        some (.nextPage n) → n = opts.offset + k) ↔
      (Bites opts env → int64 (opts.offset + opts.maxItems) = opts.offset + opts.maxItems ∧
        (opts.maxItems = 1 ∨ (limitItems opts env).size itemSize ≤ limit)) := by
  by_cases hbites : Bites opts env
  · have hhint := limitItems_nextHint hnone hbites
    have hlen := limitItems_length hbites
    have hle := hstops.le
    have hall := hstops.eq_length_iff
    have hposition := @int64_eq_iff opts.offset k opts.maxItems (by omega) (by omega)
      opts.maxItems_lt
    have hone : (limitItems opts env).items.length ≤ 1 ↔ opts.maxItems = 1 := by
      have := hbites.1
      omega
    have hwhole : (k : ℤ) = opts.maxItems ↔
        opts.maxItems = 1 ∨ (limitItems opts env).size itemSize ≤ limit := by
      rw [← hlen, Int.natCast_inj, hall, hone, hlen, or_comm]
    rw [stopped_nextHint k (by simp [hhint]), hhint, ← hwhole, ← hposition]
    constructor
    · intro h _
      exact h _ rfl
    · intro h n hn
      cases hn
      exact h hbites
  · refine iff_of_true ?_ (fun h ↦ absurd h hbites)
    intro n hn
    rw [limitItems_of_not hbites] at hn
    exact absurd hn (stopped_nextHint_ne k hnone)

theorem bounded_iff (hstops : Stops itemSize limit env k) :
    ((stopped itemSize limit paginated env k).counted.size itemSize ≤ limit ∨ k ≤ 1) ↔
      ((env.shortened k).size itemSize ≤ limit → 2 ≤ k →
        (env.shortened k).counted.size itemSize ≤ limit) := by
  by_cases hfits : (env.shortened k).size itemSize ≤ limit
  · rw [stopped, if_pos hfits]
    constructor
    · rintro (hle | hone) _ hmany
      · exact hle
      · omega
    · intro h
      rcases Nat.lt_or_ge 1 k with hmany | hone
      · exact .inl (h hfits hmany)
      · exact .inr hone
  · exact iff_of_true (.inr (hstops.fits.resolve_left hfits)) (fun h ↦ absurd h hfits)

theorem stopped_truncated_of_lt (h : k < env.items.length) :
    (stopped itemSize limit paginated env k).truncated = true := by
  rw [stopped]
  split_ifs
  · exact shortened_truncated h
  · rfl

theorem stopped_truncated_of_set (h : env.truncated = true) :
    (stopped itemSize limit paginated env k).truncated = true := by
  rw [stopped, shortened]
  split_ifs
  · exact h
  · rfl
  · rfl
  · rfl

theorem marked_whole_iff (hset : env.truncated = false) (hnone : env.nextHint = none) :
    ((stopped itemSize limit false env env.items.length).truncated = true ↔
        limit < (stopped itemSize limit false env env.items.length).counted.size itemSize) ↔
      (env.size itemSize ≤ limit → env.counted.size itemSize ≤ limit) := by
  rw [stopped, shortened_all, decide_eq_false (Nat.lt_irrefl _), Bool.or_false]
  by_cases hfits : env.size itemSize ≤ limit
  · rw [if_pos hfits, hset]
    simp [hfits]
  · have hlonger := @exceeded_counted_size α itemSize env limit hnone
    rw [if_neg hfits]
    refine iff_of_true (iff_of_true rfl ?_) (fun h ↦ absurd h hfits)
    omega

theorem marked_iff (hset : env.truncated = false) (hnone : env.nextHint = none)
    (hstops : Stops itemSize limit (limitItems opts env) k) :
    ((stopped itemSize limit (decide (Bites opts env)) (limitItems opts env) k).truncated = true ↔
        ((limitItems opts env).shortened k).items ≠ env.items ∨
        limit < (stopped itemSize limit (decide (Bites opts env))
          (limitItems opts env) k).counted.size itemSize) ↔
      (((limitItems opts env).shortened k).size itemSize ≤ limit → k = env.items.length →
        ((limitItems opts env).shortened k).counted.size itemSize ≤ limit) := by
  have hlen := shortened_length hstops.le
  have hle := hstops.le
  by_cases hbites : Bites opts env
  · have hlimited := limitItems_length hbites
    have hfewer := hbites.2
    have hdropped : ((limitItems opts env).shortened k).items ≠ env.items := by
      intro heq
      rw [heq] at hlen
      omega
    refine iff_of_true (iff_of_true ?_ (.inl hdropped)) (fun _ hk ↦ ?_)
    · exact stopped_truncated_of_set (by rw [limitItems, if_pos hbites])
    · omega
  rw [limitItems_of_not hbites] at hlen hle ⊢
  rcases Nat.lt_or_eq_of_le hle with hlt | rfl
  · have hdropped : (env.shortened k).items ≠ env.items := by
      intro heq
      rw [heq] at hlen
      omega
    exact iff_of_true (iff_of_true (stopped_truncated_of_lt hlt) (.inl hdropped))
      (fun _ hk ↦ absurd hk (by omega))
  · rw [shortened_all, decide_eq_false hbites]
    simpa using marked_whole_iff hset hnone

theorem sound_iff_of_limit (hnone : env.nextHint = none) (hlimit : 0 < opts.charLimit) :
    Sound itemSize opts env (applyEnvelopeLimits itemSize opts env) ↔ Apart itemSize opts env := by
  obtain ⟨k, hstops, heq⟩ := @applyEnvelopeLimits_eq α itemSize opts env hlimit
  have hlen := shortened_length hstops.le
  have hitems : (applyEnvelopeLimits itemSize opts env).items =
      ((limitItems opts env).shortened k).items := by
    rw [heq]
    exact stopped_items k
  have hbounded := @bounded_iff α itemSize (limitItems opts env) opts.charLimit
    (decide (Bites opts env)) k hstops
  have hhint := hint_iff hnone hstops
  constructor
  · intro h
    refine ⟨fun hbites ↦ ?_, fun _ j hj hfits hkept ↦ ?_⟩
    · have hpages := hhint.mp (fun n hn ↦ by
        have hoffset := h.hint n (by rwa [heq])
        rwa [hitems, hlen] at hoffset) hbites
      exact ⟨hpages.1, .inr hpages.2⟩
    · obtain rfl := hj.unique hstops
      rcases hkept with hmany | ⟨hall, hset⟩
      · refine hbounded.mp ?_ hfits hmany
        have hshort := h.bounded hlimit
        rwa [hitems, hlen, heq] at hshort
      · refine (marked_iff hset hnone hstops).mp ?_ hfits hall
        have hmark := h.marked hset
        rw [hitems, heq] at hmark
        simpa [hlimit] using hmark
  · intro h
    refine ⟨?_, fun _ ↦ ?_, fun hset ↦ ?_, fun n hn ↦ ?_⟩
    · rw [hitems]
      exact (shortened_initial k).trans limitItems_initial
    · rw [hitems, hlen, heq]
      exact hbounded.mpr fun hfits hmany ↦ h.counts hlimit k hstops hfits (.inl hmany)
    · have hmark := (marked_iff hset hnone hstops).mpr fun hfits hall ↦
        h.counts hlimit k hstops hfits (.inr ⟨hall, hset⟩)
      rw [hitems, heq]
      simpa [hlimit] using hmark
    · rw [hitems, hlen]
      rw [heq] at hn
      refine hhint.mpr (fun hbites ↦ ⟨(h.pages hbites).1, ?_⟩) n hn
      exact (h.pages hbites).2.resolve_left (Int.not_le.mpr hlimit)

theorem sound_iff_of_no_limit (hnone : env.nextHint = none) (hlimit : ¬0 < opts.charLimit) :
    Sound itemSize opts env (applyEnvelopeLimits itemSize opts env) ↔ Apart itemSize opts env := by
  have heq : applyEnvelopeLimits itemSize opts env = (limitItems opts env).counted :=
    if_pos (Int.not_lt.mp hlimit)
  rw [heq]
  by_cases hbites : Bites opts env
  · have hhint := limitItems_nextHint hnone hbites
    have hlen := limitItems_length hbites
    constructor
    · intro h
      refine ⟨fun _ ↦ ⟨?_, .inl (Int.not_lt.mp hlimit)⟩, fun hpos ↦ absurd hpos hlimit⟩
      rw [h.hint _ hhint, counted_items, hlen]
    · intro h
      refine ⟨limitItems_initial, fun hpos ↦ absurd hpos hlimit, fun _ ↦ ?_, fun n hn ↦ ?_⟩
      · refine iff_of_true ?_ (.inl (limitItems_items_ne hbites))
        rw [counted_truncated, limitItems, if_pos hbites]
      · rw [counted_nextHint, hhint] at hn
        cases hn
        rw [counted_items, hlen]
        exact (h.pages hbites).1
  · refine iff_of_true ?_ ⟨fun h ↦ absurd h hbites, fun hpos ↦ absurd hpos hlimit⟩
    rw [limitItems_of_not hbites]
    refine ⟨prefix_refl _, fun hpos ↦ absurd hpos hlimit, fun hset ↦ ?_, fun n hn ↦ ?_⟩
    · simp [hset, hlimit]
    · rw [counted_nextHint, hnone] at hn
      cases hn

/-- They do what is asked exactly where they do not both bite and the count of the items left does
not outgrow the one it replaces. -/
theorem applyEnvelopeLimits_sound_iff (hnone : env.nextHint = none) :
    Sound itemSize opts env (applyEnvelopeLimits itemSize opts env) ↔ Apart itemSize opts env := by
  by_cases hlimit : 0 < opts.charLimit
  · exact sound_iff_of_limit hnone hlimit
  · exact sound_iff_of_no_limit hnone hlimit

end Limits

def sampleOptions : QueryOptions where
  maxItems := 3
  offset := 0
  maxChars := 700
  tokenBudget := 0
  maxItems_lt := by decide

def sampleItems : Envelope ℕ := { items := [200, 200, 200, 200] }

theorem hint_skips_item : sampleItems.nextHint = none ∧
    ¬Sound id sampleOptions sampleItems (applyEnvelopeLimits id sampleOptions sampleItems) := by
  refine ⟨rfl, fun h ↦ ?_⟩
  have hoffset := h.hint 3 (by decide +kernel)
  revert hoffset
  decide +kernel

theorem wide_limits_sound : sampleItems.nextHint = none ∧
    Sound id { sampleOptions with maxChars := 800 } sampleItems
      (applyEnvelopeLimits id { sampleOptions with maxChars := 800 } sampleItems) := by
  refine ⟨rfl, (applyEnvelopeLimits_sound_iff rfl).mpr ⟨fun _ ↦ ⟨by decide, ?_⟩, ?_⟩⟩
  · exact .inr (.inr (by decide +kernel))
  · intro _ k _ hfits _
    rwa [counted_of_no_diagnostics rfl]

end MiLsp.Output.Limits
