import MiLsp.Query.Stages

namespace MiLsp.Query.Stages

open Library.Strings List SplitState

structure Quoting where
  quote : Option Char := none
  escaped : Bool := false

def SplitState.quoting (st : SplitState) : Quoting := ⟨st.quote, st.escaped⟩

def TokenState.quoting (st : TokenState) : Quoting := ⟨st.quote, st.escaped⟩

variable (q : Quoting)

def splitQuoting (r : Char) : Quoting :=
  if q.escaped then { q with escaped := false }
  else if r = '\\' ∧ q.quote ≠ none then { q with escaped := true }
  else if q.quote ≠ none then if some r = q.quote then { q with quote := none } else q
  else if isQuote r then { q with quote := some r } else q

def tokenQuoting (r : Char) : Quoting :=
  if q.escaped then { q with escaped := false }
  else if q.quote ≠ none then
    if some r = q.quote then { q with quote := none }
    else if r = '\\' ∧ q.quote = some '"' then { q with escaped := true } else q
  else if isQuote r then { q with quote := some r } else q

def scanSplit (s : List Char) : Quoting := s.foldl splitQuoting q

def scanToken (s : List Char) : Quoting := s.foldl tokenQuoting q

section Scans

theorem scanSplit_append (q : Quoting) (u v : List Char) :
    scanSplit q (u ++ v) = scanSplit (scanSplit q u) v :=
  foldl_append

theorem scanToken_append (q : Quoting) (u v : List Char) :
    scanToken q (u ++ v) = scanToken (scanToken q u) v :=
  foldl_append

theorem splitStep_quoting (st : SplitState) (i : ℕ) (r : Char) :
    (splitStep st (i, r)).quoting = splitQuoting st.quoting r := by
  obtain ⟨out, start, raw, quote, quoteStart, escaped⟩ := st
  cases escaped <;> cases quote <;> simp only [splitStep, splitQuoting, quoting] <;>
    split_ifs <;> simp_all

theorem flush_quoting (st : TokenState) : st.flush.quoting = st.quoting := by
  rw [TokenState.flush]
  split_ifs <;> rfl

theorem tokenStep_quoting (base : ℕ) (st : TokenState) (i : ℕ) (r : Char) :
    (tokenStep base st (i, r)).quoting = tokenQuoting st.quoting r := by
  have hflush := flush_quoting st
  obtain ⟨tokens, text, quote, quoteStart, escaped, active, tokenStart⟩ := st
  cases escaped <;> cases quote <;>
    simp only [tokenStep, tokenQuoting, TokenState.quoting] at hflush ⊢ <;> split_ifs <;> simp_all

theorem foldl_runes {σ : Type} {step : σ → ℕ × Char → σ} {quoting : σ → Quoting}
    {next : Quoting → Char → Quoting}
    (h : ∀ st i r, quoting (step st (i, r)) = next (quoting st) r) (offset : ℕ) (st : σ)
    (s : List Char) : quoting ((runes offset s).foldl step st) = s.foldl next (quoting st) := by
  induction s generalizing offset st with
  | nil => rfl
  | cons r s ih => rw [runes, foldl_cons, ih, h, foldl_cons]

theorem splitLoop_quoting (s : List Char) : (splitLoop s).quoting = scanSplit {} s :=
  foldl_runes splitStep_quoting 0 {} s

theorem tokenLoop_quoting (base : ℕ) (s : List Char) :
    (tokenLoop base s).quoting = scanToken {} s :=
  foldl_runes (tokenStep_quoting base) 0 {} s

theorem splitPipeline_eq_ok {s : String} {parts : List PipelinePart} :
    splitPipeline s = .ok parts ↔
      (scanSplit {} s.toList).quote = none ∧ parts = (splitLoop s.toList).parts := by
  rw [← splitLoop_quoting, splitPipeline]
  dsimp only [quoting]
  split_ifs with h
  · simp [h]
  · rw [not_not] at h
    simp [h, eq_comm]

theorem tokenize_ok_iff (s : String) (base : ℕ) :
    (∃ tokens, tokenize s base = .ok tokens) ↔ (scanToken {} s.toList).quote = none := by
  rw [← tokenLoop_quoting base, tokenize]
  dsimp only [TokenState.quoting]
  split_ifs with h
  · simp [h]
  · simpa using h

end Scans

section Agreement

variable {q q' : Quoting} {s : List Char} {r : Char}

/-- Both scanners are in the same quotes, or outside, after every part of the text. -/
def Agree (q q' : Quoting) (s : List Char) : Prop :=
  ∀ u, u <+: s → (scanSplit q u).quote = (scanToken q' u).quote

theorem agree_nil : Agree q q' [] ↔ q.quote = q'.quote := by
  simp [Agree, scanSplit, scanToken]

theorem agree_cons :
    Agree q q' (r :: s) ↔
      q.quote = q'.quote ∧ Agree (splitQuoting q r) (tokenQuoting q' r) s := by
  constructor
  · intro h
    refine ⟨h [] nil_prefix, fun u hu ↦ ?_⟩
    exact h (r :: u) (cons_prefix_cons.mpr ⟨rfl, hu⟩)
  · rintro ⟨hquote, h⟩ u hu
    cases u with
    | nil => exact hquote
    | cons c u =>
      obtain ⟨rfl, htail⟩ := cons_prefix_cons.mp hu
      exact h u htail

theorem agree_append {u v : List Char} :
    Agree q q' (u ++ v) ↔ Agree q q' u ∧ Agree (scanSplit q u) (scanToken q' u) v := by
  induction u generalizing q q' with
  | nil =>
    rw [nil_append, agree_nil]
    exact ⟨fun h ↦ ⟨h [] nil_prefix, h⟩, fun h ↦ h.2⟩
  | cons r u ih =>
    rw [cons_append, agree_cons, ih, agree_cons, and_assoc]
    rfl

end Agreement

section Bodies

def single : Quoting := ⟨some '\'', false⟩

def double : Quoting := ⟨some '"', false⟩

def oddTail (s : List Char) : Bool := (s.reverse.takeWhile (· = '\\')).length % 2 = 1

/-- A text between double quotes: a back-slash takes the next character with it. -/
inductive DoubleBody : List Char → Prop
  | nil : DoubleBody []
  | plain {r : Char} {s : List Char} (hquote : r ≠ '"') (hslash : r ≠ '\\') (hs : DoubleBody s) :
    DoubleBody (r :: s)
  | escape (r : Char) {s : List Char} (hs : DoubleBody s) : DoubleBody ('\\' :: r :: s)

/-- Quotes are closed, and single-quoted text never ends in an odd number of back-slashes. -/
inductive Clean : List Char → Prop
  | nil : Clean []
  | plain {r : Char} {s : List Char} (hr : isQuote r = false) (hs : Clean s) : Clean (r :: s)
  | single {body s : List Char} (hbody : '\'' ∉ body) (hodd : oddTail body = false) (hs : Clean s) :
    Clean ('\'' :: body ++ '\'' :: s)
  | double {body s : List Char} (hbody : DoubleBody body) (hs : Clean s) :
    Clean ('"' :: body ++ '"' :: s)

variable {body : List Char}

theorem scanToken_single (h : '\'' ∉ body) : scanToken single body = single := by
  induction body with
  | nil => rfl
  | cons r body ih =>
    obtain ⟨hr, hbody⟩ := not_or.mp (mt mem_cons.mpr h)
    have hstep : tokenQuoting single r = single := by
      simp [tokenQuoting, single, Ne.symm hr]
    rw [scanToken, foldl_cons, hstep]
    exact ih hbody

theorem oddTail_concat (s : List Char) (r : Char) :
    oddTail (s ++ [r]) = if r = '\\' then !oddTail s else false := by
  rw [oddTail, oddTail, reverse_append, reverse_singleton, singleton_append]
  split_ifs with hr
  · rw [takeWhile_cons_of_pos (by simp [hr]), length_cons, ← decide_not, decide_eq_decide]
    omega
  · rw [takeWhile_cons_of_neg (by simp [hr])]
    rfl

theorem scanSplit_single (h : '\'' ∉ body) :
    scanSplit single body = { single with escaped := oddTail body } := by
  induction body using List.reverseRecOn with
  | nil => rfl
  | append_singleton body r ih =>
    have hbody : '\'' ∉ body := fun hmem ↦ h (mem_append_left _ hmem)
    have hr : r ≠ '\'' := by
      rintro rfl
      exact h (mem_append_right _ (mem_singleton.mpr rfl))
    rw [scanSplit_append, ih hbody, oddTail_concat, scanSplit]
    cases hodd : oddTail body <;> by_cases hslash : r = '\\' <;>
      simp [splitQuoting, single, hslash, hr]

theorem agree_single (h : '\'' ∉ body) : Agree single single body := by
  intro u hu
  have hu' : '\'' ∉ u := fun hmem ↦ h (hu.subset hmem)
  rw [scanSplit_single hu', scanToken_single hu']

theorem quoting_double {q : Quoting} (h : q.quote = some '"') (r : Char) :
    splitQuoting q r = tokenQuoting q r := by
  obtain ⟨quote, escaped⟩ := q
  obtain rfl : quote = some '"' := h
  cases escaped <;> by_cases hslash : r = '\\' <;> simp [splitQuoting, tokenQuoting, hslash]

theorem scan_doubleBody (h : DoubleBody body) :
    scanSplit double body = double ∧ scanToken double body = double ∧
      Agree double double body := by
  induction h with
  | nil => exact ⟨rfl, rfl, agree_nil.mpr rfl⟩
  | @plain r s hquote hslash _ ih =>
    have hsplit : splitQuoting double r = double := by
      simp [splitQuoting, double, hquote, hslash]
    have htoken : tokenQuoting double r = double := by
      rw [← quoting_double rfl, hsplit]
    rw [scanSplit, scanToken, foldl_cons, foldl_cons, agree_cons, hsplit, htoken]
    exact ⟨ih.1, ih.2.1, rfl, ih.2.2⟩
  | @escape r s _ ih =>
    have hsplit : splitQuoting (splitQuoting double '\\') r = double := by
      simp [splitQuoting, double]
    have htoken : tokenQuoting (tokenQuoting double '\\') r = double := by
      simp [tokenQuoting, double]
    rw [scanSplit, scanToken, foldl_cons, foldl_cons, foldl_cons, foldl_cons,
      agree_cons, agree_cons, hsplit, htoken]
    exact ⟨ih.1, ih.2.1, rfl, rfl, ih.2.2⟩

theorem quoting_plain {r : Char} (h : isQuote r = false) :
    splitQuoting {} r = {} ∧ tokenQuoting {} r = {} := by
  simp [splitQuoting, tokenQuoting, h]

theorem scan_clean {s : List Char} (h : Clean s) :
    scanSplit {} s = {} ∧ scanToken {} s = {} ∧ Agree {} {} s := by
  induction h with
  | nil => exact ⟨rfl, rfl, agree_nil.mpr rfl⟩
  | @plain r s hr _ ih =>
    obtain ⟨hsplit, htoken⟩ := quoting_plain hr
    rw [scanSplit, scanToken, foldl_cons, foldl_cons, agree_cons, hsplit, htoken]
    exact ⟨ih.1, ih.2.1, rfl, ih.2.2⟩
  | @single body s hbody hodd _ ih =>
    have hsplit : scanSplit {} ('\'' :: body) = single := by
      change scanSplit single body = single
      rw [scanSplit_single hbody, hodd]
      rfl
    have htoken : scanToken {} ('\'' :: body) = single := scanToken_single hbody
    rw [agree_append, agree_cons, agree_cons, hsplit, htoken]
    rw [scanSplit_append, scanToken_append, hsplit, htoken]
    exact ⟨ih.1, ih.2.1, ⟨rfl, agree_single hbody⟩, rfl, ih.2.2⟩
  | @double body s hbody _ ih =>
    obtain ⟨hsplitBody, htokenBody, hagree⟩ := scan_doubleBody hbody
    have hsplit : scanSplit {} ('"' :: body) = double := hsplitBody
    have htoken : scanToken {} ('"' :: body) = double := htokenBody
    rw [agree_append, agree_cons, agree_cons, hsplit, htoken]
    rw [scanSplit_append, scanToken_append, hsplit, htoken]
    exact ⟨ih.1, ih.2.1, ⟨rfl, hagree⟩, rfl, ih.2.2⟩

theorem exists_doubleBody {s : List Char} (h : (scanSplit double s).quote = none) :
    ∃ body rest, s = body ++ '"' :: rest ∧ DoubleBody body := by
  match s with
  | [] => cases h
  | [r] =>
    by_cases hr : r = '"'
    · exact ⟨[], [], by rw [hr]; rfl, .nil⟩
    · by_cases hslash : r = '\\' <;> simp [scanSplit, splitQuoting, double, hr, hslash] at h
  | r :: c :: s =>
    by_cases hr : r = '"'
    · exact ⟨[], c :: s, by rw [hr]; rfl, .nil⟩
    · by_cases hslash : r = '\\'
      · have hstep : splitQuoting (splitQuoting double r) c = double := by
          simp [splitQuoting, double, hslash]
        rw [scanSplit, foldl_cons, foldl_cons, hstep] at h
        obtain ⟨body, rest, rfl, hbody⟩ := exists_doubleBody h
        exact ⟨r :: c :: body, rest, rfl, hslash ▸ .escape c hbody⟩
      · have hstep : splitQuoting double r = double := by
          simp [splitQuoting, double, hr, hslash]
        rw [scanSplit, foldl_cons, hstep] at h
        obtain ⟨body, rest, heq, hbody⟩ := exists_doubleBody h
        exact ⟨r :: body, rest, by rw [heq]; rfl, .plain hr hslash hbody⟩
termination_by s.length

theorem clean_of_agree {s : List Char} (hsplit : (scanSplit {} s).quote = none)
    (hagree : Agree {} {} s) : Clean s := by
  match s with
  | [] => exact .nil
  | r :: s =>
    by_cases hr : isQuote r = false
    · obtain ⟨hs, ht⟩ := quoting_plain hr
      rw [agree_cons, hs, ht] at hagree
      rw [scanSplit, foldl_cons, hs] at hsplit
      exact .plain hr (clean_of_agree hsplit hagree.2)
    · simp only [isQuote, Bool.not_eq_false, Bool.or_eq_true, decide_eq_true_eq] at hr
      rcases hr with rfl | rfl
      · change (scanSplit single s).quote = none at hsplit
        by_cases hmem : '\'' ∈ s
        · obtain ⟨body, rest, rfl, hbody⟩ := eq_append_cons_of_mem hmem
          rw [agree_cons] at hagree
          have hinside : Agree single single (body ++ '\'' :: rest) := hagree.2
          rw [agree_append, agree_cons, scanSplit_single hbody, scanToken_single hbody]
            at hinside
          rw [scanSplit_append, scanSplit_single hbody] at hsplit
          -- after an odd number of back-slashes only the tokenizer leaves the quotes
          cases hodd : oddTail body with
          | true =>
            have hquote := hinside.2.2 [] nil_prefix
            rw [hodd] at hquote
            cases hquote
          | false =>
            rw [hodd] at hinside hsplit
            exact .single hbody hodd (clean_of_agree hsplit hinside.2.2)
        · rw [scanSplit_single hmem] at hsplit
          cases hsplit
      · change (scanSplit double s).quote = none at hsplit
        obtain ⟨body, rest, rfl, hbody⟩ := exists_doubleBody hsplit
        obtain ⟨hs, ht, -⟩ := scan_doubleBody hbody
        rw [agree_cons] at hagree
        have hinside : Agree double double (body ++ '"' :: rest) := hagree.2
        rw [agree_append, agree_cons, hs, ht] at hinside
        rw [scanSplit_append, hs] at hsplit
        exact .double hbody (clean_of_agree hsplit hinside.2.2)
termination_by s.length

end Bodies

section Parts

variable (s : List Char)

/-- The loop of `splitPipeline` ends a stage at the character with number `k`. -/
def Separates (k : ℕ) : Prop :=
  (splitLoop (s.take (k + 1))).out.length = (splitLoop (s.take k)).out.length + 1

def Outside (k : ℕ) : Prop := (tokenLoop 0 (s.take k)).quote = none

/-- Every stage is cut into words, and the bars that end a stage are those outside quotes. -/
structure Staged (s : List Char) (parts : List PipelinePart) : Prop where
  tokens : ∀ part ∈ parts, ∃ tokens, tokenize part.text part.start = .ok tokens
  bars : ∀ k, s[k]? = some '|' → (Separates s k ↔ Outside s k)

theorem runes_concat (offset : ℕ) (u : List Char) (r : Char) :
    runes offset (u ++ [r]) = runes offset u ++ [(offset + byteLength u, r)] := by
  induction u generalizing offset with
  | nil => rfl
  | cons c u ih =>
    rw [cons_append, runes, ih, runes, cons_append, byteLength, byteLength, map_cons,
      sum_cons, Nat.add_assoc]

variable (u : List Char)

theorem splitLoop_concat (r : Char) :
    splitLoop (u ++ [r]) = splitStep (splitLoop u) (byteLength u, r) := by
  rw [splitLoop, runes_concat, foldl_append, Nat.zero_add]
  rfl

theorem foldl_outside {f : Quoting → Char → Quoting}
    (hf : ∀ (q : Quoting) (r : Char), (q.quote = none → q = {}) → (f q r).quote = none → f q r = {})
    (u : List Char) (h : (u.foldl f {}).quote = none) : u.foldl f {} = {} := by
  induction u using List.reverseRecOn with
  | nil => rfl
  | append_singleton u r ih =>
    rw [foldl_append] at h ⊢
    exact hf _ r ih h

theorem scanSplit_outside (h : (scanSplit {} u).quote = none) : scanSplit {} u = {} := by
  refine foldl_outside ?_ u h
  rintro ⟨quote, escaped⟩ r hq hnext
  rw [splitQuoting] at hnext ⊢
  cases quote <;> cases escaped <;> split_ifs at hnext ⊢ <;> simp_all

theorem scanToken_outside (h : (scanToken {} u).quote = none) : scanToken {} u = {} := by
  refine foldl_outside ?_ u h
  rintro ⟨quote, escaped⟩ r hq hnext
  rw [tokenQuoting] at hnext ⊢
  cases quote <;> cases escaped <;> split_ifs at hnext ⊢ <;> simp_all

theorem separates_iff {s : List Char} {k : ℕ} (h : s[k]? = some '|') :
    Separates s k ↔ (scanSplit {} (s.take k)).quote = none := by
  have htake : s.take (k + 1) = s.take k ++ ['|'] := by rw [take_add_one, h]; rfl
  rw [Separates, htake, splitLoop_concat]
  have hstate := scanSplit_outside (s.take k)
  rw [← splitLoop_quoting] at hstate ⊢
  generalize splitLoop (s.take k) = st at hstate ⊢
  obtain ⟨out, start, raw, quote, quoteStart, escaped⟩ := st
  cases quote with
  | none =>
    cases hstate rfl
    simp [splitStep, isQuote, parts, quoting]
  | some c =>
    rcases eq_or_ne c '|' with rfl | hc
    · cases escaped <;> simp [splitStep, quoting]
    · cases escaped <;> simp [splitStep, quoting, Ne.symm hc]

theorem outside_iff (k : ℕ) : Outside s k ↔ (scanToken {} (s.take k)).quote = none := by
  rw [← tokenLoop_quoting 0]
  rfl

theorem isQuote_space {r : Char} (h : isSpace r = true) : isQuote r = false := by
  rw [← Bool.not_eq_true]
  intro hr
  simp only [isQuote, Bool.or_eq_true, decide_eq_true_eq] at hr
  rcases hr with rfl | rfl <;> revert h <;> decide

variable {u raw v : List Char}

theorem scanToken_quote {c : Char} (h : (scanToken {} u).quote = some c) : isQuote c = true := by
  induction u using List.reverseRecOn generalizing c with
  | nil => cases h
  | append_singleton u r ih =>
    rw [scanToken_append] at h
    change (tokenQuoting (scanToken {} u) r).quote = some c at h
    rw [tokenQuoting] at h
    split_ifs at h with _ _ _ _ hr
    · exact ih h
    · exact ih h
    · exact ih h
    · rw [← Option.some.inj h]
      exact hr
    · exact ih h

theorem scanToken_spaces (u : List Char) (h : ∀ r ∈ v, isSpace r = true) :
    (scanToken {} (u ++ v)).quote = (scanToken {} u).quote := by
  induction v using List.reverseRecOn with
  | nil => rw [append_nil]
  | append_singleton v r ih =>
    rw [forall_mem_append] at h
    have hr := isQuote_space (h.2 r (mem_singleton.mpr rfl))
    rw [← ih h.1, ← append_assoc, scanToken_append _ (u ++ v)]
    have hquote := @scanToken_quote (u ++ v)
    generalize scanToken {} (u ++ v) = q at hquote ⊢
    change (tokenQuoting q r).quote = q.quote
    rw [tokenQuoting]
    split_ifs with _ _ hc _ hr'
    · rfl
    · rw [hquote hc.symm] at hr
      cases hr
    · rfl
    · rfl
    · rw [hr'] at hr
      cases hr
    · rfl

theorem scanToken_front (h : ∀ r ∈ v, isSpace r = true) : scanToken {} v = {} :=
  scanToken_outside v (scanToken_spaces [] h)

theorem scanToken_trimSpace (h : (scanToken {} raw).quote = none) :
    (scanToken {} (trimSpace (String.ofList raw)).toList).quote = none := by
  rw [trimSpace, String.toList_ofList, String.toList_ofList]
  let back := raw.dropWhile isSpace
  have hback : (scanToken {} back).quote = none := by
    rw [← @List.takeWhile_append_dropWhile _ isSpace raw, scanToken_append,
      scanToken_front fun r hr ↦ mem_takeWhile_imp hr] at h
    exact h
  have hsplit : (back.reverse.dropWhile isSpace).reverse ++
      (back.reverse.takeWhile isSpace).reverse = back := by
    rw [← reverse_append, takeWhile_append_dropWhile, reverse_reverse]
  rw [← hsplit, scanToken_spaces _ fun r hr ↦
    mem_takeWhile_imp (mem_reverse.mp hr)] at hback
  exact hback

theorem tokenize_pipelinePart (h : (scanToken {} raw).quote = none) (rawStart : ℕ) :
    ∃ tokens, tokenize (pipelinePart raw rawStart).text (pipelinePart raw rawStart).start =
      .ok tokens :=
  (tokenize_ok_iff _ _).mpr (scanToken_trimSpace h)

/-- What the loop of `splitPipeline` keeps: finished stages are cut into words, the present one is
scanned as the whole text. -/
structure Cut (u : List Char) (st : SplitState) : Prop where
  out : ∀ part ∈ st.out, ∃ tokens, tokenize part.text part.start = .ok tokens
  raw : scanToken {} st.raw = scanToken {} u

theorem Cut.parts {st : SplitState} (h : Cut u st) (hquote : (scanToken {} u).quote = none) :
    ∀ part ∈ st.parts, ∃ tokens, tokenize part.text part.start = .ok tokens := by
  intro part hpart
  rw [SplitState.parts, mem_append, mem_singleton] at hpart
  rcases hpart with hpart | rfl
  · exact h.out part hpart
  · rw [← h.raw] at hquote
    exact tokenize_pipelinePart hquote st.start

theorem splitStep_cases (st : SplitState) (i : ℕ) (r : Char) :
    (st.quoting = {} ∧ r = '|' ∧ (splitStep st (i, r)).out = st.parts ∧
        (splitStep st (i, r)).raw = []) ∨
      (splitStep st (i, r)).out = st.out ∧ (splitStep st (i, r)).raw = st.raw ++ [r] := by
  rw [splitStep]
  split_ifs with hescaped _ hquote _ _ hr
  all_goals first
    | exact .inr ⟨rfl, rfl⟩
    | skip
  rw [Bool.not_eq_true] at hescaped
  rw [not_not] at hquote
  refine .inl ⟨?_, hr, rfl, rfl⟩
  rw [quoting, hescaped, hquote]

theorem cut_splitLoop (h : Agree {} {} u) : Cut u (splitLoop u) := by
  induction u using List.reverseRecOn with
  | nil => exact ⟨by simp [splitLoop, runes], rfl⟩
  | append_singleton u r ih =>
    obtain ⟨hagree, -⟩ := agree_append.mp h
    have hcut := ih hagree
    have hquote := hagree u prefix_rfl
    rw [splitLoop_concat]
    rcases splitStep_cases (splitLoop u) (byteLength u) r with
      ⟨hstate, rfl, hout, hraw⟩ | ⟨hout, hraw⟩
    · rw [← splitLoop_quoting, hstate] at hquote
      constructor
      · rw [hout]
        exact hcut.parts hquote.symm
      · rw [hraw, scanToken_append, scanToken_outside u hquote.symm]
        rfl
    · constructor
      · rw [hout]
        exact hcut.out
      · rw [hraw, scanToken_append, hcut.raw, scanToken_append]

theorem staged_of_agree {s : List Char} (hagree : Agree {} {} s)
    (hquote : (scanToken {} s).quote = none) : Staged s (splitLoop s).parts where
  tokens := (cut_splitLoop hagree).parts hquote
  bars k hk := by
    rw [separates_iff hk, outside_iff, hagree _ (List.take_prefix k s)]

end Parts

section Misread

variable {u body : List Char}

def quoted (u body : List Char) : List Char := u ++ '\'' :: body ++ ['\'']

def misread (u body : List Char) : List Char := quoted u body ++ ['|', '\'']

section

variable (hclean : Clean u) (hbody : '\'' ∉ body) (hodd : oddTail body = true)
include hclean hbody hodd

theorem scan_quoted :
    scanSplit {} (quoted u body) = single ∧ scanToken {} (quoted u body) = {} := by
  obtain ⟨hsplit, htoken, -⟩ := scan_clean hclean
  have hsplitBody : scanSplit {} ('\'' :: body) = ⟨some '\'', true⟩ := by
    change scanSplit single body = _
    rw [scanSplit_single hbody, hodd]
    rfl
  have htokenBody : scanToken {} ('\'' :: body) = single := scanToken_single hbody
  rw [quoted, scanSplit_append, scanSplit_append, scanToken_append, scanToken_append, hsplit,
    htoken, hsplitBody, htokenBody]
  exact ⟨rfl, rfl⟩

theorem misread_bar :
    ¬ Separates (misread u body) (quoted u body).length ∧
      Outside (misread u body) (quoted u body).length := by
  obtain ⟨hsplit, htoken⟩ := scan_quoted hclean hbody hodd
  have hbar : (misread u body)[(quoted u body).length]? = some '|' := by simp [misread]
  rw [separates_iff hbar, outside_iff, misread, take_left, hsplit, htoken]
  exact ⟨by simp [single], rfl⟩

theorem splitPipeline_misread :
    ∃ parts, splitPipeline (String.ofList (misread u body)) = .ok parts := by
  refine ⟨_, splitPipeline_eq_ok.mpr ⟨?_, rfl⟩⟩
  rw [String.toList_ofList, misread, scanSplit_append, (scan_quoted hclean hbody hodd).1]
  rfl

end

end Misread

/-- The scanners agree at every character exactly when no single-quoted text ends in an odd number
of back-slashes, which goes wrong whenever a bar follows. -/
theorem stages_agree_iff_clean (s : String) :
    (∀ parts : List PipelinePart, splitPipeline s = .ok parts →
      ((∀ k, (splitLoop (s.toList.take k)).quote = (tokenLoop 0 (s.toList.take k)).quote) ↔
        Clean s.toList)) ∧
    (Clean s.toList → ∃ parts, splitPipeline s = .ok parts ∧ Staged s.toList parts) ∧
    ∀ u body : List Char, Clean u → '\'' ∉ body → oddTail body = true →
      (∃ parts, splitPipeline (String.ofList (misread u body)) = .ok parts) ∧
      ¬ Separates (misread u body) (quoted u body).length ∧
      Outside (misread u body) (quoted u body).length := by
  refine ⟨?_, ?_, ?_⟩
  · intro parts hparts
    obtain ⟨hsplit, -⟩ := splitPipeline_eq_ok.mp hparts
    have hquotes (k : ℕ) :
        (splitLoop (s.toList.take k)).quote = (tokenLoop 0 (s.toList.take k)).quote ↔
          (scanSplit {} (s.toList.take k)).quote = (scanToken {} (s.toList.take k)).quote := by
      rw [← splitLoop_quoting, ← tokenLoop_quoting 0]
      rfl
    simp only [hquotes]
    constructor
    · intro h
      refine clean_of_agree hsplit fun u hu ↦ ?_
      rw [prefix_iff_eq_take.mp hu]
      exact h u.length
    · intro hclean k
      exact (scan_clean hclean).2.2 _ (List.take_prefix k _)
  · intro hclean
    obtain ⟨hsplit, htoken, hagree⟩ := scan_clean hclean
    exact ⟨_, splitPipeline_eq_ok.mpr ⟨by rw [hsplit], rfl⟩,
      staged_of_agree hagree (by rw [htoken])⟩
  · intro u body hclean hbody hodd
    exact ⟨splitPipeline_misread hclean hbody hodd, misread_bar hclean hbody hodd⟩

theorem quoted_bar_staged :
    ∃ parts, splitPipeline "'a|b'|c" = .ok parts ∧ Staged "'a|b'|c".toList parts :=
  (stages_agree_iff_clean "'a|b'|c").2.1
    (@Clean.single ['a', '|', 'b'] ['|', 'c'] (by decide) (by decide)
      (.plain rfl (.plain rfl .nil)))

theorem escaped_quote_misread :
    splitPipeline "'a\\' | b'" = .ok [⟨"'a\\' | b'", 0⟩] ∧
      tokenize "'a\\' | b'" 0 = .error (unclosed 8) ∧
      (tokenLoop 0 ("'a\\' | b'".toList.take 5)).quote = none := by
  decide +kernel

end MiLsp.Query.Stages
