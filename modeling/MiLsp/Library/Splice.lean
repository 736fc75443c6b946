import Mathlib.Data.List.Basic

namespace MiLsp.Library.Splice

open List

variable {α ι : Type}

/-- A stretch `[start, stop)` of a source text, with the text that is to stand there. -/
structure Span (ι α : Type) where
  name : ι
  start : ℕ
  stop : ℕ
  text : List α

def splice (source : List α) : ℕ → List (Span ι α) → List α
  | pos, [] => source.drop pos
  | pos, e :: es => (source.take e.start).drop pos ++ e.text ++ splice source e.stop es

def Span.original (source : List α) (e : Span ι α) : List α := (source.take e.stop).drop e.start

def Ascending : ℕ → List (Span ι α) → Prop
  | _, [] => True
  | pos, e :: es => pos ≤ e.start ∧ e.start ≤ e.stop ∧ Ascending e.stop es

variable {source : List α} {pos : ℕ} {es l : List (Span ι α)} {e : Span ι α} {text : List α}

theorem drop_eq_append {i j : ℕ} (h : i ≤ j) :
    source.drop i = (source.take j).drop i ++ source.drop j := by
  obtain ⟨k, rfl⟩ := Nat.exists_eq_add_of_le h
  rw [drop_take, Nat.add_sub_cancel_left, ← drop_drop, take_append_drop]

theorem splice_original (hes : Ascending pos es) (htext : ∀ e ∈ es, e.text = e.original source) :
    splice source pos es = source.drop pos := by
  induction es generalizing pos with
  | nil => rfl
  | cons e es ih =>
    obtain ⟨hpos, hstop, hes⟩ := hes
    have hrest := ih hes fun e' he' ↦ htext e' (mem_cons_of_mem e he')
    rw [splice, htext e (by simp), hrest, append_assoc, Span.original,
      ← drop_eq_append hstop, ← drop_eq_append hpos]

theorem Ascending.start_le (h : Ascending pos (l ++ e :: es)) :
    pos ≤ e.start ∧ ∀ e' ∈ l, e'.start ≤ e.start ∧ e'.stop ≤ e.start := by
  induction l generalizing pos with
  | nil => exact ⟨h.1, by simp⟩
  | cons e₀ l ih =>
    obtain ⟨hpos, hstop, h⟩ := h
    obtain ⟨hle, hl⟩ := ih h
    refine ⟨by omega, ?_⟩
    intro e' he'
    rcases mem_cons.mp he' with rfl | he'
    · exact ⟨by omega, hle⟩
    · exact hl e' he'

theorem Ascending.right
    (h : Ascending pos (l ++ e :: es)) : e.start ≤ e.stop ∧ Ascending e.stop es := by
  induction l generalizing pos with
  | nil => exact h.2
  | cons e₀ l ih => exact ih h.2.2

theorem splice_append (hl : ∀ e' ∈ l, e'.start ≤ e.start) :
    splice source pos (l ++ e :: es) =
      splice (source.take e.start) pos l ++ e.text ++ splice source e.stop es := by
  induction l generalizing pos with
  | nil => rfl
  | cons e₀ l ih =>
    have hstart : e₀.start ≤ e.start := hl e₀ (by simp)
    simp only [cons_append, splice]
    rw [ih fun e' he' ↦ hl e' (mem_cons_of_mem e₀ he'), take_take, Nat.min_eq_left hstart]
    simp only [append_assoc]

theorem original_append (h : e.start ≤ e.stop) :
    source.take e.start ++ e.original source ++ source.drop e.stop = source := by
  rw [append_assoc, Span.original, ← drop_eq_append h, take_append_drop]

theorem cut_append (a b c : List α) :
    (a ++ b ++ c).take a.length = a ∧
      ((a ++ b ++ c).take (a.length + b.length)).drop a.length = b ∧
      (a ++ b ++ c).drop (a.length + b.length) = c := by
  have hlen : a.length + b.length = (a ++ b).length := by rw [length_append]
  refine ⟨?_, ?_, ?_⟩
  · rw [append_assoc, take_left]
  · rw [hlen, take_left, drop_left]
  · rw [hlen, drop_left]

def setText [DecidableEq ι] (name : ι) (text : List α) (es : List (Span ι α)) : List (Span ι α) :=
  es.map fun e ↦ if e.name = name then { e with text := text } else e

theorem Ascending.setText [DecidableEq ι] {name : ι} (h : Ascending pos es) :
    Ascending pos (setText name text es) := by
  induction es generalizing pos with
  | nil => trivial
  | cons e es ih =>
    obtain ⟨hpos, hstop, hes⟩ := h
    by_cases he : e.name = name
    · simpa [Splice.setText, he, Ascending, hpos, hstop] using ih hes
    · simpa [Splice.setText, he, Ascending, hpos, hstop] using ih hes

theorem setText_append [DecidableEq ι] {name : ι} (hname : e.name = name)
    (hl : ∀ e' ∈ l, e'.name ≠ name) (hes : ∀ e' ∈ es, e'.name ≠ name) :
    setText name text (l ++ e :: es) = l ++ { e with text := text } :: es := by
  have hid : ∀ l' : List (Span ι α), (∀ e' ∈ l', e'.name ≠ name) → setText name text l' = l' := by
    intro l' hl'
    refine (map_congr_left fun e' he' ↦ ?_).trans (map_id _)
    rw [if_neg (hl' e' he'), id]
  have hl := hid l hl
  have hes := hid es hes
  unfold setText at hl hes ⊢
  rw [map_append, map_cons, hl, hes, if_pos hname]

end MiLsp.Library.Splice
