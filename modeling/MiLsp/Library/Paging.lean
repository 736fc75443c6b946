import Mathlib.Data.List.Forall2

namespace MiLsp.Library.Paging

open List

variable {κ ρ ι : Type}

structure Page (κ ρ : Type) where
  rows : List ρ
  next : Option κ

variable (page : ℕ → κ → Page κ ρ)

inductive Reached (start : κ) : ℕ → κ → Prop
  | start : Reached start 0 start
  | next {k : ℕ} {c d : κ} : Reached start k c → (page k c).next = some d →
      Reached start (k + 1) d

/-- From the `k`-th request on, the chain of cursors ends, and its pages hold these rows. -/
inductive Finishes : ℕ → κ → List ρ → Prop
  | last {k : ℕ} {c : κ} : (page k c).next = none → Finishes k c (page k c).rows
  | more {k : ℕ} {c d : κ} {rows : List ρ} : (page k c).next = some d →
      Finishes (k + 1) d rows → Finishes k c ((page k c).rows ++ rows)

/-- Every emitted cursor lies after the one of the request that emitted it. -/
def Advances (offset : κ → ℕ) (start : κ) : Prop :=
  ∀ k c d, Reached page start k c → (page k c).next = some d → offset c < offset d

variable {page}

section

variable {start : κ} {k : ℕ} {c : κ}

theorem Reached.eq_start (hlast : ∀ k, (page k start).next = none) (h : Reached page start k c) :
    c = start := by
  induction h with
  | start => rfl
  | @next k c d _ hnext ih =>
    rw [ih, hlast] at hnext
    cases hnext

/-- Pages of consecutive, non-empty segments of a listing hand over all of it. -/
theorem finishes_of_segments (offset : κ → ℕ) {items : List ι} {R : ι → ρ → Prop}
    (hseg : ∀ k c, Reached page start k c → ∃ n,
      List.Forall₂ R ((items.drop (offset c)).take n) (page k c).rows ∧
      ((page k c).next = none → items.length ≤ offset c + n) ∧
      ∀ d, (page k c).next = some d →
        offset d = offset c + n ∧ 0 < n ∧ offset d ≤ items.length) (h : Reached page start k c) :
    ∃ rows, Finishes page k c rows ∧ List.Forall₂ R (items.drop (offset c)) rows := by
  -- Each further page leaves fewer items.
  induction hm : items.length - offset c using Nat.strongRecOn generalizing k c with
  | _ m ih =>
    obtain ⟨n, hrows, hlast, hmore⟩ := hseg k c h
    cases hnext : (page k c).next with
    | none =>
      have hall : (items.drop (offset c)).take n = items.drop (offset c) := by
        apply take_of_length_le
        have := hlast hnext
        rw [length_drop]
        omega
      exact ⟨_, .last hnext, hall ▸ hrows⟩
    | some d =>
      obtain ⟨hd, hn, hle⟩ := hmore d hnext
      obtain ⟨rows, hfin, hrest⟩ := ih (items.length - offset d) (by omega) (h.next hnext) rfl
      refine ⟨_, .more hnext hfin, ?_⟩
      rw [← take_append_drop n (items.drop (offset c)), drop_drop, ← hd]
      exact rel_append hrows hrest

theorem Finishes.covers (offset : κ → ℕ) {rows : List ρ} {i : ℕ} (h : Finishes page k c rows)
    (hr : Reached page start k c) (hi : offset c ≤ i) :
    ∃ k' c', Reached page start k' c' ∧ offset c' ≤ i ∧
      ∀ d, (page k' c').next = some d → i < offset d := by
  induction h with
  | @last k c hnone =>
    refine ⟨k, c, hr, hi, ?_⟩
    intro d hd
    rw [hnone] at hd
    exact absurd hd (by simp)
  | @more k c d rows hnext _ ih =>
    by_cases hd : i < offset d
    · refine ⟨k, c, hr, hi, ?_⟩
      intro d' hd'
      rw [hnext, Option.some_inj] at hd'
      exact hd' ▸ hd
    · exact ih (hr.next hnext) (by omega)

end

section Positions

variable {offset : κ → ℕ} {start : κ}
  (hnext : ∀ k c d, Reached page start k c → (page k c).next = some d →
    offset d = offset c + (page k c).rows.length)

include hnext

theorem Finishes.exists_page {k i : ℕ} {c : κ} {rows : List ρ} {x : ρ}
    (h : Finishes page k c rows) (hr : Reached page start k c) (hx : rows[i]? = some x) :
    ∃ k' c' j, Reached page start k' c' ∧ (page k' c').rows[j]? = some x ∧
      offset c' + j = offset c + i := by
  induction h generalizing i with
  | @last k c _ => exact ⟨k, c, i, hr, hx, rfl⟩
  | @more k c d rows hd _ ih =>
    rcases Nat.lt_or_ge i (page k c).rows.length with hlt | hge
    · rw [getElem?_append_left hlt] at hx
      exact ⟨k, c, i, hr, hx, rfl⟩
    · rw [getElem?_append_right hge] at hx
      obtain ⟨k', c', j, hr', hj, hoffset⟩ := ih (hr.next hd) hx
      refine ⟨k', c', j, hr', hj, ?_⟩
      rw [hoffset, hnext k c d hr hd]
      omega

section

variable {rows : List ρ} (h : Finishes page 0 start rows) (hstart : offset start = 0) {c : κ}
include h hstart

theorem Finishes.drop {k : ℕ} (hr : Reached page start k c) :
    Finishes page k c (rows.drop (offset c)) := by
  induction hr with
  | start => rwa [hstart, drop_zero]
  | @next k c d hr hd ih =>
    generalize hrest : rows.drop (offset c) = rest at ih
    cases ih with
    | last hnone => exact absurd (hd.symm.trans hnone) (by simp)
    | @more _ _ d' rest hd' hfin =>
      obtain rfl := Option.some.inj (hd.symm.trans hd')
      rw [hnext k c d hr hd, ← drop_drop, hrest, drop_left]
      exact hfin

theorem Finishes.getElem?_page {k j : ℕ} (hr : Reached page start k c)
    (hj : j < (page k c).rows.length) : rows[offset c + j]? = (page k c).rows[j]? := by
  have hdrop := h.drop hnext hstart hr
  rw [← getElem?_drop]
  generalize rows.drop (offset c) = rest at hdrop
  cases hdrop with
  | last _ => rfl
  | more _ _ => exact getElem?_append_left hj

end

end Positions

end MiLsp.Library.Paging
