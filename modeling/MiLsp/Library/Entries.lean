import Mathlib.Data.List.Nodup
import Mathlib.Tactic.SplitIfs

namespace MiLsp.Library.Entries

open List

variable {κ α : Type} [BEq κ] [LawfulBEq κ] {l : List (κ × α)} {k : κ} {a : α}

theorem mem_of_lookup (h : l.lookup k = some a) : (k, a) ∈ l := by
  obtain ⟨l₁, l₂, rfl, -⟩ := lookup_eq_some_iff.mp h
  simp

theorem ne_of_lookup (h : l.lookup k = none) : ∀ pair ∈ l, pair.1 ≠ k := by
  intro pair hpair heq
  have hne := lookup_eq_none_iff.mp h pair hpair
  simp [heq] at hne

theorem lookup_of_mem (hkeys : (l.map Prod.fst).Nodup) (h : (k, a) ∈ l) : l.lookup k = some a := by
  induction l with
  | nil => cases h
  | cons pair l ih =>
    rw [map_cons, nodup_cons] at hkeys
    rw [lookup_cons]
    rcases mem_cons.mp h with rfl | hmem
    · simp
    · have hne : k ≠ pair.1 := by
        rintro rfl
        exact hkeys.1 (mem_map.mpr ⟨_, hmem, rfl⟩)
      rw [beq_false_of_ne hne]
      exact ih hkeys.2 hmem

omit [BEq κ] [LawfulBEq κ] in
theorem nodup_keys_cons (hne : ∀ pair ∈ l, pair.1 ≠ k) (hkeys : (l.map Prod.fst).Nodup) :
    (((k, a) :: l).map Prod.fst).Nodup := by
  refine nodup_cons.mpr ⟨?_, hkeys⟩
  rw [mem_map]
  rintro ⟨pair, hpair, heq⟩
  exact hne pair hpair heq

theorem lookup_filter_fst (keep : κ → Bool) (l : List (κ × α)) (k : κ) :
    (l.filter (keep ·.1)).lookup k = if keep k then l.lookup k else none := by
  induction l with
  | nil => simp
  | cons pair l ih =>
    obtain ⟨key, a⟩ := pair
    rw [filter_cons]
    by_cases hk : k = key
    · subst hk
      cases hkeep : keep k with
      | true => simp
      | false => simpa [hkeep] using ih
    · rw [lookup_cons, beq_false_of_ne hk, ← ih]
      cases keep key with
      | true => rw [if_pos rfl, lookup_cons, beq_false_of_ne hk]
      | false => rfl

theorem update_field {ι ρ β : Type} [DecidableEq ι] {f : ι → ρ} {i : ι} {x : ρ} (field : ρ → β)
    (h : field x = field (f i)) (j : ι) : field (Function.update f i x j) = field (f j) := by
  rw [Function.update_apply]
  split_ifs with hj
  · rw [hj, h]
  · rfl

/-- Entries stay in the order of their keys. -/
def put (key : String) (value : α) : List (String × α) → List (String × α)
  | [] => [(key, value)]
  | pair :: rest =>
    if key = pair.1 then (key, value) :: rest
    else if key < pair.1 then (key, value) :: pair :: rest
    else pair :: put key value rest

theorem lookup_put (key : String) (value : α) (l : List (String × α)) :
    (put key value l).lookup key = some value := by
  induction l with
  | nil => simp [put]
  | cons pair l ih =>
    unfold put
    split_ifs with heq hlt
    · simp
    · simp
    · rw [lookup_cons, beq_false_of_ne heq]
      exact ih

end MiLsp.Library.Entries
