import Mathlib.Data.Nat.Find

namespace MiLsp.Library.Levels

variable {α : Type} (step : α → α → Prop) (root : α)

inductive Walk : ℕ → α → Prop
  | root : Walk 0 root
  | step {n : ℕ} {u v : α} : Walk n u → step u v → Walk (n + 1) v

def AtDistance (n : ℕ) (v : α) : Prop := Walk step root n v ∧ ∀ m < n, ¬Walk step root m v

variable {step root} {n : ℕ} {v : α}

theorem AtDistance.unique {m : ℕ} (hn : AtDistance step root n v) (hm : AtDistance step root m v) :
    n = m := by
  rcases Nat.lt_trichotomy n m with h | h | h
  · exact absurd hn.1 (hm.2 n h)
  · exact h
  · exact absurd hm.1 (hn.2 m h)

theorem atDistance_zero : AtDistance step root 0 v ↔ v = root := by
  constructor
  · rintro ⟨⟨⟩, -⟩
    rfl
  · rintro rfl
    exact ⟨.root, fun m hm ↦ absurd hm (Nat.not_lt_zero m)⟩

theorem Walk.exists_atDistance (h : Walk step root n v) : ∃ m ≤ n, AtDistance step root m v := by
  classical
  have hex : ∃ m, Walk step root m v := ⟨n, h⟩
  exact ⟨Nat.find hex, Nat.find_min' hex h, Nat.find_spec hex, fun m hm ↦ Nat.find_min hex hm⟩

theorem atDistance_succ : AtDistance step root (n + 1) v ↔
    (∃ u, AtDistance step root n u ∧ step u v) ∧ ∀ m ≤ n, ¬AtDistance step root m v := by
  constructor
  · rintro ⟨hwalk, hmin⟩
    refine ⟨?_, fun m hm h ↦ hmin m (Nat.lt_succ_of_le hm) h.1⟩
    cases hwalk with
    | @step _ u _ hu huv =>
      obtain ⟨m, hm, hdist⟩ := hu.exists_atDistance
      rcases Nat.lt_or_eq_of_le hm with hlt | rfl
      · exact absurd (hdist.1.step huv) (hmin (m + 1) (Nat.succ_lt_succ hlt))
      · exact ⟨u, hdist, huv⟩
  · rintro ⟨⟨u, hu, huv⟩, hnew⟩
    refine ⟨hu.1.step huv, fun m hm hwalk ↦ ?_⟩
    obtain ⟨k, hk, hdist⟩ := hwalk.exists_atDistance
    exact hnew k (by omega) hdist

theorem not_atDistance_of_le {m : ℕ} (hempty : ∀ v, ¬AtDistance step root n v) (h : n ≤ m) (v : α) :
    ¬AtDistance step root m v := by
  induction h generalizing v with
  | refl => exact hempty v
  | step _ ih =>
    intro hv
    obtain ⟨⟨u, hu, -⟩, -⟩ := atDistance_succ.mp hv
    exact ih u hu

end MiLsp.Library.Levels
