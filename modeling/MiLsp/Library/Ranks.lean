import Mathlib.Data.List.Sort

namespace MiLsp.Library.Ranks

open List

variable {α κ : Type} [LinearOrder κ] {key : α → κ} {l f : List α} {a b : α} {i j m : ℕ}

def Increasing (key : α → κ) (l : List α) : Prop := l.Pairwise fun a b ↦ key a < key b

theorem Increasing.nodup (h : Increasing key l) : l.Nodup := by
  apply List.Pairwise.imp _ h
  intro a b hlt hab
  exact (hab ▸ hlt).ne rfl

section

variable (h : Increasing key l) (hi : l[i]? = some a) (hj : l[j]? = some b)
include h hi hj

theorem Increasing.lt (hij : i < j) : key a < key b := by
  obtain ⟨hil, rfl⟩ := List.getElem?_eq_some_iff.mp hi
  obtain ⟨hjl, rfl⟩ := List.getElem?_eq_some_iff.mp hj
  exact pairwise_iff_getElem.mp h i j hil hjl hij

theorem Increasing.index_le (hle : key a ≤ key b) : i ≤ j := by
  by_contra hlt
  exact absurd (h.lt hj hi (Nat.not_le.mp hlt)) (not_lt.mpr hle)

theorem Increasing.key_le_of_index_le (hij : i ≤ j) : key a ≤ key b := by
  rcases Nat.lt_or_eq_of_le hij with hlt | rfl
  · exact (h.lt hi hj hlt).le
  · rw [Option.some.inj (hi.symm.trans hj)]

end

theorem mem_take_iff {x : α} : x ∈ l.take m ↔ ∃ i < m, l[i]? = some x := by
  rw [mem_iff_getElem?]
  constructor
  · intro ⟨i, hi⟩
    rw [getElem?_take] at hi
    split_ifs at hi with hlt
    exact ⟨i, hlt, hi⟩
  · intro ⟨i, hlt, hi⟩
    exact ⟨i, by rw [getElem?_take, if_pos hlt, hi]⟩

theorem lt_length_of_getElem? (h : l[i]? = some a) : i < l.length :=
  (List.getElem?_eq_some_iff.mp h).1

theorem length_le_of_subset (h : l.Nodup) (hsub : ∀ x ∈ l, x ∈ f) : l.length ≤ f.length :=
  (subperm_of_subset h hsub).length_le

section

variable (hl : Increasing key l) (hf : Increasing key f)
include hl hf

theorem key_le (hsub : ∀ x ∈ l.take (i + 1), x ∈ f) (ha : l[i]? = some a) (hb : f[i]? = some b) :
    key b ≤ key a := by
  by_contra hlt
  have hinit : ∀ x ∈ l.take (i + 1), x ∈ f.take i := by
    intro x hx
    obtain ⟨j, hj⟩ := mem_iff_getElem?.mp (hsub x hx)
    refine mem_take_iff.mpr ⟨j, ?_, hj⟩
    by_contra hge
    obtain ⟨k, hk, hkx⟩ := mem_take_iff.mp hx
    have hxa := hl.key_le_of_index_le hkx ha (Nat.le_of_lt_succ hk)
    have hbx := hf.key_le_of_index_le hb hj (Nat.not_lt.mp hge)
    exact hlt (hbx.trans hxa)
  have hle := length_le_of_subset (hl.nodup.sublist (take_sublist _ _)) hinit
  have hlen := lt_length_of_getElem? ha
  rw [length_take, length_take] at hle
  omega

theorem take_eq (hlf : ∀ x ∈ l.take m, x ∈ f) (hfl : ∀ x ∈ f.take m, x ∈ l) :
    l.take m = f.take m := by
  have hshort : ∀ {l f : List α}, Increasing key l → (∀ x ∈ l.take m, x ∈ f) →
      (l.take m).length ≤ (f.take m).length := by
    intro l f hl hsub
    have hle := length_le_of_subset (hl.nodup.sublist (take_sublist _ _)) hsub
    rw [length_take] at hle ⊢
    rw [length_take]
    omega
  have hlen := Nat.le_antisymm (hshort hl hlf) (hshort hf hfl)
  apply ext_getElem? fun i ↦ ?_
  rcases Nat.lt_or_ge i (l.take m).length with hi | hi
  · have ha := getElem?_eq_getElem hi
    have hb := getElem?_eq_getElem (hlen ▸ hi)
    have him : i < m := by
      rw [length_take] at hi
      omega
    rw [ha, hb]
    rw [getElem?_take, if_pos him] at ha hb
    have hsub : ∀ {l : List α}, l.take (i + 1) ⊆ l.take m := by
      intro l x hx
      obtain ⟨j, hj, hjx⟩ := mem_take_iff.mp hx
      exact mem_take_iff.mpr ⟨j, by omega, hjx⟩
    have hle := key_le hl hf (fun x hx ↦ hlf x (hsub hx)) ha hb
    have hge := key_le hf hl (fun x hx ↦ hfl x (hsub hx)) hb ha
    obtain ⟨j, hj⟩ := mem_iff_getElem?.mp (hlf _ (getElem_mem hi))
    have hji := Nat.le_antisymm (hf.index_le hj hb hge) (hf.index_le hb hj hle)
    rw [hji] at hj
    exact hj.symm.trans hb
  · rw [getElem?_eq_none hi, getElem?_eq_none (hlen ▸ hi)]

theorem eq_of_mem_iff (h : ∀ x, x ∈ l ↔ x ∈ f) : l = f := by
  have htake := take_eq (m := l.length + f.length) hl hf
    (fun x hx ↦ (h x).mp (mem_of_mem_take hx))
    (fun x hx ↦ (h x).mpr (mem_of_mem_take hx))
  rwa [take_of_length_le (by omega), take_of_length_le (by omega)] at htake

theorem mem_of_agree (hsub : ∀ x ∈ l.take (m + 1), x ∈ f) (ha : l[m]? = some a)
    (hb : f[m]? = some a) : ∀ x ∈ f.take (m + 1), x ∈ l := by
  have hinit : l.take (m + 1) ⊆ f.take (m + 1) := by
    intro x hx
    obtain ⟨j, hj⟩ := mem_iff_getElem?.mp (hsub x hx)
    obtain ⟨k, hk, hkx⟩ := mem_take_iff.mp hx
    have hle := hl.key_le_of_index_le hkx ha (Nat.le_of_lt_succ hk)
    exact mem_take_iff.mpr ⟨j, Nat.lt_succ_of_le (hf.index_le hj hb hle), hj⟩
  have hperm := subperm_of_subset (hl.nodup.sublist (take_sublist _ _)) hinit
  have hlen : (f.take (m + 1)).length ≤ (l.take (m + 1)).length := by
    have hla := lt_length_of_getElem? ha
    rw [length_take, length_take]
    omega
  intro x hx
  exact mem_of_mem_take ((hperm.perm_of_length_le hlen).mem_iff.mpr hx)

end

theorem getElem?_of_covers {rows : List α} (hf : Increasing key f) (hlen : rows.length ≤ f.length)
    (hle : ∀ (i : ℕ) a b, rows[i]? = some a → f[i]? = some b → key b ≤ key a)
    (hall : ∀ x ∈ f, x ∈ rows) (hb : f[i]? = some b) : rows[i]? = some b := by
  induction i using Nat.strongRecOn generalizing b with
  | _ i ih =>
    obtain ⟨j, hj⟩ := mem_iff_getElem?.mp (hall b (mem_iff_getElem?.mpr ⟨i, hb⟩))
    have hjf := getElem?_eq_getElem (Nat.lt_of_lt_of_le (lt_length_of_getElem? hj) hlen)
    have hji := hf.index_le hjf hb (hle j _ _ hj hjf)
    rcases Nat.lt_or_eq_of_le hji with hlt | rfl
    · -- Position `j` already holds an earlier element.
      have heq := Option.some.inj (hj.symm.trans (ih j hlt hjf))
      exact absurd (hf.lt hjf hb hlt) (heq ▸ lt_irrefl _)
    · exact hj

end MiLsp.Library.Ranks
