import Mathlib.Data.List.Nodup

namespace MiLsp.Library.Recency

open List

variable {κ : Type}

/-- The last use of `k` in the log comes before the last use of `k'`. -/
def UsedSince (log : List κ) (k k' : κ) : Prop :=
  ∃ before after, log = before ++ after ∧ k ∉ after ∧ k' ∈ after

def Oldest (log keys : List κ) (k : κ) : Prop := ∀ k' ∈ keys, k' ≠ k → UsedSince log k k'

/-- The list `lru` has the keys in the order of their last uses. -/
structure Tracks (log lru keys : List κ) : Prop where
  ordered : lru.Pairwise (UsedSince log)
  perm : lru.Perm keys

variable {log lru keys : List κ} {k k' x : κ}

theorem UsedSince.use (h : UsedSince log k k') (hne : k ≠ x) : UsedSince (log ++ [x]) k k' := by
  obtain ⟨before, after, rfl, hk, hk'⟩ := h
  refine ⟨before, after ++ [x], append_assoc .., ?_, mem_append_left _ hk'⟩
  rw [mem_append, mem_singleton]
  exact not_or_intro hk hne

theorem map_filter_ne [DecidableEq κ] {α : Type} {f : α → κ} {l : List α} (h : (l.map f).Nodup)
    (k : κ) : (l.filter (f · ≠ k)).map f = (l.map f).erase k := by
  rw [h.erase_eq_filter, filter_map]
  exact congrArg _ (filter_congr fun a _ ↦ Bool.eq_iff_iff.mpr (by simp))

namespace Tracks

theorem empty : Tracks log ([] : List κ) [] := ⟨.nil, .nil⟩

variable (h : Tracks log lru keys)
include h

theorem nodup : lru.Nodup := by
  refine h.ordered.imp ?_
  rintro k k' ⟨before, after, -, hk, hk'⟩ rfl
  exact hk hk'

theorem skip (hx : x ∉ keys) : Tracks (log ++ [x]) lru keys where
  ordered := by
    refine h.ordered.imp_of_mem ?_
    rintro k k' hk - hused
    exact hused.use fun heq ↦ hx (h.perm.mem_iff.mp (heq ▸ hk))
  perm := h.perm

theorem oldest (hlru : lru = k :: keys') : Oldest log keys k := by
  subst hlru
  intro k' hk' hne
  exact (pairwise_cons.mp h.ordered).1 k' (mem_of_ne_of_mem hne (h.perm.mem_iff.mpr hk'))

variable [DecidableEq κ]

theorem remove (x : κ) : Tracks log (lru.erase x) (keys.erase x) :=
  ⟨h.ordered.sublist erase_sublist, h.perm.erase x⟩

theorem put (x : κ) : Tracks (log ++ [x]) (lru.erase x ++ [x]) (keys.erase x ++ [x]) where
  ordered := by
    have hx : x ∉ keys.erase x := (h.perm.nodup h.nodup).not_mem_erase
    refine pairwise_append.mpr ⟨((h.remove x).skip hx).ordered, pairwise_singleton .., ?_⟩
    intro k hk k' hk'
    rw [mem_singleton.mp hk']
    refine ⟨log, [x], rfl, fun heq ↦ ?_, mem_singleton_self x⟩
    rw [mem_singleton.mp heq] at hk
    exact h.nodup.not_mem_erase hk
  perm := (h.perm.erase x).append_right _

theorem touch (hx : x ∈ keys) : Tracks (log ++ [x]) (lru.erase x ++ [x]) keys where
  ordered := (h.put x).ordered
  perm := (h.put x).perm.trans ((perm_append_singleton ..).trans (perm_cons_erase hx).symm)

end Tracks

end MiLsp.Library.Recency
