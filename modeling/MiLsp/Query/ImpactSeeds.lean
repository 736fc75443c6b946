import MiLsp.Library.Ranks
import MiLsp.Query.ImpactRequest

namespace MiLsp.Query

open Library.Ranks List SeedPaths

variable {t : SeedPaths} {raw path last x : String} {paths raws front back : List String}

theorem textKey_injective {a b : String} (h : textKey a = textKey b) : a = b :=
  String.toList_inj.mp h

section Insert

theorem mem_insertPath : x ∈ insertPath raw paths ↔ x = raw ∨ x ∈ paths :=
  mem_orderedInsert _

theorem length_insertPath : (insertPath path paths).length = paths.length + 1 :=
  orderedInsert_length _ _ _

theorem increasing_of_sorted (h : paths.Pairwise fun a b ↦ textKey a ≤ textKey b)
    (hnodup : paths.Nodup) : Increasing textKey paths := by
  refine (h.and hnodup).imp ?_
  rintro a b ⟨hle, hne⟩
  exact lt_of_le_of_ne hle fun heq ↦ hne (textKey_injective heq)

theorem insertPath_increasing (h : Increasing textKey paths) (hnew : path ∉ paths) :
    Increasing textKey (insertPath path paths) := by
  refine increasing_of_sorted (List.Pairwise.orderedInsert path paths (h.imp fun hlt ↦ hlt.le)) ?_
  exact (perm_orderedInsert _ _ _).nodup_iff.mpr (nodup_cons.mpr ⟨hnew, h.nodup⟩)

theorem insertPath_append (h : ∀ a ∈ front, ¬textKey path ≤ textKey a) :
    insertPath path (front ++ back) = front ++ insertPath path back := by
  induction front with
  | nil => rfl
  | cons a front ih =>
    rw [forall_mem_cons] at h
    rw [insertPath, cons_append, orderedInsert_cons, if_neg h.1]
    exact congrArg (a :: ·) (ih h.2)

theorem insertPath_append_cons (h : textKey path ≤ textKey last) :
    insertPath path (front ++ last :: back) = insertPath path front ++ last :: back := by
  induction front with
  | nil => rw [insertPath, insertPath, nil_append, orderedInsert_cons, if_pos h]; rfl
  | cons a front ih =>
    rw [insertPath, insertPath, cons_append, orderedInsert_cons, orderedInsert_cons]
    split_ifs
    · rfl
    · exact congrArg (a :: ·) ih

end Insert

section Canonical

theorem canonicalPaths_increasing (raws : List String) : Increasing textKey (canonicalPaths raws) :=
  increasing_of_sorted (pairwise_insertionSort _ _)
    ((perm_insertionSort _ _).nodup_iff.mpr (nodup_dedup _))

theorem canonicalPaths_congr {raws' : List String} (h : ∀ raw, raw ∈ raws ↔ raw ∈ raws') :
    canonicalPaths raws = canonicalPaths raws' := by
  refine eq_of_mem_iff (canonicalPaths_increasing _) (canonicalPaths_increasing _) fun x ↦ ?_
  rw [mem_canonicalPaths, mem_canonicalPaths]
  simp only [h]

theorem canonicalPaths_concat (raws : List String) (raw : String) :
    canonicalPaths (raws ++ [raw]) =
      if normalizeImpactPath raw = "" ∨ normalizeImpactPath raw ∈ canonicalPaths raws then
        canonicalPaths raws
      else insertPath (normalizeImpactPath raw) (canonicalPaths raws) := by
  have hmem : ∀ x, x ∈ canonicalPaths (raws ++ [raw]) ↔
      x ∈ canonicalPaths raws ∨ normalizeImpactPath raw = x ∧ x ≠ "" := by
    intro x
    rw [mem_canonicalPaths, mem_canonicalPaths]
    simp only [mem_append, mem_singleton, or_and_right, exists_or, exists_eq_left]
  split_ifs with hold
  · refine eq_of_mem_iff (canonicalPaths_increasing _) (canonicalPaths_increasing _) fun x ↦ ?_
    rw [hmem, or_iff_left_iff_imp]
    rintro ⟨rfl, hne⟩
    exact hold.resolve_left hne
  · rw [not_or] at hold
    refine eq_of_mem_iff (canonicalPaths_increasing _)
      (insertPath_increasing (canonicalPaths_increasing raws) hold.2) fun x ↦ ?_
    rw [hmem, mem_insertPath, or_comm]
    refine or_congr_left ⟨fun h ↦ h.1.symm, ?_⟩
    rintro rfl
    exact ⟨rfl, hold.1⟩

end Canonical

def SeedPaths.firstOf (paths : List String) : SeedPaths where
  kept := paths.take maxImpactSeeds
  overflow := maxImpactSeeds < paths.length

theorem SeedPaths.firstOf_append (h : front.length = maxImpactSeeds) (hback : back ≠ []) :
    firstOf (front ++ back) = { kept := front, overflow := true } := by
  have hpos := length_pos_iff.mpr hback
  rw [firstOf, ← h, take_left, length_append, decide_eq_true (by omega)]

theorem SeedPaths.add_full (hfull : front.length + 1 = maxImpactSeeds)
    (h : Increasing textKey (front ++ last :: back)) (hnew : path ∉ front ++ [last]) :
    firstOf (if path ∈ front ++ last :: back then front ++ last :: back
        else insertPath path (front ++ last :: back)) =
      if textKey last ≤ textKey path then { kept := front ++ [last], overflow := true }
      else { kept := insertPath path front, overflow := true } := by
  have hkept : (front ++ [last]).length = maxImpactSeeds := by
    rw [length_append, length_singleton, hfull]
  obtain ⟨-, hback, hfront⟩ := pairwise_append.mp h
  rw [pairwise_cons] at hback
  split_ifs with hold hle hle
  · rw [append_cons] at hold ⊢
    refine firstOf_append hkept ?_
    rintro rfl
    rw [append_nil] at hold
    exact hnew hold
  · rw [append_cons, mem_append] at hold
    exact absurd (hback.1 path (hold.resolve_left hnew)).le hle
  · rw [append_cons, insertPath_append]
    · exact firstOf_append hkept (ne_nil_of_mem (mem_insertPath.mpr (.inl rfl)))
    · intro a ha hbefore
      have hlast : textKey a ≤ textKey last := by
        rcases mem_append.mp ha with ha | ha
        · exact (hfront a ha last mem_cons_self).le
        · rw [mem_singleton.mp ha]
      have heq := textKey_injective (le_antisymm hbefore (hlast.trans hle))
      exact hnew (heq ▸ ha)
  · rw [insertPath_append_cons (not_le.mp hle).le]
    exact firstOf_append (length_insertPath.trans hfull) (cons_ne_nil _ _)

theorem SeedPaths.add_firstOf (h : Increasing textKey paths) (raw : String) :
    (firstOf paths).add raw = firstOf
      (if normalizeImpactPath raw = "" ∨ normalizeImpactPath raw ∈ paths then paths
        else insertPath (normalizeImpactPath raw) paths) := by
  simp only [add]
  generalize normalizeImpactPath raw = path
  by_cases hskip : path = "" ∨ path ∈ (firstOf paths).kept
  · rw [if_pos hskip, if_pos (hskip.imp_right mem_of_mem_take)]
  rw [if_neg hskip]
  rw [not_or] at hskip
  by_cases hroom : paths.length < maxImpactSeeds
  · have htake : paths.take maxImpactSeeds = paths := take_of_length_le hroom.le
    have hkept : firstOf paths = { kept := paths, overflow := false } := by
      rw [firstOf, htake, decide_eq_false (Nat.not_lt.mpr hroom.le)]
    rw [hkept] at hskip ⊢
    have hlength : (insertPath path paths).length ≤ maxImpactSeeds := by
      rw [length_insertPath]
      exact hroom
    rw [if_pos hroom, if_neg (not_or.mpr hskip), firstOf, take_of_length_le hlength,
      decide_eq_false (Nat.not_lt.mpr hlength)]
  · obtain ⟨front, last, back, rfl, hfull⟩ : ∃ front last back,
        paths = front ++ last :: back ∧ front.length + 1 = maxImpactSeeds := by
      have hpos : 0 < maxImpactSeeds := by decide
      have hlt : maxImpactSeeds - 1 < paths.length := by omega
      refine ⟨paths.take (maxImpactSeeds - 1), paths[maxImpactSeeds - 1],
        paths.drop (maxImpactSeeds - 1 + 1), ?_, ?_⟩
      · rw [← drop_eq_getElem_cons hlt, take_append_drop]
      · rw [length_take_of_le hlt.le]
        omega
    have hkept : (firstOf (front ++ last :: back)).kept = front ++ [last] := by
      rw [firstOf, ← hfull, append_cons, ← length_singleton, ← length_append, take_left]
    rw [hkept] at hskip ⊢
    rw [if_neg (by rw [length_append, length_singleton]; omega), getLast?_concat,
      dropLast_concat]
    simp only [Option.any_some, decide_eq_true_eq, hskip.1, false_or]
    exact (add_full hfull h hskip.2).symm

theorem boundedImpactSeedPaths_eq (paths changedPaths : List String) :
    boundedImpactSeedPaths paths changedPaths =
      firstOf (canonicalPaths (paths ++ changedPaths)) := by
  rw [boundedImpactSeedPaths]
  generalize paths ++ changedPaths = raws
  induction raws using List.reverseRecOn with
  | nil =>
    have hnone : canonicalPaths [] = [] := rfl
    rfl
  | append_singleton raws raw ih =>
    rw [foldl_append, ih, foldl_cons, foldl_nil, canonicalPaths_concat]
    exact add_firstOf (canonicalPaths_increasing raws) raw

/-- The paths are the first of those given; their order and repetition do not matter. -/
theorem seed_paths_smallest (paths changedPaths : List String) :
    boundedImpactSeedPaths paths changedPaths =
      { kept := (canonicalPaths (paths ++ changedPaths)).take maxImpactSeeds
        overflow := maxImpactSeeds < (canonicalPaths (paths ++ changedPaths)).length } ∧
    ∀ paths' changedPaths' : List String,
      (∀ path, path ∈ paths' ++ changedPaths' ↔ path ∈ paths ++ changedPaths) →
      boundedImpactSeedPaths paths' changedPaths' = boundedImpactSeedPaths paths changedPaths := by
  refine ⟨boundedImpactSeedPaths_eq paths changedPaths, fun paths' changedPaths' h ↦ ?_⟩
  rw [boundedImpactSeedPaths_eq, boundedImpactSeedPaths_eq, canonicalPaths_congr h]

theorem repeated_seed_path :
    boundedImpactSeedPaths ["b.go", "a.go", "b.go"] [] =
      boundedImpactSeedPaths ["a.go"] ["b.go"] := by
  refine (seed_paths_smallest ["a.go"] ["b.go"]).2 ["b.go", "a.go", "b.go"] [] fun path ↦ ?_
  simp only [mem_append, mem_cons, not_mem_nil, or_false]
  exact ⟨fun h ↦ h.elim .inr id, fun h ↦ .inr h⟩

end MiLsp.Query
