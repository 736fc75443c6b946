import Mathlib.Data.List.Dedup
import Mathlib.Data.List.Sort

namespace MiLsp.Query

open List

structure SearchMatch where
  file : String
  line : ℕ
  text : String
deriving DecidableEq

def searchMatchLess (left right : SearchMatch) : Bool :=
  if left.file ≠ right.file then left.file < right.file else left.line < right.line

abbrev SearchTree := List (String × List String)

variable (pattern : String → Bool)

def fileMatches (entry : String × List String) : List SearchMatch :=
  (entry.2.zipIdx 1).filterMap fun line ↦
    if pattern line.1 then some ⟨entry.1, line.2, line.1⟩ else none

def SearchTree.matches (tree : SearchTree) : List SearchMatch :=
  tree.flatMap (fileMatches pattern)

def defaultSearchLimit : ℕ := 200

def searchLimit (limit : ℤ) : ℕ := if limit ≤ 0 then defaultSearchLimit else limit.toNat

def sortMatches (found : List SearchMatch) : List SearchMatch :=
  found.insertionSort fun a b ↦ searchMatchLess b a = false

/-- Ripgrep, or the walk in Go where there is none. -/
inductive Engine
  | ripgrep
  | fallback

def Engine.order : Engine → List SearchMatch → List SearchMatch
  | .ripgrep => sortMatches
  | .fallback => id

def searchPattern (engine : Engine) (pattern : String → Bool) (tree : SearchTree) (limit : ℤ) :
    List SearchMatch :=
  (engine.order (tree.matches pattern)).take (searchLimit limit)

def mergeOverlaySearchItems (items : List SearchMatch) (limit : ℤ) : List SearchMatch :=
  (sortMatches items.dedup).take (searchLimit limit)

def searchPatternPaths (engine : Engine) (pattern : String → Bool) (tree : SearchTree) (limit : ℤ) :
    List SearchMatch :=
  match engine with
  | .ripgrep => searchPattern .ripgrep pattern tree limit
  | .fallback =>
    mergeOverlaySearchItems (tree.flatMap fun entry ↦ searchPattern .fallback pattern [entry] limit)
      limit

def ignorePolicyChanged (paths : List String) : Bool :=
  paths.any fun path ↦
    String.ofList (path.toList.reverse.takeWhile (· ≠ '/')).reverse ∈
      [".gitignore", ".ignore", ".rgignore"]

/-- A base checkout, a linked worktree, and the paths in which they may differ. -/
structure WorktreeOverlay where
  base : SearchTree
  worktree : SearchTree
  changed : List String
  deleted : List String
  base_nodup : (base.map Prod.fst).Nodup
  worktree_nodup : (worktree.map Prod.fst).Nodup
  agree : ignorePolicyChanged (changed ++ deleted) = false →
    ∀ entry, entry.1 ∉ changed ++ deleted → (entry ∈ base ↔ entry ∈ worktree)

namespace WorktreeOverlay

variable (o : WorktreeOverlay) (engine : Engine) (pattern : String → Bool) (limit : ℤ)

def masked : List String := (o.changed ++ o.deleted).dedup

def delta : SearchTree :=
  o.worktree.filter fun entry ↦ entry.1 ∈ o.changed ∧ entry.1 ∉ o.deleted

def fetchLimit : ℤ := limit + o.masked.length * 8

def searchWorktreeOverlay : List SearchMatch :=
  if ignorePolicyChanged (o.changed ++ o.deleted) then
    searchPattern engine pattern o.worktree limit
  else
    let items := (searchPattern engine pattern o.base (o.fetchLimit limit)).filter fun item ↦
      item.file ∉ o.masked
    mergeOverlaySearchItems (items ++ searchPatternPaths engine pattern o.delta limit) limit

/-- A result that is not full has every match of the worktree once; none has one only in the base of
a changed or deleted file. -/
def Faithful : Prop :=
  ((o.searchWorktreeOverlay engine pattern limit).length < limit →
    (o.searchWorktreeOverlay engine pattern limit).Nodup ∧
      ∀ m ∈ o.worktree.matches pattern, m ∈ o.searchWorktreeOverlay engine pattern limit) ∧
  ∀ m ∈ o.searchWorktreeOverlay engine pattern limit, m.file ∈ o.masked →
    m ∈ o.worktree.matches pattern

def early : List SearchMatch :=
  ((engine.order (o.base.matches pattern)).take (o.fetchLimit limit).toNat).filter fun m ↦
    m.file ∉ o.masked

def late : List SearchMatch :=
  ((engine.order (o.base.matches pattern)).drop (o.fetchLimit limit).toNat).filter fun m ↦
    m.file ∉ o.masked

end WorktreeOverlay

section Matches

variable {pattern : String → Bool} {tree : SearchTree} {m : SearchMatch} {found : List SearchMatch}

theorem file_of_mem_fileMatches {entry : String × List String} (h : m ∈ fileMatches pattern entry) :
    m.file = entry.1 := by
  obtain ⟨line, -, hline⟩ := mem_filterMap.mp h
  split_ifs at hline
  cases hline
  rfl

theorem nodup_fileMatches (entry : String × List String) : (fileMatches pattern entry).Nodup := by
  have hlines : (entry.2.zipIdx 1).Nodup :=
    .of_map Prod.snd (by rw [zipIdx_map_snd]; exact nodup_range')
  refine List.Nodup.filterMap ?_ hlines
  rintro ⟨a, i⟩ ⟨b, j⟩ m ha hb
  simp only [Option.mem_def, Option.ite_none_right_eq_some, Option.some.injEq] at ha hb
  obtain ⟨-, rfl⟩ := ha
  cases hb.2
  rfl

theorem nodup_matches (h : (tree.map Prod.fst).Nodup) : (tree.matches pattern).Nodup := by
  refine nodup_flatMap.mpr ⟨fun entry _ ↦ nodup_fileMatches entry, ?_⟩
  refine (pairwise_map.mp h).imp fun hne m hm hm' ↦ hne ?_
  rw [← file_of_mem_fileMatches hm, file_of_mem_fileMatches hm']

theorem mem_sortMatches : m ∈ sortMatches found ↔ m ∈ found :=
  (perm_insertionSort _ _).mem_iff

theorem length_sortMatches (found : List SearchMatch) :
    (sortMatches found).length = found.length := length_insertionSort _ _

theorem nodup_sortMatches (h : found.Nodup) : (sortMatches found).Nodup :=
  (perm_insertionSort _ _).nodup_iff.mpr h

theorem perm_order (engine : Engine) (found : List SearchMatch) :
    (engine.order found).Perm found := by
  cases engine with
  | ripgrep => exact perm_insertionSort _ _
  | fallback => exact .refl _

theorem searchLimit_of_pos {limit : ℤ} (h : 0 < limit) : searchLimit limit = limit.toNat :=
  if_neg (by omega)

section Paths

variable {engine : Engine} {limit : ℤ}

theorem walked_sublist (limit : ℤ) (tree : SearchTree) :
    (tree.flatMap fun entry ↦ searchPattern .fallback pattern [entry] limit).Sublist
      (tree.matches pattern) := by
  induction tree with
  | nil => exact .slnil
  | cons entry tree ih =>
    have hfirst : (searchPattern .fallback pattern [entry] limit).Sublist
        (fileMatches pattern entry) := by
      rw [searchPattern, SearchTree.matches, flatMap_singleton]
      exact take_sublist _ _
    exact hfirst.append ih

theorem min_length_walked (limit : ℤ) (tree : SearchTree) :
    min (searchLimit limit)
        (tree.flatMap fun entry ↦ searchPattern .fallback pattern [entry] limit).length =
      min (searchLimit limit) (tree.matches pattern).length := by
  induction tree with
  | nil => rfl
  | cons entry tree ih =>
    have hfirst : (searchPattern .fallback pattern [entry] limit).length =
        min (searchLimit limit) (fileMatches pattern entry).length := by
      rw [searchPattern, SearchTree.matches, flatMap_singleton]
      exact length_take
    have hmatches : (SearchTree.matches pattern (entry :: tree)).length =
        (fileMatches pattern entry).length + (SearchTree.matches pattern tree).length :=
      length_append
    rw [flatMap_cons, length_append, hfirst, hmatches]
    omega

theorem mem_of_mem_searchPatternPaths (h : m ∈ searchPatternPaths engine pattern tree limit) :
    m ∈ tree.matches pattern := by
  cases engine with
  | ripgrep => exact mem_sortMatches.mp (mem_of_mem_take h)
  | fallback =>
    exact (walked_sublist limit tree).subset
      (mem_dedup.mp (mem_sortMatches.mp (mem_of_mem_take h)))

variable (htree : (tree.map Prod.fst).Nodup)
include htree

theorem nodup_searchPatternPaths : (searchPatternPaths engine pattern tree limit).Nodup := by
  cases engine with
  | ripgrep => exact (nodup_sortMatches (nodup_matches htree)).sublist (take_sublist _ _)
  | fallback => exact (nodup_sortMatches (nodup_dedup _)).sublist (take_sublist _ _)

theorem length_searchPatternPaths : (searchPatternPaths engine pattern tree limit).length =
    min (searchLimit limit) (tree.matches pattern).length := by
  cases engine with
  | ripgrep =>
    rw [searchPatternPaths, searchPattern, length_take]
    exact congrArg _ (length_sortMatches _)
  | fallback =>
    have hnodup := (@nodup_matches pattern tree htree).sublist (walked_sublist limit tree)
    rw [searchPatternPaths, mergeOverlaySearchItems, length_take, length_sortMatches,
      hnodup.dedup, min_length_walked]

theorem mem_searchPatternPaths (hle : (tree.matches pattern).length ≤ searchLimit limit) :
    m ∈ searchPatternPaths engine pattern tree limit ↔ m ∈ tree.matches pattern := by
  have hnodup := @nodup_searchPatternPaths pattern tree engine limit htree
  have hsub := subperm_of_subset hnodup fun m ↦ mem_of_mem_searchPatternPaths
  refine (hsub.perm_of_length_le ?_).mem_iff
  rw [length_searchPatternPaths htree]
  exact (min_eq_right hle).ge

end Paths

end Matches

namespace WorktreeOverlay

variable {o : WorktreeOverlay} {engine : Engine} {pattern : String → Bool} {limit : ℤ}
  {m : SearchMatch}

theorem mem_masked {file : String} : file ∈ o.masked ↔ file ∈ o.changed ++ o.deleted :=
  mem_dedup

theorem nodup_base : (engine.order (o.base.matches pattern)).Nodup :=
  (perm_order _ _).nodup_iff.mpr (nodup_matches o.base_nodup)

theorem mem_delta_matches : m ∈ o.delta.matches pattern ↔
    m ∈ o.worktree.matches pattern ∧ m.file ∈ o.changed ∧ m.file ∉ o.deleted := by
  simp only [SearchTree.matches, mem_flatMap, delta, mem_filter, decide_eq_true_eq]
  constructor
  · rintro ⟨entry, ⟨hentry, hfile⟩, hm⟩
    exact ⟨⟨entry, hentry, hm⟩, file_of_mem_fileMatches hm ▸ hfile⟩
  · rintro ⟨⟨entry, hentry, hm⟩, hfile⟩
    exact ⟨entry, ⟨hentry, file_of_mem_fileMatches hm ▸ hfile⟩, hm⟩

theorem delta_nodup (o : WorktreeOverlay) : (o.delta.map Prod.fst).Nodup :=
  o.worktree_nodup.sublist (filter_sublist.map _)

theorem mem_base_iff (hpolicy : ignorePolicyChanged (o.changed ++ o.deleted) = false)
    (hfile : m.file ∉ o.masked) : m ∈ o.base.matches pattern ↔ m ∈ o.worktree.matches pattern := by
  simp only [SearchTree.matches, mem_flatMap]
  refine exists_congr fun entry ↦ and_congr_left fun hm ↦ o.agree hpolicy entry ?_
  rwa [← file_of_mem_fileMatches hm, ← mem_masked]

theorem mem_early_or_late : m ∈ o.early engine pattern limit ∨ m ∈ o.late engine pattern limit ↔
    m ∈ o.base.matches pattern ∧ m.file ∉ o.masked := by
  rw [early, late, ← mem_append, ← filter_append, take_append_drop, mem_filter,
    (perm_order _ _).mem_iff, decide_eq_true_eq]

theorem not_mem_early_of_mem_late (h : m ∈ o.late engine pattern limit) :
    m ∉ o.early engine pattern limit := by
  have hnodup : (o.early engine pattern limit ++ o.late engine pattern limit).Nodup := by
    rw [early, late, ← filter_append, take_append_drop]
    exact nodup_base.filter _
  exact fun hearly ↦ (disjoint_of_nodup_append hnodup) hearly h

theorem sound (o : WorktreeOverlay) (h : m ∈ o.searchWorktreeOverlay engine pattern limit)
    (hfile : m.file ∈ o.masked) : m ∈ o.worktree.matches pattern := by
  rw [searchWorktreeOverlay] at h
  split_ifs at h
  · exact (perm_order _ _).mem_iff.mp (mem_of_mem_take h)
  · rcases mem_append.mp (mem_dedup.mp (mem_sortMatches.mp (mem_of_mem_take h)))
      with h | h
    · exact absurd hfile (by simpa using (mem_filter.mp h).2)
    · exact (mem_delta_matches.mp (mem_of_mem_searchPatternPaths h)).1

theorem nodup_kept :
    (o.early engine pattern limit ++ searchPatternPaths engine pattern o.delta limit).Nodup := by
  refine nodup_append'.mpr ⟨(nodup_base.sublist (take_sublist _ _)).filter _,
    nodup_searchPatternPaths o.delta_nodup, ?_⟩
  intro m hearly hdelta
  have hchanged := (mem_delta_matches.mp (mem_of_mem_searchPatternPaths hdelta)).2.1
  exact (mem_early_or_late.mp (.inl hearly)).2 (mem_masked.mpr (mem_append_left _ hchanged))

theorem searchWorktreeOverlay_eq (hpolicy : ignorePolicyChanged (o.changed ++ o.deleted) = false)
    (hlimit : 0 < limit) : o.searchWorktreeOverlay engine pattern limit =
      (sortMatches (o.early engine pattern limit ++
        searchPatternPaths engine pattern o.delta limit)).take limit.toNat := by
  have hfetch : searchLimit (o.fetchLimit limit) = (o.fetchLimit limit).toNat :=
    searchLimit_of_pos (by rw [fetchLimit]; omega)
  rw [searchWorktreeOverlay, hpolicy, if_neg (by simp), mergeOverlaySearchItems, searchPattern,
    hfetch, searchLimit_of_pos hlimit]
  exact congrArg (fun kept ↦ (sortMatches kept).take limit.toNat) nodup_kept.dedup

theorem fetched_all_iff (hpolicy : ignorePolicyChanged (o.changed ++ o.deleted) = false) :
    (∀ m ∈ o.worktree.matches pattern, m ∈ o.early engine pattern limit ∨
      m ∈ o.delta.matches pattern) ↔
      o.late engine pattern limit = [] ∧ ∀ m ∈ o.worktree.matches pattern, m.file ∉ o.deleted := by
  constructor
  · intro hall
    constructor
    · refine eq_nil_iff_forall_not_mem.mpr fun m hm ↦ ?_
      obtain ⟨hbase, hfile⟩ := mem_early_or_late.mp (.inr hm)
      rcases hall m ((mem_base_iff hpolicy hfile).mp hbase) with h | h
      · exact not_mem_early_of_mem_late hm h
      · exact hfile (mem_masked.mpr (mem_append_left _ (mem_delta_matches.mp h).2.1))
    · intro m hm hdeleted
      rcases hall m hm with h | h
      · exact (mem_early_or_late.mp (.inl h)).2 (mem_masked.mpr (mem_append_right _ hdeleted))
      · exact (mem_delta_matches.mp h).2.2 hdeleted
  · rintro ⟨hlate, hdeleted⟩ m hm
    by_cases hfile : m.file ∈ o.masked
    · have hchanged := (mem_append.mp (mem_masked.mp hfile)).resolve_right (hdeleted m hm)
      exact .inr (mem_delta_matches.mpr ⟨hm, hchanged, hdeleted m hm⟩)
    · rcases mem_early_or_late.mpr ⟨(mem_base_iff hpolicy hfile).mpr hm, hfile⟩ with h | h
      · exact .inl h
      · exact absurd h (by rw [hlate]; exact not_mem_nil)

def crowded : WorktreeOverlay where
  base := [("a", List.replicate 10 "x"), ("b", ["x"])]
  worktree := [("a", []), ("b", ["x"])]
  changed := ["a"]
  deleted := []
  base_nodup := by decide
  worktree_nodup := by decide
  agree _ entry h := by
    have hne : entry.1 ≠ "a" := by simpa using h
    simp [Prod.ext_iff, hne]

end WorktreeOverlay

end MiLsp.Query
