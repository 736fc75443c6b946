import Mathlib.Data.List.Basic
import Mathlib.Data.List.Pairwise
import Mathlib.Tactic.SplitIfs

namespace MiLsp.Library

open List

theorem mem_intercalate_iff {α : Type} {b c : α} {parts : List (List α)} (hb : b ≠ c) :
    b ∈ [c].intercalate parts ↔ ∃ part ∈ parts, b ∈ part := by
  induction parts with
  | nil => simp
  | cons part parts ih =>
    cases parts with
    | nil => simp
    | cons next parts =>
      rw [intercalate_cons_cons, append_assoc, mem_append, mem_append, mem_singleton, ih]
      simp [hb]

theorem notMem_of_mem_splitOn {α : Type} [DecidableEq α] {sep : α} {s part : List α}
    (h : part ∈ s.splitOn sep) : sep ∉ part := by
  induction s generalizing part with
  | nil =>
    rw [splitOn_eq_singleton (by simp), mem_singleton] at h
    simp [h]
  | cons c s ih =>
    rw [splitOn_cons_eq_if_modifyHead] at h
    split at h
    · rcases mem_cons.mp h with rfl | h
      · simp
      · exact ih h
    next hc =>
      cases hsplit : s.splitOn sep with
      | nil => simp [hsplit] at h
      | cons first rest =>
        rw [hsplit, modifyHead_cons] at h
        rcases mem_cons.mp h with rfl | h
        · have hfirst : sep ∉ first := ih (by simp [hsplit])
          simpa [hfirst] using fun hsep ↦ hc (by simp [← hsep])
        · exact ih (by simp [hsplit, h])

namespace Paths

abbrev Segment := List Char

def dot : Segment := ['.']

def dotDot : Segment := ['.', '.']

def pushSegment (rooted : Bool) (stack : List Segment) (seg : Segment) : List Segment :=
  if seg = [] ∨ seg = dot then stack
  else if seg = dotDot then
    match stack with
    | [] => if rooted then [] else [dotDot]
    | top :: rest => if top = dotDot then dotDot :: top :: rest else rest
  else seg :: stack

def cleanSegments (rooted : Bool) (segs : List Segment) : List Segment :=
  (segs.foldl (pushSegment rooted) []).reverse

variable (path : List Char)

def isAbs : Bool := path.head? = some '/'

def clean : List Char :=
  let segs := cleanSegments (isAbs path) (path.splitOn '/')
  if isAbs path then '/' :: ['/'].intercalate segs
  else if segs = [] then dot
  else ['/'].intercalate segs

def join (dir path : List Char) : List Char :=
  if dir = [] then if path = [] then [] else clean path
  else if path = [] then clean dir
  else clean (dir ++ '/' :: path)

def dir : List Char := clean (path.reverse.dropWhile (· ≠ '/')).reverse

def below? (root path : List Char) : Option (List Char) :=
  if (root ++ ['/']).isPrefixOf path then some (path.drop (root.length + 1)) else none

/-- No kept element is empty or a dot, each was given, and a double dot has only double dots below
it. -/
structure Kept (segs stack : List Segment) : Prop where
  proper : ∀ seg ∈ stack, seg ≠ [] ∧ seg ≠ dot
  given : ∀ seg ∈ stack, seg ∈ segs
  dots : stack.Pairwise fun upper lower ↦ upper = dotDot → lower = dotDot

variable {segs stack : List Segment} {seg : Segment} {rooted : Bool} {path : List Char}

theorem Kept.cons (h : Kept segs stack) (hproper : seg ≠ [] ∧ seg ≠ dot) (hseg : seg ∈ segs)
    (hdots : seg = dotDot → ∀ lower ∈ stack, lower = dotDot) : Kept segs (seg :: stack) := by
  refine ⟨?_, ?_, pairwise_cons.mpr ⟨fun lower hl hs ↦ hdots hs lower hl, h.dots⟩⟩
  · intro s hs
    rcases mem_cons.mp hs with rfl | hs
    · exact hproper
    · exact h.proper s hs
  · intro s hs
    rcases mem_cons.mp hs with rfl | hs
    · exact hseg
    · exact h.given s hs

theorem Kept.tail {top : Segment} (h : Kept segs (top :: stack)) : Kept segs stack :=
  ⟨fun s hs ↦ h.proper s (mem_cons_of_mem top hs),
    fun s hs ↦ h.given s (mem_cons_of_mem top hs), (pairwise_cons.mp h.dots).2⟩

theorem Kept.pushSegment
    (h : Kept segs stack) (hseg : seg ∈ segs) : Kept segs (pushSegment rooted stack seg) := by
  unfold Paths.pushSegment
  split
  · exact h
  next hproper =>
    rw [not_or] at hproper
    split
    next hdots =>
      subst hdots
      cases stack with
      | nil =>
        cases rooted with
        | true => exact h
        | false => exact h.cons hproper hseg (by simp)
      | cons top rest =>
        dsimp only
        split
        next htop =>
          refine h.cons hproper hseg fun _ lower hl ↦ ?_
          rcases mem_cons.mp hl with rfl | hl
          · exact htop
          · exact (pairwise_cons.mp h.dots).1 lower hl htop
        · exact h.tail
    next hdots => exact h.cons hproper hseg fun hs ↦ absurd hs hdots

theorem kept_foldl (l : List Segment) (hl : ∀ seg ∈ l, seg ∈ segs) (h : Kept segs stack) :
    Kept segs (l.foldl (pushSegment rooted) stack) :=
  foldlRecOn l _ h fun _ h seg hseg ↦ h.pushSegment (hl seg hseg)

theorem cleanSegments_kept (rooted : Bool) (segs : List Segment) :
    Kept segs (cleanSegments rooted segs).reverse := by
  rw [cleanSegments, reverse_reverse]
  exact kept_foldl segs (fun _ h ↦ h) ⟨by simp, by simp, List.Pairwise.nil⟩

theorem below?_eq_some {root rel : List Char} (h : below? root path = some rel) :
    path = root ++ '/' :: rel := by
  unfold below? at h
  split at h
  next hpre =>
    obtain ⟨rest, hrest⟩ := isPrefixOf_iff_prefix.mp hpre
    rw [← hrest, Option.some.injEq] at h
    have hlen : root.length + 1 = (root ++ ['/']).length := by simp
    rw [hlen, drop_left] at h
    rw [← hrest, h]
    simp
  · cases h

section Reduced

variable (path : List Char)

def segments : List Segment :=
  cleanSegments (isAbs path) (path.splitOn '/')

def render (rooted : Bool) (segs : List Segment) : List Char :=
  if rooted then '/' :: ['/'].intercalate segs
  else if segs = [] then dot
  else ['/'].intercalate segs

theorem clean_eq_render : clean path = render (isAbs path) (segments path) := rfl

/-- The elements of a clean path: double dots stand only at the front of a relative one. -/
structure Reduced (rooted : Bool) (segs : List Segment) : Prop where
  proper : ∀ seg ∈ segs, seg ≠ [] ∧ seg ≠ dot
  noSlash : ∀ seg ∈ segs, '/' ∉ seg
  dots : segs.Pairwise fun former latter ↦ latter = dotDot → former = dotDot
  rooted : rooted = true → dotDot ∉ segs

theorem dotDot_notMem_foldl (l : List Segment) {stack : List Segment} (h : dotDot ∉ stack) :
    dotDot ∉ l.foldl (pushSegment true) stack := by
  refine foldlRecOn (motive := (dotDot ∉ ·)) l _ h fun stack h seg _ ↦ ?_
  rw [pushSegment.eq_def]
  by_cases hskip : seg = [] ∨ seg = dot
  · rwa [if_pos hskip]
  rw [if_neg hskip]
  by_cases hdots : seg = dotDot
  · rw [if_pos hdots]
    cases stack with
    | nil => exact h
    | cons top rest =>
      dsimp only
      rw [mem_cons, not_or] at h
      rw [if_neg (Ne.symm h.1)]
      exact h.2
  · rw [if_neg hdots, mem_cons, not_or]
    exact ⟨Ne.symm hdots, h⟩

theorem reduced_segments : Reduced (isAbs path) (segments path) := by
  have hkept := cleanSegments_kept (isAbs path) (path.splitOn '/')
  refine ⟨fun seg h ↦ hkept.proper seg (mem_reverse.mpr h),
    fun seg h ↦ notMem_of_mem_splitOn (hkept.given seg (mem_reverse.mpr h)),
    pairwise_reverse.mp hkept.dots, ?_⟩
  intro hrooted
  rw [segments, hrooted, cleanSegments, mem_reverse]
  exact dotDot_notMem_foldl _ (by simp)

variable {rooted : Bool} {segs : List Segment}

section

variable (h : Reduced rooted segs) {rest : List Segment}
include h

theorem Reduced.foldl {stack : List Segment}
    (hstack : dotDot ∈ segs → ∀ seg ∈ stack, seg = dotDot) :
    segs.foldl (pushSegment rooted) stack = segs.reverse ++ stack := by
  induction segs generalizing stack with
  | nil => rfl
  | cons seg segs ih =>
    obtain ⟨hhead, htail⟩ := pairwise_cons.mp h.dots
    have hrest : Reduced rooted segs :=
      ⟨fun s hs ↦ h.proper s (mem_cons_of_mem _ hs),
        fun s hs ↦ h.noSlash s (mem_cons_of_mem _ hs), htail,
        fun hr hmem ↦ h.rooted hr (mem_cons_of_mem _ hmem)⟩
    obtain ⟨hnil, hdot⟩ := h.proper seg mem_cons_self
    have hpush : pushSegment rooted stack seg = seg :: stack := by
      rw [pushSegment.eq_def, if_neg (by simp [hnil, hdot])]
      by_cases hdots : seg = dotDot
      · subst hdots
        cases stack with
        | nil =>
          cases rooted with
          | false => rfl
          | true => exact absurd mem_cons_self (h.rooted rfl)
        | cons top rest =>
          have htop := hstack mem_cons_self top mem_cons_self
          simp [htop]
      · rw [if_neg hdots]
    rw [foldl_cons, hpush, ih hrest]
    · simp
    · intro hmem s hs
      rcases mem_cons.mp hs with rfl | hs
      · exact hhead dotDot hmem rfl
      · exact hstack (mem_cons_of_mem _ hmem) s hs

theorem Reduced.cleanSegments_eq : cleanSegments rooted segs = segs := by
  rw [cleanSegments, h.foldl (by simp), append_nil, reverse_reverse]

theorem Reduced.isAbs_render : isAbs (render rooted segs) = rooted := by
  rw [render]
  cases rooted with
  | true => rfl
  | false =>
    cases segs with
    | nil => rfl
    | cons seg segs =>
      obtain ⟨c, rest, rfl⟩ := exists_cons_of_ne_nil (h.proper seg mem_cons_self).1
      have hslash := h.noSlash _ mem_cons_self
      have hc : c ≠ '/' := fun hc ↦ hslash (by simp [hc])
      cases segs <;> simp [isAbs, intercalate_cons_cons, hc]

theorem Reduced.splitOn_render (hne : segs ≠ []) :
    (render rooted segs).splitOn '/' = if rooted then [] :: segs else segs := by
  have hsplit := splitOn_intercalate '/' h.noSlash hne
  rw [render]
  cases rooted with
  | true =>
    rw [if_pos rfl, if_pos rfl, splitOn_cons_eq_if_modifyHead, if_pos (by simp), hsplit]
  | false => rw [if_neg (by simp), if_neg hne, hsplit, if_neg (by simp)]

theorem Reduced.segments_render : segments (render rooted segs) = segs := by
  by_cases hne : segs = []
  · subst hne
    cases rooted <;> decide
  · rw [segments, h.isAbs_render, h.splitOn_render hne]
    split_ifs <;> exact h.cleanSegments_eq

theorem Reduced.clean_render : clean (render rooted segs) = render rooted segs := by
  rw [clean_eq_render, h.isAbs_render, h.segments_render]

theorem Reduced.append (hrest : Reduced true rest) : Reduced rooted (segs ++ rest) := by
  refine ⟨fun s hs ↦ ?_, fun s hs ↦ ?_, ?_, fun hr hmem ↦ ?_⟩
  · exact (mem_append.mp hs).elim (h.proper s) (hrest.proper s)
  · exact (mem_append.mp hs).elim (h.noSlash s) (hrest.noSlash s)
  · refine pairwise_append.mpr ⟨h.dots, hrest.dots, fun _ _ b hb hdots ↦ ?_⟩
    exact absurd (hdots ▸ hb) (hrest.rooted rfl)
  · exact (mem_append.mp hmem).elim (h.rooted hr) (hrest.rooted rfl)

theorem Reduced.suffix (hrest : rest <:+ segs) : Reduced rooted rest :=
  ⟨fun s hs ↦ h.proper s (hrest.mem hs), fun s hs ↦ h.noSlash s (hrest.mem hs),
    List.Pairwise.sublist hrest.sublist h.dots, fun hr hmem ↦ h.rooted hr (hrest.mem hmem)⟩

theorem Reduced.inner (hfirst : segs.head? ≠ some dotDot) : Reduced true segs := by
  refine ⟨h.proper, h.noSlash, h.dots, fun _ hmem ↦ ?_⟩
  cases segs with
  | nil => cases hmem
  | cons seg segs =>
    refine hfirst (congrArg some ?_)
    rcases mem_cons.mp hmem with heq | hmem
    · exact heq.symm
    · exact (pairwise_cons.mp h.dots).1 dotDot hmem rfl

end

theorem Reduced.any (h : Reduced true segs) (rooted : Bool) : Reduced rooted segs :=
  ⟨h.proper, h.noSlash, h.dots, fun _ ↦ h.rooted rfl⟩

def Inside (root path : List Char) : Prop :=
  isAbs path = isAbs root ∧ ∃ rest, segments path = segments root ++ rest ∧ dotDot ∉ rest

variable (path : List Char)

theorem segments_clean : segments (clean path) = segments path :=
  (reduced_segments path).segments_render

theorem isAbs_clean : isAbs (clean path) = isAbs path :=
  (reduced_segments path).isAbs_render

theorem clean_clean : clean (clean path) = clean path :=
  (reduced_segments path).clean_render

theorem isAbs_join {dir : List Char} (h : isAbs dir = true) (path : List Char) :
    isAbs (join dir path) = true := by
  have hne : dir ≠ [] := by
    rintro rfl
    cases h
  rw [join, if_neg hne]
  split_ifs
  · rwa [isAbs_clean]
  · obtain ⟨c, rest, rfl⟩ := exists_cons_of_ne_nil hne
    rwa [isAbs_clean]

theorem inside_clean {root path : List Char} (h : Inside root path) : Inside root (clean path) := by
  rwa [Inside, isAbs_clean, segments_clean]

theorem join_eq {root rel : List Char} (hrel : rel ≠ []) :
    join root rel = render (isAbs (join root rel)) (segments (join root rel)) ∧
      (isAbs rel = false → isAbs (join root rel) = isAbs root ∧
        segments (join root rel) =
          ((rel.splitOn '/').foldl (pushSegment (isAbs root))
            (segments root).reverse).reverse) := by
  have hclean : ∃ path, join root rel = clean path ∧ (isAbs rel = false → isAbs path = isAbs root ∧
      segments path = ((rel.splitOn '/').foldl (pushSegment (isAbs root))
        (segments root).reverse).reverse) := by
    rw [join]
    split_ifs with hroot
    · refine ⟨rel, rfl, fun habs ↦ ?_⟩
      subst hroot
      exact ⟨habs, by rw [segments, habs]; rfl⟩
    · refine ⟨root ++ '/' :: rel, rfl, fun _ ↦ ?_⟩
      obtain ⟨c, rest, rfl⟩ := exists_cons_of_ne_nil hroot
      refine ⟨rfl, ?_⟩
      rw [segments, splitOn_append_cons_self, cleanSegments, foldl_append, segments,
        cleanSegments, reverse_reverse]
      rfl
  obtain ⟨path, hpath, hsegs⟩ := hclean
  rw [hpath, isAbs_clean, segments_clean]
  exact ⟨clean_eq_render path, hsegs⟩

theorem clean_ne_nil : clean path ≠ [] := by
  intro h
  have hnil : segments path = [] := by
    rw [← segments_clean, h]
    decide
  rw [clean_eq_render, hnil] at h
  revert h
  cases isAbs path <;> decide

variable {path}

theorem clean_below {root rel : List Char} (hroot : root ≠ [])
    (hbelow : clean path = root ++ '/' :: rel) (hdots : ¬dotDot.isPrefixOf rel) :
    clean rel = rel := by
  have h := reduced_segments path
  have hne : segments path ≠ [] := by
    intro hnil
    obtain ⟨c, rest, rfl⟩ := exists_cons_of_ne_nil hroot
    rw [clean_eq_render, hnil, render] at hbelow
    split_ifs at hbelow <;> simp [dot] at hbelow
  have hsplit := h.splitOn_render hne
  rw [← clean_eq_render, hbelow, splitOn_append_cons_self] at hsplit
  have hsuffix : rel.splitOn '/' <:+ segments path := by
    split_ifs at hsplit
    · obtain ⟨s, rest, hs⟩ := exists_cons_of_ne_nil (splitOn_ne_nil '/' root)
      rw [hs, cons_append] at hsplit
      exact ⟨rest, (List.cons.inj hsplit).2⟩
    · exact ⟨_, hsplit⟩
  have hrel : render false (rel.splitOn '/') = rel := by
    rw [render, if_neg (by simp), if_neg (splitOn_ne_nil '/' rel), intercalate_splitOn]
  have hfirst : (rel.splitOn '/').head? ≠ some dotDot := by
    intro hhead
    obtain ⟨rest, hs⟩ := head?_eq_some_iff.mp hhead
    refine hdots ?_
    rw [← hrel, hs]
    cases rest <;> simp [render, dotDot, intercalate_cons_cons]
  have hclean := (((h.suffix hsuffix).inner hfirst).any false).clean_render
  rwa [hrel] at hclean

end Reduced

end Paths

end MiLsp.Library
