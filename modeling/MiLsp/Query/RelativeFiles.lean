import MiLsp.Library.Paths

namespace MiLsp.Query

open Library Paths List

def slashed (file : List Char) : List Char := file.map fun c ↦ if c = '\\' then '/' else c

def relSegments : List Segment → List Segment → Option (List Segment)
  | [], targ => some targ
  | b :: base, [] => if b = dotDot then none else some ((b :: base).map fun _ ↦ dotDot)
  | b :: base, t :: targ =>
    if b = t then relSegments base targ
    else if b = dotDot then none
    else some ((b :: base).map (fun _ ↦ dotDot) ++ t :: targ)

def rel (base targ : List Char) : Option (List Char) :=
  if clean targ = clean base then some dot
  else if isAbs base ≠ isAbs targ then none
  else
    let targSegments := if clean targ = dot then [dot] else segments targ
    (relSegments (segments base) targSegments).map ['/'].intercalate

def escapes (path : List Char) : Bool := path = dotDot ∨ (dotDot ++ ['/']).isPrefixOf path

variable (root file : List Char)

def qRelativeFile : Option (List Char) :=
  let file := slashed file
  if file = [] then some []
  else
    let inner :=
      if isAbs file then if root = [] then none else (rel root file).filter fun r ↦ !escapes r
      else some file
    (inner.map clean).filter fun file ↦ file ≠ dot ∧ ¬(dotDot ++ ['/']).isPrefixOf file

def revisionPath : Option (List Char) :=
  if root = [] then none
  else
    let path := clean (join root file)
    if (rel (clean root) path).any fun r ↦ !escapes r then some path else none

def multiReadPath : Option (List Char) :=
  let path := clean (if isAbs file then file else join root file)
  if (clean root ++ ['/']).isPrefixOf path ∨ path = clean root then some path else none

theorem relSegments_eq {base targ res : List Segment} (h : relSegments base targ = some res)
    (hfirst : res.head? ≠ some dotDot) : base ++ res = targ := by
  induction base generalizing targ with
  | nil => exact (Option.some.inj h).symm
  | cons b base ih =>
    cases targ with
    | nil =>
      rw [relSegments] at h
      split_ifs at h
      rw [Option.some.injEq] at h
      exact absurd (by rw [← h]; rfl) hfirst
    | cons t targ =>
      rw [relSegments] at h
      split_ifs at h with heq
      · rw [heq, cons_append, ih h]
      · rw [Option.some.injEq] at h
        exact absurd (by rw [← h]; rfl) hfirst

variable {segs : List Segment}

theorem escapes_of_head (h : segs.head? = some dotDot) :
    escapes (['/'].intercalate segs) = true := by
  cases segs with
  | nil => cases h
  | cons seg rest =>
    rw [head?_cons, Option.some.injEq] at h
    subst h
    cases rest with
    | nil => rfl
    | cons t rest => simp [escapes, intercalate_cons_cons]

theorem render_eq (hne : segs ≠ []) : render false segs = ['/'].intercalate segs := by
  rw [render, if_neg (by simp), if_neg hne]

section Accepted

variable {root file r : List Char}

/-- A path of proper elements below the root, from those of the file. -/
def Below (file rel : List Char) : Prop :=
  ∃ segs, segs ≠ [] ∧ Reduced true segs ∧ segs <:+ segments (slashed file) ∧
    rel = render false segs

theorem below_of_abs (habs : isAbs (slashed file) = true) (h : rel root (slashed file) = some r)
    (hescapes : escapes r = false) (hdot : clean r ≠ dot) : Below file (clean r) := by
  have htarg : clean (slashed file) ≠ dot := by
    intro hdot
    have hclean := isAbs_clean (slashed file)
    rw [hdot, habs] at hclean
    cases hclean
  rw [Query.rel, if_neg htarg] at h
  split_ifs at h
  · rw [← Option.some.inj h] at hdot
    exact absurd (by decide) hdot
  · have hnormal := reduced_segments (slashed file)
    obtain ⟨segs, hsegs, rfl⟩ := Option.map_eq_some_iff.mp h
    have hfirst : segs.head? ≠ some dotDot := by
      intro hfirst
      rw [escapes_of_head hfirst] at hescapes
      cases hescapes
    have hsuffix : segs <:+ segments (slashed file) := ⟨_, relSegments_eq hsegs hfirst⟩
    have hinner : Reduced true segs := (hnormal.suffix hsuffix).inner hfirst
    by_cases hne : segs = []
    · subst hne
      exact absurd (by decide) hdot
    · refine ⟨segs, hne, hinner, hsuffix, ?_⟩
      rw [← render_eq hne, (hinner.any false).clean_render]

theorem below_of_relative (habs : isAbs (slashed file) = false) (hdot : clean (slashed file) ≠ dot)
    (hescapes : escapes (clean (slashed file)) = false) : Below file (clean (slashed file)) := by
  have hnormal := reduced_segments (slashed file)
  rw [clean_eq_render, habs] at hdot hescapes ⊢
  have hne : segments (slashed file) ≠ [] := by
    intro hnil
    rw [hnil] at hdot
    exact hdot rfl
  refine ⟨segments (slashed file), hne, hnormal.inner fun hfirst ↦ ?_, suffix_rfl, rfl⟩
  rw [render_eq hne, escapes_of_head hfirst] at hescapes
  cases hescapes

theorem qRelativeFile_cases (h : qRelativeFile root file = some r) :
    r = [] ∨ isAbs (slashed file) = false ∧ clean (slashed file) = dotDot ∧ r = dotDot ∨
      Below file r := by
  rw [qRelativeFile] at h
  split_ifs at h with hnil habs hroot
  · exact .inl (Option.some.inj h).symm
  · cases h
  · right; right
    obtain ⟨hsome, hkeep⟩ := Option.filter_eq_some_iff.mp h
    obtain ⟨inner, hinner, rfl⟩ := Option.map_eq_some_iff.mp hsome
    obtain ⟨hrel, hescapes⟩ := Option.filter_eq_some_iff.mp hinner
    simp only [decide_eq_true_eq] at hkeep
    exact below_of_abs habs hrel (by simpa using hescapes) hkeep.1
  · right
    obtain ⟨hsome, hkeep⟩ := Option.filter_eq_some_iff.mp h
    rw [Option.map_some, Option.some.injEq] at hsome
    subst hsome
    simp only [decide_eq_true_eq] at hkeep
    rw [Bool.not_eq_true] at habs
    by_cases hdots : clean (slashed file) = dotDot
    · exact .inl ⟨habs, hdots, hdots⟩
    · refine .inr (below_of_relative habs hkeep.1 ?_)
      simp [escapes, hdots, hkeep.2]

theorem qRelativeFile_parent (habs : isAbs (slashed file) = false)
    (hdots : clean (slashed file) = dotDot) : qRelativeFile root file = some dotDot := by
  have hne : slashed file ≠ [] := by
    intro hnil
    rw [hnil] at hdots
    cases hdots
  rw [qRelativeFile]
  simp only [if_neg hne, habs, Bool.false_eq_true, if_false, Option.map_some, hdots]
  rfl

end Accepted

section Confined

variable {root file rel : List Char}

theorem backslash_notMem_slashed (file : List Char) : '\\' ∉ slashed file := by
  intro h
  obtain ⟨c, -, hc⟩ := mem_map.mp h
  split_ifs at hc with hback
  · cases hc
  · exact hback hc

theorem join_below {segs : List Segment} (hne : segs ≠ []) (h : Reduced true segs) :
    join root (render false segs) = render (isAbs root) (segments root ++ segs) ∧
      isAbs (join root (render false segs)) = isAbs root ∧
      segments (join root (render false segs)) = segments root ++ segs := by
  have hrel : render false segs ≠ [] := by
    intro hnil
    have hsegs := (h.any false).segments_render
    rw [hnil] at hsegs
    exact hne hsegs.symm
  obtain ⟨hjoin, hparts⟩ := @join_eq root _ hrel
  obtain ⟨habs, hsegs⟩ := hparts (h.any false).isAbs_render
  rw [render_eq hne, splitOn_intercalate '/' h.noSlash hne, ← render_eq hne,
    (h.any (isAbs root)).foldl fun hmem ↦ absurd hmem (h.rooted rfl), reverse_append,
    reverse_reverse, reverse_reverse] at hsegs
  rw [habs, hsegs] at hjoin
  exact ⟨hjoin, habs, hsegs⟩

theorem join_nil (root : List Char) :
    Inside root (join root []) ∧ (root ≠ [] → clean (join root []) = join root []) := by
  by_cases hroot : root = []
  · subst hroot
    exact ⟨⟨rfl, [], by simp [join], by simp⟩, fun h ↦ absurd rfl h⟩
  · rw [join, if_neg hroot, if_pos rfl]
    refine ⟨⟨isAbs_clean root, [], ?_, by simp⟩, fun _ ↦ (reduced_segments root).clean_render⟩
    rw [segments_clean, append_nil]

theorem inside_parent_iff (root : List Char) :
    Inside root (join root dotDot) ↔ clean root = ['/'] := by
  obtain ⟨-, hparts⟩ := @join_eq root dotDot (by decide)
  obtain ⟨habs, hsegs⟩ := hparts rfl
  rw [Inside, habs, hsegs, clean_eq_render, and_iff_right rfl,
    show dotDot.splitOn '/' = [dotDot] from rfl, foldl_cons, foldl_nil]
  have hrender := (reduced_segments root).segments_render
  generalize segments root = segs at *
  rcases eq_nil_or_concat segs with rfl | ⟨front, last, rfl⟩
  · cases isAbs root
    · simp [pushSegment, dotDot, dot, render]
    · simp [pushSegment, dotDot, dot, render]
  · rw [concat_eq_append] at *
    refine iff_of_false ?_ fun hroot ↦ ?_
    · rintro ⟨rest, hrest, hdots⟩
      rw [reverse_append, reverse_singleton, singleton_append, pushSegment.eq_def] at hrest
      simp only [if_neg (show ¬(dotDot = [] ∨ dotDot = dot) by decide), if_pos] at hrest
      split_ifs at hrest with hlast
      · rw [reverse_cons, reverse_cons, reverse_reverse, append_cancel_left_eq] at hrest
        exact hdots (by simp [← hrest])
      · have hlength := congrArg List.length hrest
        simp at hlength
    · rw [hroot] at hrender
      exact absurd hrender.symm (by simp [show segments ['/'] = [] from rfl])

/-- Relative, with slashes, and below the root, also where the stages open it. -/
structure StaysInside (root rel : List Char) : Prop where
  relative : isAbs rel = false
  slashes : '\\' ∉ rel
  cleaned : root ≠ [] ∨ rel ≠ [] → clean (join root rel) = join root rel
  inside : Inside root (join root rel)
  revision : ∀ path, revisionPath root rel = some path → Inside root path
  read : ∀ path, multiReadPath root rel = some path → Inside root path

theorem staysInside_of_inside (hrelative : isAbs rel = false) (hslashes : '\\' ∉ rel)
    (hcleaned : root ≠ [] ∨ rel ≠ [] → clean (join root rel) = join root rel)
    (hinside : Inside root (join root rel)) : StaysInside root rel := by
  refine ⟨hrelative, hslashes, hcleaned, hinside, fun path h ↦ ?_, fun path h ↦ ?_⟩
  · rw [revisionPath] at h
    dsimp only at h
    split_ifs at h
    rw [← Option.some.inj h]
    exact inside_clean hinside
  · rw [multiReadPath] at h
    simp only [hrelative, Bool.false_eq_true, if_false] at h
    split_ifs at h
    rw [← Option.some.inj h]
    exact inside_clean hinside

theorem staysInside_below (h : Below file rel) : StaysInside root rel := by
  obtain ⟨segs, hne, hnormal, hsuffix, rfl⟩ := h
  obtain ⟨hjoin, habs, hsegs⟩ := @join_below root segs hne hnormal
  have hall := (reduced_segments root).append hnormal
  refine staysInside_of_inside (hnormal.any false).isAbs_render ?_ (fun _ ↦ ?_)
    ⟨habs, segs, hsegs, hnormal.rooted rfl⟩
  · rw [render_eq hne, mem_intercalate_iff (by decide)]
    rintro ⟨seg, hseg, hback⟩
    have hgiven := (cleanSegments_kept _ _).given seg (mem_reverse.mpr (hsuffix.mem hseg))
    have hsplit : ['/'].intercalate ((slashed file).splitOn '/') = slashed file :=
      intercalate_splitOn '/'
    refine backslash_notMem_slashed file ?_
    rw [← hsplit, mem_intercalate_iff (by decide)]
    exact ⟨seg, hgiven, hback⟩
  · rw [hjoin, hall.clean_render]

/-- Every accepted path stays inside, unless the file is a relative path to the root's parent. -/
theorem qRelativeFile_inside_iff (root file : List Char) :
    (∀ rel, qRelativeFile root file = some rel → StaysInside root rel) ↔
      isAbs (slashed file) = true ∨ clean (slashed file) ≠ dotDot ∨ clean root = ['/'] := by
  constructor
  · intro h
    by_contra hnot
    push Not at hnot
    obtain ⟨habs, hdots, hroot⟩ := hnot
    have hparent := h dotDot (qRelativeFile_parent (by simpa using habs) hdots)
    exact hroot ((inside_parent_iff root).mp hparent.inside)
  · intro hcond r hr
    rcases qRelativeFile_cases hr with rfl | ⟨habs, hdots, rfl⟩ | hbelow
    · obtain ⟨hinside, hclean⟩ := join_nil root
      exact staysInside_of_inside rfl (by simp) (fun h ↦ hclean (h.resolve_right (by simp))) hinside
    · have hroot : clean root = ['/'] := by
        rcases hcond with h | h | h
        · rw [habs] at h
          cases h
        · exact absurd hdots h
        · exact h
      refine staysInside_of_inside rfl (by decide) (fun _ ↦ ?_) ((inside_parent_iff root).mpr hroot)
      obtain ⟨hjoin, -⟩ := @join_eq root dotDot (by decide)
      rw [hjoin]
      exact (reduced_segments _).clean_render
    · exact staysInside_below hbelow

theorem parent_accepted :
    qRelativeFile "/repo".toList "docs/../..".toList = some "..".toList ∧
      ¬Inside "/repo".toList (join "/repo".toList "..".toList) := by
  refine ⟨by decide +kernel, fun h ↦ ?_⟩
  exact absurd ((inside_parent_iff _).mp h) (by decide +kernel)

theorem file_inside :
    ∀ rel, qRelativeFile "/repo".toList "/repo/a\\..\\..b/c".toList = some rel →
      StaysInside "/repo".toList rel :=
  (qRelativeFile_inside_iff _ _).mpr (.inl (by decide +kernel))

end Confined

end MiLsp.Query
