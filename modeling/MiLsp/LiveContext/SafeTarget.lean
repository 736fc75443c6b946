import MiLsp.EditPlan.PhysicalGuard
import MiLsp.Query.RelativeFiles

namespace MiLsp.LiveContext

open Library Attempt Strings Trees List
open Library.Paths hiding render
open EditPlan (linkLimit evalLimit)
open Query (slashed rel escapes escapes_of_head join_below relSegments relSegments_eq render_eq)

def Improper (part : Segment) : Prop := part = [] ∨ part = dot ∨ part = dotDot

instance (part : Segment) : Decidable (Improper part) := inferInstanceAs (Decidable (_ ∨ _))

def drive : List Char → Bool
  | c :: d :: _ => c.utf8Size = 1 ∧ d = ':'
  | _ => false

def validRepoRelativeTarget (targetPath : String) : Bool :=
  let normalized := slashed (trimSpace targetPath).toList
  if normalized = [] ∨ '\x00' ∈ normalized ∨ '\r' ∈ normalized ∨ '\n' ∈ normalized then false
  else if isAbs normalized ∨ ['~', '/'].isPrefixOf normalized ∨ normalized = ['~'] then false
  else if drive normalized then false
  else (normalized.splitOn '/').all fun part ↦ ¬Improper part

def pathInside (root target : List Char) : Bool :=
  (rel (clean root) (clean target)).any fun r ↦ !escapes r && !isAbs r

section Model

variable (tree : Tree)

def lstat (path : List Char) : Except WalkError Node := do
  let segs := path.splitOn '/'
  let place ← walk tree linkLimit [] segs.dropLast
  let last := segs.getLast?.getD []
  if tree.node place ≠ some .dir then .error .notDir
  else if Plain last then orElse .notExist (tree.node (place ++ [last]))
  else .ok .dir

/-- The loop over the components. What is missing is not looked at any further. -/
def descend (realRoot : List Char) : List Char → List Segment → Option (List Char)
  | current, [] => some current
  | current, part :: rest =>
    if Improper part then none
    else
      let candidate := join current part
      match lstat tree candidate with
      | .error .notExist => some (join candidate (['/'].intercalate rest))
      | .error _ => none
      | .ok (.link _) =>
        match resolve tree evalLimit candidate with
        | .error _ => none
        | .ok physical =>
          if pathInside realRoot (render physical) then
            descend realRoot (clean (render physical)) rest
          else none
      | .ok _ => descend realRoot candidate rest

def presentedRoot (cwd : Place) (workspaceRoot : String) : List Char :=
  let root := (trimSpace workspaceRoot).toList
  clean (if isAbs root then clean root else join (render cwd) root)

def safeResolveTarget (cwd : Place) (workspaceRoot targetPath : String) : Option (List Char) :=
  let root := presentedRoot cwd workspaceRoot
  let target := slashed targetPath.toList
  if ¬validRepoRelativeTarget targetPath then none
  else if (lstat tree root).toOption ≠ some .dir then none
  else match resolve tree evalLimit root with
    | .error _ => none
    | .ok place =>
      let realRoot := clean (render place)
      if ¬pathInside realRoot (clean (join realRoot target)) then none
      else
        ((descend tree realRoot realRoot (target.splitOn '/')).filter (pathInside realRoot)).map
          clean

end Model

section Parts

variable {c : Char}

theorem proper_of_space {part : Segment} (hc : isSpace c = true) (hmem : c ∈ part) :
    ¬Improper part := by
  rintro (rfl | rfl | rfl)
  · cases hmem
  all_goals
    have hdot : c = '.' := by simpa [dot, dotDot] using hmem
    subst hdot
    cases hc

theorem slashed_space (hc : isSpace c = true) :
    (if c = '\\' then '/' else c) = c ∧ ¬(c == '/') = true := by
  constructor
  · rw [if_neg]
    rintro rfl
    cases hc
  · rw [beq_iff_eq]
    rintro rfl
    cases hc

theorem splitOn_concat (hc : ¬(c == '/') = true) (s : List Char) :
    ∃ front last, s.splitOn '/' = front ++ [last] ∧
      (s ++ [c]).splitOn '/' = front ++ [last ++ [c]] := by
  induction s with
  | nil => exact ⟨[], [], rfl, by rw [nil_append, splitOn_cons_eq_if_modifyHead, if_neg hc]; rfl⟩
  | cons d s ih =>
    obtain ⟨front, last, hs, hsc⟩ := ih
    rw [cons_append, splitOn_cons_eq_if_modifyHead, splitOn_cons_eq_if_modifyHead, hs, hsc]
    split_ifs
    · exact ⟨[] :: front, last, rfl, rfl⟩
    · cases front with
      | nil => exact ⟨[], d :: last, rfl, rfl⟩
      | cons part front => exact ⟨(d :: part) :: front, last, rfl, rfl⟩

def Proper (s : List Char) : Prop := ∀ part ∈ (slashed s).splitOn '/', ¬Improper part

variable {s : List Char}

theorem Proper.of_dropWhile (h : Proper (s.dropWhile isSpace)) : Proper s := by
  induction s with
  | nil => exact h
  | cons c s ih =>
    rw [dropWhile_cons] at h
    split_ifs at h with hc
    · intro part hpart
      obtain ⟨hslash, hne⟩ := slashed_space hc
      rw [slashed, map_cons, hslash, splitOn_cons_eq_if_modifyHead, if_neg hne] at hpart
      cases hsplit : (slashed s).splitOn '/' with
      | nil => exact absurd hsplit (splitOn_ne_nil _ _)
      | cons first rest =>
        rw [slashed] at hsplit
        rw [hsplit, modifyHead_cons, mem_cons] at hpart
        rcases hpart with rfl | hpart
        · exact proper_of_space hc mem_cons_self
        · exact ih h part (by rw [slashed, hsplit]; exact mem_cons_of_mem _ hpart)
    · exact h

theorem Proper.of_rdropWhile (h : Proper (s.rdropWhile isSpace)) : Proper s := by
  induction s using List.reverseRecOn with
  | nil => exact h
  | append_singleton s c ih =>
    rw [rdropWhile_concat] at h
    split_ifs at h with hc
    · intro part hpart
      obtain ⟨hslash, hne⟩ := slashed_space hc
      obtain ⟨front, last, hs, hsc⟩ := splitOn_concat hne (slashed s)
      rw [slashed, map_append, map_singleton, hslash, ← slashed, hsc, mem_append] at hpart
      rcases hpart with hpart | hpart
      · exact ih h part (by rw [hs]; exact mem_append_left _ hpart)
      · rw [mem_singleton.mp hpart]
        exact proper_of_space hc mem_concat_self
    · exact h

theorem proper_of_valid {targetPath : String} (h : validRepoRelativeTarget targetPath = true) :
    Proper targetPath.toList := by
  refine .of_dropWhile (.of_rdropWhile ?_)
  rw [validRepoRelativeTarget] at h
  split_ifs at h
  intro part hpart
  have htrim : (trimSpace targetPath).toList =
      (targetPath.toList.dropWhile isSpace).rdropWhile isSpace := by
    rw [trimSpace, String.toList_ofList]
    rfl
  rw [← htrim] at hpart
  exact of_decide_eq_true (all_eq_true.mp h part hpart)

end Parts

section Physical

variable {tree : Tree} {place cur root rest : Place} {part : Segment}

section

variable (hcur : ∀ name ∈ cur, Plain name)
include hcur

theorem join_render (hrest : ∀ name ∈ rest, Plain name) :
    join (render cur) (['/'].intercalate rest) = render (cur ++ rest) := by
  by_cases hne : rest = []
  · subst hne
    rw [intercalate_nil, join, if_neg (by simp [render]), if_pos rfl, clean_render hcur, append_nil]
  · have hjoin := (@join_below (render cur) rest hne (reduced_of_plain hrest true)).1
    have hsegs : segments (render cur) = cur := (reduced_of_plain hcur true).segments_render
    rw [render_eq hne, isAbs_render, hsegs] at hjoin
    exact hjoin

theorem lstat_render (hpart : Plain part) (hreal : Real tree cur) :
    lstat tree (render (cur ++ [part])) =
      if tree.node cur ≠ some .dir then .error .notDir
      else orElse .notExist (tree.node (cur ++ [part])) := by
  have hplain : ∀ name ∈ cur ++ [part], Plain name :=
    forall_mem_append.mpr ⟨hcur, forall_mem_singleton.mpr hpart⟩
  have hwalk : walk tree linkLimit [] ([] :: cur) = .ok cur :=
    (follow_skip (.inl rfl)).trans (follow_self hcur hreal)
  rw [lstat, splitOn_render hplain (by simp), ← cons_append, dropLast_concat, getLast?_concat,
    hwalk]
  exact if_congr Iff.rfl rfl (if_pos hpart)

theorem inside_of_pathInside (hroot : ∀ name ∈ root, Plain name)
    (h : pathInside (render root) (render cur) = true) : root <+: cur := by
  have hsegs {place : Place} (hplain : ∀ name ∈ place, Plain name) :
      segments (render place) = place :=
    (reduced_of_plain hplain true).segments_render
  rw [pathInside, rel, clean_render hroot, clean_render hcur, clean_render hroot, clean_render hcur,
    hsegs hroot, hsegs hcur] at h
  split_ifs at h with hsame habs hdot
  · rw [render_injective hcur hroot hsame]
  · cases h
  · exact absurd (List.cons.inj hdot).1 (by decide)
  · cases hr : relSegments root cur with
    | none => simp [hr] at h
    | some segs =>
      have hfirst : segs.head? ≠ some dotDot := by
        intro hfirst
        simp [hr, escapes_of_head hfirst] at h
      exact ⟨segs, relSegments_eq hr hfirst⟩

end

/-- Inside the root, and no component that exists is a link. -/
def Confined (tree : Tree) (root place : Place) : Prop :=
  root <+: place ∧ ∀ q, q <+: place → ∀ target, tree.node q ≠ some (.link target)

theorem confined_of_real (h : Real tree place) (hroot : root <+: place) :
    Confined tree root place := by
  refine ⟨hroot, fun q ⟨back, hback⟩ target hlink ↦ ?_⟩
  subst hback
  by_cases hnil : back = []
  · rw [hnil, append_nil] at h
    rcases h with h | h <;> simp [hlink] at h
  · have hdir := dir_of_append hnil h.ne_none
    simp [hlink] at hdir

theorem Confined.concat (h : Confined tree root place)
    (hpart : ∀ target, tree.node (place ++ [part]) ≠ some (.link target)) :
    Confined tree root (place ++ [part]) := by
  refine ⟨h.1.trans (prefix_append _ _), fun q hq ↦ ?_⟩
  rcases prefix_concat_iff.mp hq with rfl | hq
  · exact hpart
  · exact h.2 q hq

theorem Confined.append_missing (h : Confined tree root place) (hnone : tree.node place = none)
    (rest : Place) : Confined tree root (place ++ rest) := by
  refine ⟨h.1.trans (prefix_append _ _), fun q hq target hlink ↦ ?_⟩
  rcases prefix_or_prefix_of_prefix hq (prefix_append place rest) with hq | ⟨back, rfl⟩
  · exact h.2 q hq target hlink
  · by_cases hnil : back = []
    · rw [hnil, append_nil, hnone] at hlink
      cases hlink
    · have hdir := dir_of_append hnil (hlink ▸ Option.some_ne_none _)
      rw [hnone] at hdir
      cases hdir

theorem descend_confined {parts : List Segment} {path : List Char}
    (hroot : ∀ name ∈ root, Plain name) (hparts : ∀ part ∈ parts, Plain part)
    (hcur : ∀ name ∈ cur, Plain name) (hreal : Real tree cur) (hc : Confined tree root cur)
    (h : descend tree (render root) (render cur) parts = some path) :
    ∃ place, (∀ name ∈ place, Plain name) ∧ path = render place ∧ Confined tree root place := by
  induction parts generalizing cur with
  | nil => exact ⟨cur, hcur, (Option.some.inj h).symm, hc⟩
  | cons part rest ih =>
    obtain ⟨hpart, hrest⟩ := forall_mem_cons.mp hparts
    have hcandidate : ∀ name ∈ cur ++ [part], Plain name :=
      forall_mem_append.mpr ⟨hcur, forall_mem_singleton.mpr hpart⟩
    have hjoin : join (render cur) part = render (cur ++ [part]) := by
      rw [← join_render hcur (forall_mem_singleton.mpr hpart), intercalate_singleton]
    rw [descend] at h
    dsimp only at h
    rw [hjoin, lstat_render hcur hpart hreal] at h
    by_cases hdir : tree.node cur ≠ some .dir
    · rw [if_pos hdir] at h
      split_ifs at h
    rw [if_neg hdir] at h
    cases hnode : tree.node (cur ++ [part]) with
    | none =>
      rw [hnode] at h
      split_ifs at h
      rw [← Option.some.inj h, join_render hcandidate hrest]
      exact ⟨_, forall_mem_append.mpr ⟨hcandidate, hrest⟩, rfl,
        (hc.concat (by simp [hnode])).append_missing hnode rest⟩
    | some node =>
      rw [hnode] at h
      cases node with
      | file =>
        split_ifs at h
        exact ih hrest hcandidate (.inr hnode) (hc.concat (by simp [hnode])) h
      | dir =>
        split_ifs at h
        exact ih hrest hcandidate (.inl hnode) (hc.concat (by simp [hnode])) h
      | link target =>
        cases hphysical : resolve tree evalLimit (render (cur ++ [part])) with
        | error e => simp [hphysical, orElse] at h
        | ok physical =>
          obtain ⟨hplain, hreal⟩ := resolve_physical hphysical
          simp only [hphysical, orElse] at h
          split_ifs at h with _ hinside
          rw [clean_render hplain] at h
          exact ih hrest hplain hreal
            (confined_of_real hreal (inside_of_pathInside hplain hroot hinside)) h

end Physical

/-- A target that is accepted lies inside the physical root, and no link is on its way. -/
theorem safeResolveTarget_confined (tree : Tree) (cwd : Place) (workspaceRoot targetPath : String)
    (path : List Char) (h : safeResolveTarget tree cwd workspaceRoot targetPath = some path) :
    ∃ root place, resolve tree evalLimit (presentedRoot cwd workspaceRoot) = .ok root ∧
      path = render place ∧ Confined tree root place := by
  rw [safeResolveTarget] at h
  split_ifs at h with hvalid hdir
  cases hroot : resolve tree evalLimit (presentedRoot cwd workspaceRoot) with
  | error e => simp [hroot] at h
  | ok root =>
    obtain ⟨hplain, hreal⟩ := resolve_physical hroot
    rw [hroot] at h
    dsimp only at h
    rw [clean_render hplain] at h
    split_ifs at h
    obtain ⟨resolved, hfilter, rfl⟩ := Option.map_eq_some_iff.mp h
    obtain ⟨hdescend, -⟩ := Option.filter_eq_some_iff.mp hfilter
    have hparts : ∀ part ∈ (slashed targetPath.toList).splitOn '/', Plain part := by
      intro part hpart
      have hproper := proper_of_valid (by simpa using hvalid) part hpart
      rw [Improper, not_or, not_or] at hproper
      exact ⟨hproper.1, hproper.2.1, hproper.2.2, notMem_of_mem_splitOn hpart⟩
    obtain ⟨place, hplace, rfl, hconfined⟩ := descend_confined hplain hparts hplain hreal
      (confined_of_real hreal prefix_rfl) hdescend
    exact ⟨root, place, rfl, clean_render hplace, hconfined⟩

def sampleTree : Tree :=
  .ofEntries [(["ws".toList], .dir), (["ws".toList, "docs".toList], .dir),
    (["ws".toList, "wiki".toList], .link "docs".toList)] (by decide)

theorem sampleTree_confined :
    safeResolveTarget sampleTree [] "/ws" "wiki/new.md" = some "/ws/docs/new.md".toList ∧
      ∃ root place, resolve sampleTree evalLimit (presentedRoot [] "/ws") = .ok root ∧
        "/ws/docs/new.md".toList = render place ∧ Confined sampleTree root place := by
  have h : safeResolveTarget sampleTree [] "/ws" "wiki/new.md" = some "/ws/docs/new.md".toList := by
    decide +kernel
  exact ⟨h, safeResolveTarget_confined _ _ _ _ _ h⟩

end MiLsp.LiveContext
