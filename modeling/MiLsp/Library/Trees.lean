import MiLsp.Library.Paths

namespace MiLsp.Library.Trees

open Paths List

abbrev Place := List Segment

inductive Node
  | file
  | dir
  | link (target : List Char)
deriving DecidableEq

inductive WalkError
  | notExist
  | notDir
  | loop
deriving DecidableEq

def Plain (seg : Segment) : Prop := seg ≠ [] ∧ seg ≠ dot ∧ seg ≠ dotDot ∧ '/' ∉ seg

instance (seg : Segment) : Decidable (Plain seg) := inferInstanceAs (Decidable (_ ∧ _))

structure Tree where
  node : Place → Option Node
  root : node [] = some .dir
  parent : ∀ place seg, node (place ++ [seg]) ≠ none → node place = some .dir

def Tree.ofEntries (entries : List (Place × Node))
    (h : ∀ e ∈ entries, e.1.dropLast = [] ∨ entries.lookup e.1.dropLast = some .dir) : Tree where
  node place := if place = [] then some .dir else entries.lookup place
  root := if_pos rfl
  parent := by
    intro place seg hnode
    rw [if_neg (by simp)] at hnode
    obtain ⟨node, hnode⟩ := Option.ne_none_iff_exists'.mp hnode
    obtain ⟨front, back, hentries, -⟩ := lookup_eq_some_iff.mp hnode
    have hmem := h (place ++ [seg], node) (by simp [hentries])
    rw [dropLast_concat] at hmem
    split_ifs with hplace
    · rfl
    · exact hmem.resolve_left hplace

variable (tree : Tree) (place : Place)

def stop (rest : List Segment) : Except WalkError Place :=
  if rest = [] then .ok place else .error .notDir

def follow (next : Place → List Segment → Except WalkError Place) :
    Place → List Segment → Except WalkError Place
  | place, [] => .ok place
  | place, seg :: rest =>
    if seg = [] ∨ seg = dot then follow next place rest
    else if seg = dotDot then follow next place.dropLast rest
    else match tree.node (place ++ [seg]) with
      | none => .error .notExist
      | some .file => stop (place ++ [seg]) rest
      | some .dir => follow next (place ++ [seg]) rest
      | some (.link target) =>
        next (if isAbs target then [] else place) (target.splitOn '/' ++ rest)

def walk : ℕ → Place → List Segment → Except WalkError Place
  | 0 => follow tree fun _ _ ↦ .error .loop
  | links + 1 => follow tree (walk links)

def resolve (links : ℕ) (path : List Char) : Except WalkError Place :=
  walk tree links [] (path.splitOn '/')

def render : List Char := '/' :: ['/'].intercalate place

def Real : Prop := tree.node place = some .dir ∨ tree.node place = some .file

variable {tree} {place out : Place} {rest : List Segment} {links : ℕ} {path : List Char}

theorem dir_of_append {front back : Place} (hback : back ≠ [])
    (h : tree.node (front ++ back) ≠ none) : tree.node front = some .dir := by
  induction back generalizing front with
  | nil => exact absurd rfl hback
  | cons seg back ih =>
    refine tree.parent front seg ?_
    cases back with
    | nil => exact h
    | cons other back =>
      rw [@ih (front ++ [seg]) (by simp) (by simpa using h)]
      exact Option.some_ne_none _

theorem Real.ne_none (h : Real tree place) : tree.node place ≠ none := by
  rcases h with h | h <;> simp [h]

theorem stop_eq_ok : stop place rest = .ok out ↔ rest = [] ∧ place = out := by
  unfold stop
  split_ifs with h <;> simp [h]

section Follow

variable {next next' : Place → List Segment → Except WalkError Place} {place out : Place}
  {seg : Segment} {rest front back : List Segment}

theorem follow_skip (h : seg = [] ∨ seg = dot) :
    follow tree next place (seg :: rest) = follow tree next place rest := by
  rw [follow, if_pos h]

theorem follow_up : follow tree next place (dotDot :: rest) =
    follow tree next place.dropLast rest := by
  rw [follow, if_neg (by decide), if_pos rfl]

section

variable (hskip : ¬(seg = [] ∨ seg = dot)) (hup : seg ≠ dotDot)
include hskip hup

theorem follow_enter (h : follow tree next place (seg :: rest) = .ok out) :
    (tree.node (place ++ [seg]) = some .file ∧ rest = [] ∧ place ++ [seg] = out) ∨
      (tree.node (place ++ [seg]) = some .dir ∧ follow tree next (place ++ [seg]) rest = .ok out) ∨
      ∃ target, tree.node (place ++ [seg]) = some (.link target) ∧
        next (if isAbs target then [] else place) (target.splitOn '/' ++ rest) = .ok out := by
  rw [follow, if_neg hskip, if_neg hup] at h
  cases hnode : tree.node (place ++ [seg]) with
  | none =>
    rw [hnode] at h
    cases h
  | some node =>
    rw [hnode] at h
    cases node with
    | file => exact .inl ⟨rfl, stop_eq_ok.mp h⟩
    | dir => exact .inr (.inl ⟨rfl, h⟩)
    | link target => exact .inr (.inr ⟨target, rfl, h⟩)

theorem follow_file (hnode : tree.node (place ++ [seg]) = some .file) :
    follow tree next place [seg] = .ok (place ++ [seg]) := by
  rw [follow, if_neg hskip, if_neg hup, hnode]
  rfl

theorem follow_dir (hnode : tree.node (place ++ [seg]) = some .dir) :
    follow tree next place (seg :: rest) = follow tree next (place ++ [seg]) rest := by
  rw [follow, if_neg hskip, if_neg hup, hnode]

theorem follow_link {target : List Char}
    (hnode : tree.node (place ++ [seg]) = some (.link target)) :
    follow tree next place (seg :: rest) =
      next (if isAbs target then [] else place) (target.splitOn '/' ++ rest) := by
  rw [follow, if_neg hskip, if_neg hup, hnode]

end

theorem follow_append {P : Place → Prop}
    (hnext : ∀ place segs, next place (segs ++ back) = .ok out →
      ∃ mid, next place segs = .ok mid ∧ P mid)
    (hback : ∀ mid, follow tree next mid back = .ok out → P mid) (hout : back = [] → P out)
    (h : follow tree next place (front ++ back) = .ok out) :
    ∃ mid, follow tree next place front = .ok mid ∧ P mid := by
  fun_induction follow tree next place front with
  | case1 place => exact ⟨place, rfl, hback place h⟩
  | case2 place seg front hskip ih =>
    rw [cons_append, follow_skip hskip] at h
    exact ih h
  | case3 place front hskip ih =>
    exact ih h
  | case4 place seg front hskip hup hnode => simp [follow, hskip, hup, hnode] at h
  | case5 place seg front hskip hup hnode =>
    rw [cons_append, follow, if_neg hskip, if_neg hup, hnode] at h
    obtain ⟨hrest, rfl⟩ := stop_eq_ok.mp h
    obtain ⟨rfl, hnil⟩ := append_eq_nil_iff.mp hrest
    exact ⟨_, rfl, hout hnil⟩
  | case6 place seg front hskip hup hnode ih =>
    rw [cons_append, follow_dir hskip hup hnode] at h
    exact ih h
  | case7 place seg front hskip hup target hnode =>
    rw [cons_append, follow_link hskip hup hnode, ← append_assoc] at h
    exact hnext _ _ h

theorem follow_mono (hnext : ∀ place segs, next place segs = .ok out → next' place segs = .ok out)
    (h : follow tree next place rest = .ok out) : follow tree next' place rest = .ok out := by
  fun_induction follow tree next place rest with
  | case1 => exact h
  | case2 place seg rest hskip ih => rw [follow_skip hskip, ih h]
  | case3 place rest hskip ih => rw [follow_up, ih h]
  | case4 => cases h
  | case5 place seg rest hskip hup hnode => rwa [follow, if_neg hskip, if_neg hup, hnode]
  | case6 place seg rest hskip hup hnode ih => rw [follow_dir hskip hup hnode, ih h]
  | case7 place seg rest hskip hup target hnode =>
    rw [follow_link hskip hup hnode]
    exact hnext _ _ h

theorem follow_physical
    (hnext : ∀ place segs, (∀ name ∈ place, Plain name) → tree.node place = some .dir →
      (∀ seg ∈ segs, '/' ∉ seg) → next place segs = .ok out →
      (∀ name ∈ out, Plain name) ∧ Real tree out)
    (hplace : ∀ name ∈ place, Plain name) (hdir : tree.node place = some .dir)
    (hrest : ∀ seg ∈ rest, '/' ∉ seg) (h : follow tree next place rest = .ok out) :
    (∀ name ∈ out, Plain name) ∧ Real tree out := by
  have hentered : ∀ {place seg}, ¬(seg = [] ∨ seg = dot) → seg ≠ dotDot → '/' ∉ seg →
      (∀ name ∈ place, Plain name) → ∀ name ∈ place ++ [seg], Plain name := by
    intro place seg hskip hup hslash hplace
    rw [not_or] at hskip
    exact forall_mem_append.mpr
      ⟨hplace, forall_mem_singleton.mpr ⟨hskip.1, hskip.2, hup, hslash⟩⟩
  fun_induction follow tree next place rest with
  | case1 =>
    cases h
    exact ⟨hplace, .inl hdir⟩
  | case2 place seg rest hskip ih => exact ih hplace hdir (forall_mem_cons.mp hrest).2 h
  | case3 place rest hskip ih =>
    refine ih (fun name hname ↦ hplace name ((dropLast_sublist place).mem hname)) ?_
      (forall_mem_cons.mp hrest).2 h
    rcases eq_nil_or_concat place with rfl | ⟨front, name, rfl⟩
    · exact tree.root
    · rw [concat_eq_append] at hdir ⊢
      rw [dropLast_concat]
      exact tree.parent front name (by simp [hdir])
  | case4 => cases h
  | case5 place seg rest hskip hup hnode =>
    obtain ⟨-, rfl⟩ := stop_eq_ok.mp h
    exact ⟨hentered hskip hup (forall_mem_cons.mp hrest).1 hplace, .inr hnode⟩
  | case6 place seg rest hskip hup hnode ih =>
    obtain ⟨hseg, hrest⟩ := forall_mem_cons.mp hrest
    exact ih (hentered hskip hup hseg hplace) hnode hrest h
  | case7 place seg rest hskip hup target hnode =>
    have hsegs : ∀ s ∈ target.splitOn '/' ++ rest, '/' ∉ s := forall_mem_append.mpr
      ⟨fun _ hs ↦ notMem_of_mem_splitOn hs, (forall_mem_cons.mp hrest).2⟩
    split_ifs at h
    · exact hnext _ _ (fun _ hname ↦ absurd hname not_mem_nil) tree.root hsegs h
    · exact hnext _ _ hplace hdir hsegs h

theorem follow_self (hplain : ∀ name ∈ back, Plain name) (h : Real tree (front ++ back)) :
    follow tree next front back = .ok (front ++ back) := by
  induction back generalizing front with
  | nil =>
    rw [append_nil]
    rfl
  | cons seg back ih =>
    obtain ⟨⟨hnil, hdot, hdots, -⟩, hplain⟩ := forall_mem_cons.mp hplain
    have hskip : ¬(seg = [] ∨ seg = dot) := not_or.mpr ⟨hnil, hdot⟩
    rw [append_cons] at h ⊢
    by_cases hdir : tree.node (front ++ [seg]) = some .dir
    · rw [follow_dir hskip hdots hdir, ih hplain h]
    · cases back with
      | nil =>
        rw [append_nil] at h ⊢
        exact follow_file hskip hdots (h.resolve_left hdir)
      | cons other back => exact absurd (dir_of_append (by simp) h.ne_none) hdir

end Follow

theorem walk_mono {links' : ℕ} (hle : links ≤ links') (h : walk tree links place rest = .ok out) :
    walk tree links' place rest = .ok out := by
  induction links generalizing links' place rest with
  | zero =>
    cases links' with
    | zero => exact h
    | succ links' => exact follow_mono (fun _ _ h ↦ by cases h) h
  | succ links ih =>
    cases links' with
    | zero => omega
    | succ links' => exact follow_mono (fun _ _ h ↦ ih (by omega) h) h

theorem walk_append {front back : List Segment}
    (h : walk tree links place (front ++ back) = .ok out) :
    ∃ mid, walk tree links place front = .ok mid ∧ walk tree links mid back = .ok out := by
  induction links generalizing place front with
  | zero =>
    refine follow_append (fun _ _ h ↦ by cases h) (fun _ h ↦ h) (fun hback ↦ ?_) h
    rw [hback]
    rfl
  | succ links ih =>
    refine follow_append (fun place segs h ↦ ?_) (fun _ h ↦ h) (fun hback ↦ ?_) h
    · obtain ⟨mid, hfront, hback⟩ := ih h
      exact ⟨mid, hfront, walk_mono (Nat.le_succ links) hback⟩
    · rw [hback]
      rfl

theorem walk_name {name : Segment} (hname : Plain name)
    (h : walk tree links place [name] = .ok out) :
    out = place ++ [name] ∨ ∃ target, tree.node (place ++ [name]) = some (.link target) := by
  have hskip : ¬(name = [] ∨ name = dot) := not_or.mpr ⟨hname.1, hname.2.1⟩
  have henter : ∀ next, follow tree next place [name] = .ok out →
      out = place ++ [name] ∨ ∃ target, tree.node (place ++ [name]) = some (.link target) := by
    intro next h
    rcases follow_enter hskip hname.2.2.1 h with ⟨-, -, rfl⟩ | ⟨-, h⟩ | ⟨target, hlink, -⟩
    · exact .inl rfl
    · cases h
      exact .inl rfl
    · exact .inr ⟨target, hlink⟩
  cases links with
  | zero => exact henter _ h
  | succ links => exact henter _ h

variable (tree) in
/-- Where a name on the way is a link, the path it stands for has the property if the path as it is
spelled there has it. -/
def LinksKeep (links : ℕ) (P : Place → Prop) : Place → List Segment → Prop
  | _, [] => True
  | place, name :: rest => ∀ next, walk tree links place [name] = .ok next →
      ((∃ target, tree.node (place ++ [name]) = some (.link target)) →
        P (place ++ name :: rest) → P (next ++ rest)) ∧ LinksKeep links P next rest

theorem LinksKeep.walk {P : Place → Prop} (h : LinksKeep tree links P place rest)
    (hplain : ∀ name ∈ rest, Plain name) (hwalk : walk tree links place rest = .ok out)
    (hP : P (place ++ rest)) : P out := by
  induction rest generalizing place with
  | nil =>
    have hout : place = out := by
      cases links <;> exact Except.ok.inj hwalk
    rwa [append_nil, hout] at hP
  | cons name rest ih =>
    obtain ⟨hname, hplain⟩ := forall_mem_cons.mp hplain
    obtain ⟨next, hnext, hwalk⟩ := @walk_append _ _ _ _ [name] rest hwalk
    obtain ⟨hlink, hrest⟩ := h next hnext
    refine ih hrest hplain hwalk ?_
    rcases walk_name hname hnext with rfl | htarget
    · rwa [append_assoc, singleton_append]
    · exact hlink htarget hP

theorem walk_physical (hplace : ∀ name ∈ place, Plain name) (hdir : tree.node place = some .dir)
    (hrest : ∀ seg ∈ rest, '/' ∉ seg) (h : walk tree links place rest = .ok out) :
    (∀ name ∈ out, Plain name) ∧ Real tree out := by
  induction links generalizing place rest with
  | zero => exact follow_physical (fun _ _ _ _ _ h ↦ by cases h) hplace hdir hrest h
  | succ links ih =>
    exact follow_physical (fun _ _ hplace hdir hrest h ↦ ih hplace hdir hrest h) hplace hdir hrest h

theorem resolve_physical (h : resolve tree links path = .ok out) :
    (∀ name ∈ out, Plain name) ∧ Real tree out :=
  walk_physical (fun _ hname ↦ by cases hname) tree.root (fun _ hseg ↦ notMem_of_mem_splitOn hseg) h

theorem resolve_plain (h : resolve tree links path = .ok out) : ∀ name ∈ out, Plain name :=
  (resolve_physical h).1

theorem resolve_below {root rel : List Char}
    (h : resolve tree links (root ++ '/' :: rel) = .ok out) :
    ∃ mid, resolve tree links root = .ok mid ∧
      walk tree links mid (rel.splitOn '/') = .ok out := by
  rw [resolve, splitOn_append_cons_self] at h
  exact walk_append h

theorem reduced_of_plain (h : ∀ name ∈ place, Plain name) (rooted : Bool) :
    Reduced rooted place where
  proper name hname := ⟨(h name hname).1, (h name hname).2.1⟩
  noSlash name hname := (h name hname).2.2.2
  dots := pairwise_of_forall_mem_list fun _ _ name hname hdots ↦
    absurd hdots (h name hname).2.2.1
  rooted _ hmem := (h dotDot hmem).2.2.1 rfl

theorem splitOn_render (h : ∀ name ∈ place, Plain name) (hne : place ≠ []) :
    (render place).splitOn '/' = [] :: place :=
  (reduced_of_plain h true).splitOn_render hne

theorem isAbs_render (place : Place) : isAbs (render place) = true := by simp [render, isAbs]

theorem clean_render (h : ∀ name ∈ place, Plain name) : clean (render place) = render place :=
  (reduced_of_plain h true).clean_render

theorem exists_render (h : isAbs path = true) :
    ∃ place : Place, (∀ name ∈ place, Plain name) ∧ clean path = render place := by
  have hreduced := reduced_segments path
  rw [h] at hreduced
  refine ⟨segments path, fun name hname ↦ ?_, ?_⟩
  · obtain ⟨hnil, hdot⟩ := hreduced.proper name hname
    exact ⟨hnil, hdot, fun hdots ↦ hreduced.rooted rfl (hdots ▸ hname), hreduced.noSlash name hname⟩
  · rw [clean_eq_render, h]
    rfl

theorem render_injective {a b : Place} (ha : ∀ name ∈ a, Plain name) (hb : ∀ name ∈ b, Plain name)
    (h : render a = render b) : a = b := by
  have hsegs : segments (Paths.render true a) = segments (Paths.render true b) := congrArg _ h
  rwa [(reduced_of_plain ha true).segments_render, (reduced_of_plain hb true).segments_render]
    at hsegs

theorem isPrefix_of_render {root : Place} (hroot : ∀ name ∈ root, Plain name)
    (hplace : ∀ name ∈ place, Plain name) (h : render root ++ ['/'] <+: render place) :
    root <+: place := by
  obtain ⟨rest, hrest⟩ := h
  rw [append_assoc, singleton_append] at hrest
  by_cases hnil : root = []
  · rw [hnil]
    exact nil_prefix
  have hne : place ≠ [] := by
    rintro rfl
    have hlen := congrArg List.length hrest
    simp [render] at hlen
  have hsplit := congrArg (List.splitOn '/') hrest
  rw [splitOn_append_cons_self, splitOn_render hroot hnil, splitOn_render hplace hne,
    cons_append] at hsplit
  exact ⟨rest.splitOn '/', (List.cons.inj hsplit).2⟩

end MiLsp.Library.Trees
