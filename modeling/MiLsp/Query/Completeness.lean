import MiLsp.Library.Levels
import MiLsp.Query.Frontier

namespace MiLsp.Query

open MiLsp.Graph Library Attempt Levels List Traversal Direction

def Direction.Connects : Direction → GraphEdgeRecord → ℤ → ℤ → Prop
  | .outward, e, u, v => u = e.fromNodeID ∧ v = e.toNodeID
  | .inward, e, u, v => u = e.toNodeID ∧ v = e.fromNodeID
  | .both, e, u, v => u = e.fromNodeID ∧ v = e.toNodeID ∨ u = e.toNodeID ∧ v = e.fromNodeID

section Spec

variable (s : GraphQuerySnapshot) (q : GraphQueryRequest) (root : ℤ)

def GraphQueryRequest.Step (u v : ℤ) : Prop :=
  ∃ e ∈ s.edges, allowed q.relations e ∧ q.effectiveDirection.Connects e u v

def GraphQueryRequest.AtDistance (n : ℕ) (v : ℤ) : Prop :=
  Levels.AtDistance (q.Step s) root n v

def GraphQueryRequest.Nearest (e : GraphEdgeRecord) (n : ℕ) : Prop :=
  (∃ u ∈ q.effectiveDirection.ends e, q.AtDistance s root n u) ∧
    ∀ u ∈ q.effectiveDirection.ends e, ∀ m, q.AtDistance s root m u → n ≤ m

/-- The node at the other end, seen from the endpoints at the least distance. -/
def GraphQueryRequest.LeadsTo (e : GraphEdgeRecord) (n : ℕ) (v : ℤ) : Prop :=
  match q.effectiveDirection with
  | .outward => v = e.toNodeID
  | .inward => v = e.fromNodeID
  | .both => q.AtDistance s root n e.fromNodeID ∧ v = e.toNodeID ∨
      ¬q.AtDistance s root n e.fromNodeID ∧ v = e.fromNodeID

def GraphQueryRequest.Found (depth : ℕ) (w : GraphEdgeWork) : Prop :=
  w.edge ∈ s.edges ∧ allowed q.relations w.edge ∧
    ∃ n < depth, q.Nearest s root w.edge n ∧ w.distance = n + 1 ∧
      q.LeadsTo s root w.edge n w.nodeID

end Spec

section Visit

variable {direction : Direction} {distance : ℕ} {t : Traversal}

def Traversal.unseen (t : Traversal) (e : GraphEdgeRecord) : Bool :=
  !t.works.any (·.edge.edgeID = e.edgeID)

def Traversal.known (t : Traversal) : List ℤ := t.visited.map (·.1)

variable {e : GraphEdgeRecord}

theorem unseen_iff : t.unseen e = true ↔ ∀ w ∈ t.works, w.edge.edgeID ≠ e.edgeID := by
  simp [unseen]

theorem visit_eq (e : GraphEdgeRecord) : t.visit direction distance e =
    if t.unseen e then t.add direction distance e else t := by
  rw [visit, unseen]
  cases t.works.any (·.edge.edgeID = e.edgeID) <;> rfl

theorem add_known (h : direction.far t.frontier e ∈ t.known) :
    t.add direction distance e =
      { t with works := t.works ++ [⟨e, direction.far t.frontier e, distance⟩] } := by
  obtain ⟨entry, hentry, heq⟩ := mem_map.mp h
  rw [add, if_pos (any_eq_true.mpr ⟨entry, hentry, decide_eq_true heq⟩)]

theorem add_new (h : direction.far t.frontier e ∉ t.known) :
    t.add direction distance e =
      { t with
        works := t.works ++ [⟨e, direction.far t.frontier e, distance⟩]
        visited := t.visited ++ [(direction.far t.frontier e, distance)]
        next := t.next ++ [direction.far t.frontier e] } := by
  rw [add, if_neg]
  intro hany
  obtain ⟨entry, hentry, heq⟩ := any_eq_true.mp hany
  exact h (mem_map.mpr ⟨entry, hentry, of_decide_eq_true heq⟩)

theorem add_frontier (e : GraphEdgeRecord) :
    (t.add direction distance e).frontier = t.frontier := by
  by_cases h : direction.far t.frontier e ∈ t.known
  · rw [add_known h]
  · rw [add_new h]

theorem add_works (e : GraphEdgeRecord) : (t.add direction distance e).works =
    t.works ++ [⟨e, direction.far t.frontier e, distance⟩] := by
  by_cases h : direction.far t.frontier e ∈ t.known
  · rw [add_known h]
  · rw [add_new h]

theorem mem_add_known {v : ℤ} : v ∈ (t.add direction distance e).known ↔
    v ∈ t.known ∨ v = direction.far t.frontier e := by
  by_cases h : direction.far t.frontier e ∈ t.known
  · rw [add_known h]
    constructor
    · exact .inl
    · intro hv
      rcases hv with hv | rfl
      · exact hv
      · exact h
  · rw [add_new h]
    simp [known]

theorem mem_add_next {v : ℤ} : v ∈ (t.add direction distance e).next ↔
    v ∈ t.next ∨ v ∉ t.known ∧ v = direction.far t.frontier e := by
  by_cases h : direction.far t.frontier e ∈ t.known
  · rw [add_known h]
    constructor
    · exact .inl
    · intro hv
      rcases hv with hv | ⟨hv, rfl⟩
      · exact hv
      · exact absurd h hv
  · rw [add_new h, mem_append, mem_singleton]
    constructor
    · intro hv
      rcases hv with hv | rfl
      · exact .inl hv
      · exact .inr ⟨h, rfl⟩
    · intro hv
      rcases hv with hv | ⟨-, hv⟩
      · exact .inl hv
      · exact .inr hv

theorem length_add_next (e : GraphEdgeRecord) :
    (t.add direction distance e).next.length ≤ t.next.length + 1 := by
  by_cases h : direction.far t.frontier e ∈ t.known
  · rw [add_known h]
    exact Nat.le_succ _
  · rw [add_new h, length_append]
    exact le_refl _

theorem foldl_visit_eq {edges : List GraphEdgeRecord} (h : (edges.map (·.edgeID)).Nodup) :
    edges.foldl (visit direction distance) t =
      (edges.filter t.unseen).foldl (add direction distance) t := by
  induction edges generalizing t with
  | nil => rfl
  | cons e edges ih =>
    rw [map_cons, nodup_cons] at h
    rw [foldl_cons, visit_eq]
    cases hu : t.unseen e with
    | false =>
      rw [filter_cons_of_neg (by simp [hu])]
      exact ih h.2
    | true =>
      rw [filter_cons_of_pos hu, foldl_cons, if_pos rfl, ih h.2]
      congr 1
      apply filter_congr
      intro x hx
      have hne : e.edgeID ≠ x.edgeID := fun heq ↦ h.1 (mem_map.mpr ⟨x, hx, heq.symm⟩)
      simp [unseen, add_works, hne]

theorem foldl_add_spec (edges : List GraphEdgeRecord) (t : Traversal) :
    let t' := edges.foldl (add direction distance) t
    t'.frontier = t.frontier ∧
      t'.works = t.works ++ edges.map (fun e ↦ ⟨e, direction.far t.frontier e, distance⟩) ∧
      (∀ v, v ∈ t'.known ↔ v ∈ t.known ∨ ∃ e ∈ edges, v = direction.far t.frontier e) ∧
      (∀ v, v ∈ t'.next ↔
        v ∈ t.next ∨ v ∉ t.known ∧ ∃ e ∈ edges, v = direction.far t.frontier e) ∧
      t'.next.length ≤ t.next.length + edges.length := by
  induction edges generalizing t with
  | nil => simp
  | cons e edges ih =>
    obtain ⟨hfrontier, hworks, hknown, hnext, hlength⟩ := ih (t.add direction distance e)
    simp only [foldl_cons, add_frontier] at hfrontier hworks hknown hnext ⊢
    refine ⟨hfrontier, ?_, ?_, ?_, ?_⟩
    · rw [hworks, add_works]
      simp
    · intro v
      rw [hknown, mem_add_known]
      simp only [mem_cons, exists_eq_or_imp]
      exact or_assoc
    · intro v
      rw [hnext, mem_add_next, mem_add_known]
      simp only [mem_cons, exists_eq_or_imp]
      tauto
    · have := @length_add_next direction distance t e
      rw [length_cons]
      omega

end Visit

section Level

variable {s : GraphQuerySnapshot} {q : GraphQueryRequest} {maxRows distance : ℕ} {t : Traversal}

def Traversal.fresh (s : GraphQuerySnapshot) (q : GraphQueryRequest) (maxRows : ℕ)
    (t : Traversal) : List GraphEdgeRecord :=
  (s.readEdges t.frontier q.effectiveDirection q.relations maxRows).filter t.unseen

theorem level_works : (t.level s q maxRows distance).works = t.works ++
    (t.fresh s q maxRows).map fun e ↦
      ⟨e, q.effectiveDirection.far t.frontier e, distance⟩ := by
  rw [level, foldl_visit_eq nodup_readEdges]
  exact (foldl_add_spec _ _).2.1

theorem mem_level_known {v : ℤ} : v ∈ (t.level s q maxRows distance).known ↔
    v ∈ t.known ∨ ∃ e ∈ t.fresh s q maxRows, v = q.effectiveDirection.far t.frontier e := by
  rw [level, foldl_visit_eq nodup_readEdges]
  exact (foldl_add_spec _ _).2.2.1 v

theorem mem_level_frontier {v : ℤ} : v ∈ (t.level s q maxRows distance).frontier ↔
    v ∉ t.known ∧ ∃ e ∈ t.fresh s q maxRows, v = q.effectiveDirection.far t.frontier e := by
  rw [level, foldl_visit_eq nodup_readEdges, mem_dedup]
  exact ((foldl_add_spec _ _).2.2.2.1 v).trans (or_iff_right not_mem_nil)

theorem length_level_frontier :
    (t.level s q maxRows distance).frontier.length ≤ (t.fresh s q maxRows).length := by
  rw [level, foldl_visit_eq nodup_readEdges]
  refine (dedup_sublist _).length_le.trans ?_
  have h := (@foldl_add_spec q.effectiveDirection distance
    (t.fresh s q maxRows) { t with next := [] }).2.2.2.2
  rwa [length_nil, Nat.zero_add] at h

theorem mem_fresh {e : GraphEdgeRecord} : e ∈ t.fresh s q maxRows ↔
    e ∈ s.readEdges t.frontier q.effectiveDirection q.relations maxRows ∧ t.unseen e = true :=
  mem_filter

theorem length_readEdges_le (hedges : ∀ w ∈ t.works, w.edge ∈ s.edges) :
    (s.readEdges t.frontier q.effectiveDirection q.relations maxRows).length ≤
      (t.level s q maxRows distance).works.length := by
  have hnodup : (s.readEdges t.frontier q.effectiveDirection q.relations maxRows).Nodup :=
    .of_map _ nodup_readEdges
  rw [← @List.length_map _ _ (t.level s q maxRows distance).works GraphEdgeWork.edge]
  refine (subperm_of_subset hnodup ?_).length_le
  intro e he
  rw [level_works, map_append, mem_append]
  cases hu : t.unseen e with
  | true =>
    right
    rw [map_map]
    exact mem_map.mpr ⟨e, mem_fresh.mpr ⟨he, hu⟩, rfl⟩
  | false =>
    left
    simp only [unseen, Bool.not_eq_false', any_eq_true, decide_eq_true_eq] at hu
    obtain ⟨w, hw, hid⟩ := hu
    exact mem_map.mpr ⟨w, hw, s.edge_eq (hedges w hw) (mem_readEdges he).1 hid⟩

theorem levels_works (n : ℕ) : ∃ more, (t.levels s q maxRows n distance).works = t.works ++ more ∧
    ∀ w ∈ more, distance ≤ w.distance := by
  induction n generalizing t distance with
  | zero => exact ⟨[], by simp [levels]⟩
  | succ n ih =>
    have hown : ∀ w ∈ (t.fresh s q maxRows).map fun e ↦
        (⟨e, q.effectiveDirection.far t.frontier e, distance⟩ : GraphEdgeWork),
        distance ≤ w.distance := by
      intro w hw
      obtain ⟨e, -, rfl⟩ := mem_map.mp hw
      exact le_refl distance
    rw [levels]
    split_ifs
    · exact ⟨_, level_works, hown⟩
    · obtain ⟨more, hmore, hdistance⟩ := @ih (distance + 1)
        (t.level s q maxRows distance)
      refine ⟨_, by rw [hmore, level_works, append_assoc], ?_⟩
      intro w hw
      rcases mem_append.mp hw with hw | hw
      · exact hown w hw
      · exact (Nat.le_succ distance).trans (hdistance w hw)

structure Sound (s : GraphQuerySnapshot) (t : Traversal) : Prop where
  distinct : (t.works.map (·.edge.edgeID)).Nodup
  edges : ∀ w ∈ t.works, w.edge ∈ s.edges
  nodes : ∀ w ∈ t.works, w.nodeID = w.edge.fromNodeID ∨ w.nodeID = w.edge.toNodeID

theorem far_eq (direction : Direction) (frontier : List ℤ) (e : GraphEdgeRecord) :
    direction.far frontier e = e.fromNodeID ∨ direction.far frontier e = e.toNodeID := by
  cases direction with
  | inward => exact .inl rfl
  | outward => exact .inr rfl
  | both =>
    rw [far]
    split_ifs
    · exact .inr rfl
    · exact .inl rfl

theorem Sound.level (h : Sound s t) : Sound s (t.level s q maxRows distance) where
  distinct := by
    rw [level_works, map_append, map_map]
    refine List.Nodup.append h.distinct ?_ ?_
    · exact nodup_readEdges.sublist ((filter_sublist).map _)
    · intro id hid hmem
      obtain ⟨w, hw, rfl⟩ := mem_map.mp hid
      obtain ⟨e, he, heq⟩ := mem_map.mp hmem
      exact unseen_iff.mp (mem_fresh.mp he).2 w hw heq.symm
  edges := by
    intro w hw
    rw [level_works, mem_append, mem_map] at hw
    rcases hw with hw | ⟨e, he, rfl⟩
    · exact h.edges w hw
    · exact (mem_readEdges (mem_fresh.mp he).1).1
  nodes := by
    intro w hw
    rw [level_works, mem_append, mem_map] at hw
    rcases hw with hw | ⟨e, -, rfl⟩
    · exact h.nodes w hw
    · exact far_eq _ _ e

theorem Sound.levels (h : Sound s t) (n : ℕ) : Sound s (t.levels s q maxRows n distance) := by
  induction n generalizing t distance with
  | zero => exact h
  | succ n ih =>
    rw [levels]
    split_ifs
    · exact h.level
    · exact ih h.level

theorem traverse_sound (s : GraphQuerySnapshot) (q : GraphQueryRequest) (root : ℤ)
    (maxRows : ℕ) : Sound s (traverse s q root maxRows) :=
  Sound.levels ⟨by simp, by simp, by simp⟩ q.depth

end Level

section Exact

variable {s : GraphQuerySnapshot} {q : GraphQueryRequest} {root : ℤ} {maxRows : ℕ}

/-- After `d` levels in full: the frontier is the level at distance `d`, the work items those of
depth `d`. -/
structure Exact (s : GraphQuerySnapshot) (q : GraphQueryRequest) (root : ℤ) (d : ℕ)
    (t : Traversal) : Prop where
  frontier : ∀ v, v ∈ t.frontier ↔ q.AtDistance s root d v
  known : ∀ v, v ∈ t.known ↔ ∃ m ≤ d, q.AtDistance s root m v
  works : ∀ w, w ∈ t.works ↔ q.Found s root d w

theorem GraphQueryRequest.Nearest.unique {e : GraphEdgeRecord} {n m : ℕ} (hn : q.Nearest s root e n)
    (hm : q.Nearest s root e m) : n = m := by
  obtain ⟨⟨u, hu, hdist⟩, hle⟩ := hn
  obtain ⟨⟨u', hu', hdist'⟩, hle'⟩ := hm
  exact Nat.le_antisymm (hle u' hu' m hdist') (hle' u hu n hdist)

theorem exists_nearest {e : GraphEdgeRecord} {u : ℤ} {m : ℕ} (hu : u ∈ q.effectiveDirection.ends e)
    (h : q.AtDistance s root m u) : ∃ n ≤ m, q.Nearest s root e n := by
  classical
  have hex : ∃ n, ∃ u ∈ q.effectiveDirection.ends e, q.AtDistance s root n u := ⟨m, u, hu, h⟩
  refine ⟨Nat.find hex, Nat.find_min' hex ⟨u, hu, h⟩, Nat.find_spec hex, ?_⟩
  intro u' hu' n hn
  exact Nat.find_min' hex ⟨u', hu', hn⟩

theorem exists_leadsTo (e : GraphEdgeRecord) (n : ℕ) : ∃ v, q.LeadsTo s root e n v := by
  simp only [GraphQueryRequest.LeadsTo]
  cases q.effectiveDirection with
  | outward => exact ⟨_, rfl⟩
  | inward => exact ⟨_, rfl⟩
  | both =>
    by_cases h : q.AtDistance s root n e.fromNodeID
    · exact ⟨_, .inl ⟨h, rfl⟩⟩
    · exact ⟨_, .inr ⟨h, rfl⟩⟩

namespace Direction

variable {direction : Direction} {e : GraphEdgeRecord} {frontier : List ℤ} {u v : ℤ}

theorem connects_far (h : ∃ u ∈ direction.ends e, u ∈ frontier) :
    ∃ u ∈ frontier, direction.Connects e u (direction.far frontier e) := by
  obtain ⟨u, hu, hmem⟩ := h
  cases direction with
  | outward => exact ⟨u, hmem, mem_singleton.mp hu, rfl⟩
  | inward => exact ⟨u, hmem, mem_singleton.mp hu, rfl⟩
  | both =>
    by_cases hfrom : e.fromNodeID ∈ frontier
    · exact ⟨_, hfrom, .inl ⟨rfl, if_pos hfrom⟩⟩
    · rcases mem_pair.mp hu with rfl | rfl
      · exact absurd hmem hfrom
      · exact ⟨_, hmem, .inr ⟨rfl, if_neg hfrom⟩⟩

section

variable (h : direction.Connects e u v)
include h

theorem far_of_connects (hu : u ∈ frontier) (hv : v ∉ frontier) : direction.far frontier e = v := by
  cases direction with
  | outward => exact h.2.symm
  | inward => exact h.2.symm
  | both =>
    rcases h with ⟨rfl, rfl⟩ | ⟨rfl, rfl⟩
    · exact if_pos hu
    · exact if_neg hv

theorem mem_ends_of_connects : u ∈ direction.ends e := by
  cases direction with
  | outward => exact mem_singleton.mpr h.1
  | inward => exact mem_singleton.mpr h.1
  | both =>
    rcases h with h | h
    · exact mem_pair.mpr (.inl h.1)
    · exact mem_pair.mpr (.inr h.1)

theorem eq_or_eq_of_mem_ends {w : ℤ} (hw : w ∈ direction.ends e) : w = u ∨ w = v := by
  cases direction with
  | outward => exact .inl ((mem_singleton.mp hw).trans h.1.symm)
  | inward => exact .inl ((mem_singleton.mp hw).trans h.1.symm)
  | both =>
    rcases h with ⟨rfl, rfl⟩ | ⟨rfl, rfl⟩
    · exact mem_pair.mp hw
    · exact (mem_pair.mp hw).symm

end

end Direction

namespace Exact

variable {d : ℕ} {t : Traversal}

theorem start (s : GraphQuerySnapshot) (q : GraphQueryRequest) (root : ℤ) :
    Exact s q root 0 { frontier := [root], visited := [(root, 0)], works := [], next := [] } where
  frontier := by
    intro v
    exact mem_singleton.trans atDistance_zero.symm
  known := by
    intro v
    simp only [Traversal.known, map_cons, map_nil, mem_singleton, Nat.le_zero_eq, exists_eq_left]
    exact atDistance_zero.symm
  works := by
    intro w
    simp [GraphQueryRequest.Found]

variable {e : GraphEdgeRecord} {w : GraphEdgeWork} {d' : ℕ}

theorem leadsTo_iff (h : Exact s q root d t) {v : ℤ} :
    q.LeadsTo s root e d v ↔ v = q.effectiveDirection.far t.frontier e := by
  rw [GraphQueryRequest.LeadsTo.eq_def, far.eq_def]
  cases q.effectiveDirection with
  | outward => rfl
  | inward => rfl
  | both =>
    rw [← h.frontier]
    split_ifs with hfrom <;> simp [hfrom]

theorem nearest_of_fresh (h : Exact s q root d t) (he : e ∈ t.fresh s q maxRows) :
    e ∈ s.edges ∧ allowed q.relations e ∧ q.Nearest s root e d := by
  rw [mem_fresh, unseen_iff] at he
  obtain ⟨hmem, hunseen⟩ := he
  obtain ⟨he, hallowed, u, hu, hfrontier⟩ := mem_readEdges hmem
  have hdist := (h.frontier u).mp hfrontier
  obtain ⟨n, hn, hnearest⟩ := exists_nearest hu hdist
  rcases Nat.lt_or_eq_of_le hn with hlt | rfl
  · -- An endpoint on an earlier level would have brought the edge before.
    obtain ⟨v, hv⟩ := @exists_leadsTo s q root e n
    have hw := (h.works ⟨e, v, n + 1⟩).mpr ⟨he, hallowed, n, hlt, hnearest, rfl, hv⟩
    exact absurd rfl (hunseen _ hw)
  · exact ⟨he, hallowed, hnearest⟩

section

variable (h : Exact s q root d t)
  (hread : ∀ e ∈ s.edges, allowed q.relations e → (∃ u ∈ q.effectiveDirection.ends e,
      u ∈ t.frontier) → e ∈ s.readEdges t.frontier q.effectiveDirection q.relations maxRows)
include h hread

theorem mem_fresh_iff :
    e ∈ t.fresh s q maxRows ↔
      e ∈ s.edges ∧ allowed q.relations e ∧ q.Nearest s root e d := by
  constructor
  · exact h.nearest_of_fresh
  · intro ⟨he, hallowed, hnearest⟩
    obtain ⟨u, hu, hdist⟩ := hnearest.1
    rw [mem_fresh, unseen_iff]
    refine ⟨hread e he hallowed ⟨u, hu, (h.frontier u).mpr hdist⟩, ?_⟩
    intro w hw hid
    obtain ⟨hwe, -, n, hlt, hn, -⟩ := (h.works w).mp hw
    rw [s.edge_eq hwe he hid] at hn
    have := GraphQueryRequest.Nearest.unique hn hnearest
    omega

theorem mem_frontier_iff {v : ℤ} :
    (v ∉ t.known ∧ ∃ e ∈ t.fresh s q maxRows, v = q.effectiveDirection.far t.frontier e) ↔
      q.AtDistance s root (d + 1) v := by
  rw [GraphQueryRequest.AtDistance, atDistance_succ, h.known]
  constructor
  · intro ⟨hnew, e, he, hv⟩
    refine ⟨?_, fun m hm hdist ↦ hnew ⟨m, hm, hdist⟩⟩
    obtain ⟨hmem, hallowed, hends⟩ := mem_readEdges (mem_fresh.mp he).1
    obtain ⟨u, hu, hconnects⟩ := connects_far hends
    exact ⟨u, (h.frontier u).mp hu, e, hmem, hallowed, hv ▸ hconnects⟩
  · intro ⟨⟨u, hu, e, he, hallowed, hconnects⟩, hnew⟩
    refine ⟨fun ⟨m, hm, hdist⟩ ↦ hnew m hm hdist, e, ?_, ?_⟩
    · refine (h.mem_fresh_iff hread).mpr ⟨he, hallowed, ?_, ?_⟩
      · exact ⟨u, mem_ends_of_connects hconnects, hu⟩
      · intro w hw m hm
        rcases eq_or_eq_of_mem_ends hconnects hw with rfl | rfl
        · exact (AtDistance.unique hu hm).le
        · exact Nat.le_of_not_le fun hle ↦ hnew m hle hm
    · refine (far_of_connects hconnects ((h.frontier u).mpr hu) ?_).symm
      intro hv
      exact hnew d (le_refl d) ((h.frontier v).mp hv)

theorem level :
    Exact s q root (d + 1) (t.level s q maxRows (d + 1)) where
  frontier := by
    intro v
    rw [mem_level_frontier]
    exact h.mem_frontier_iff hread
  known := by
    intro v
    rw [mem_level_known, h.known]
    constructor
    · intro hv
      rcases hv with ⟨m, hm, hdist⟩ | ⟨e, he, hv⟩
      · exact ⟨m, Nat.le_succ_of_le hm, hdist⟩
      · by_cases hk : v ∈ t.known
        · obtain ⟨m, hm, hdist⟩ := (h.known v).mp hk
          exact ⟨m, Nat.le_succ_of_le hm, hdist⟩
        · exact ⟨d + 1, le_refl _, (h.mem_frontier_iff hread).mp ⟨hk, e, he, hv⟩⟩
    · intro ⟨m, hm, hdist⟩
      rcases Nat.lt_or_eq_of_le hm with hlt | rfl
      · exact .inl ⟨m, Nat.le_of_lt_succ hlt, hdist⟩
      · exact .inr ((h.mem_frontier_iff hread).mpr hdist).2
  works := by
    intro w
    rw [level_works, mem_append, h.works, mem_map]
    constructor
    · intro hw
      rcases hw with ⟨he, hallowed, n, hlt, hn⟩ | ⟨e, he, rfl⟩
      · exact ⟨he, hallowed, n, Nat.lt_succ_of_lt hlt, hn⟩
      · obtain ⟨hmem, hallowed, hnearest⟩ := (h.mem_fresh_iff hread).mp he
        exact ⟨hmem, hallowed, d, Nat.lt_succ_self d, hnearest, rfl, h.leadsTo_iff.mpr rfl⟩
    · intro ⟨he, hallowed, n, hlt, hnearest, hdistance, hleads⟩
      rcases Nat.lt_or_eq_of_le (Nat.le_of_lt_succ hlt) with hlt | rfl
      · exact .inl ⟨he, hallowed, n, hlt, hnearest, hdistance, hleads⟩
      · refine .inr ⟨w.edge, (h.mem_fresh_iff hread).mpr ⟨he, hallowed, hnearest⟩, ?_⟩
        rw [← h.leadsTo_iff.mp hleads, ← hdistance]

end

theorem level_found (h : Exact s q root d t) :
    ∀ w ∈ (t.level s q maxRows (d + 1)).works, q.Found s root (d + 1) w := by
  intro w hw
  rw [level_works, mem_append, h.works, mem_map] at hw
  rcases hw with ⟨he, hallowed, n, hlt, hn⟩ | ⟨e, he, rfl⟩
  · exact ⟨he, hallowed, n, Nat.lt_succ_of_lt hlt, hn⟩
  · obtain ⟨hmem, hallowed, hnearest⟩ := h.nearest_of_fresh he
    exact ⟨hmem, hallowed, d, Nat.lt_succ_self d, hnearest, rfl, h.leadsTo_iff.mpr rfl⟩

/-- The traversal is of the whole neighbourhood, or a row budget's worth of its items comes before
all that was found after the first cut. -/
def Covers (s : GraphQuerySnapshot) (q : GraphQueryRequest) (root : ℤ) (maxRows depth : ℕ)
    (works : List GraphEdgeWork) : Prop :=
  (∀ w, w ∈ works ↔ q.Found s root depth w) ∨
    ∃ exact more, works = exact ++ more ∧ maxRows ≤ exact.length ∧
      (∀ w ∈ exact, q.Found s root depth w) ∧
      ∀ w ∈ exact, ∀ w' ∈ more, w.distance < w'.distance

theorem found_mono (hle : d ≤ d') (h : q.Found s root d w) : q.Found s root d' w := by
  obtain ⟨he, hallowed, n, hlt, hn⟩ := h
  exact ⟨he, hallowed, n, Nat.lt_of_lt_of_le hlt hle, hn⟩

theorem found_distance (h : q.Found s root d w) : w.distance ≤ d := by
  obtain ⟨-, -, n, hlt, -, hdistance, -⟩ := h
  omega

theorem covers_of_full {n distance : ℕ} (hfound : ∀ w ∈ t.works, q.Found s root d w)
    (hfull : maxRows ≤ t.works.length) (hd : d < distance) (hle : d ≤ d') :
    Covers s q root maxRows d' (t.levels s q maxRows n distance).works := by
  obtain ⟨more, hmore, hdistance⟩ := @levels_works s q maxRows distance t n
  refine .inr ⟨t.works, more, hmore, hfull, fun w hw ↦ found_mono hle (hfound w hw), ?_⟩
  intro w hw w' hw'
  have := found_distance (hfound w hw)
  have := hdistance w' hw'
  omega

theorem found_of_empty (h : Exact s q root d t) (hempty : t.frontier = []) (hle : d ≤ d') :
    q.Found s root d w ↔ q.Found s root d' w := by
  constructor
  · exact found_mono hle
  · intro ⟨he, hallowed, m, hm, hnearest, hw⟩
    refine ⟨he, hallowed, m, ?_, hnearest, hw⟩
    by_contra hge
    obtain ⟨u, -, hu⟩ := hnearest.1
    refine not_atDistance_of_le (n := d) ?_ (Nat.not_lt.mp hge) u hu
    intro v hv
    have := (h.frontier v).mpr hv
    rw [hempty] at this
    exact not_mem_nil this

theorem levels {n : ℕ} (h : Exact s q root d t) (hsound : Sound s t)
    (hcount : t.frontier.length ≤ t.works.length + 1) :
    Covers s q root maxRows (d + n) (t.levels s q maxRows n (d + 1)).works := by
  induction n generalizing d t with
  | zero => exact .inl h.works
  | succ n ih =>
    rcases Nat.lt_or_ge maxRows t.frontier.length with hcut | hfrontier
    · -- The frontier itself is cut: as many work items led to it.
      exact covers_of_full (fun w hw ↦ (h.works w).mp hw) (by omega) (Nat.lt_succ_self d)
        (by omega)
    rw [levels]
    rcases Nat.lt_or_ge (s.readEdges t.frontier q.effectiveDirection q.relations maxRows).length
      maxRows with hread | hcut
    · have hnext : Exact s q root (d + 1) (t.level s q maxRows (d + 1)) := by
        apply h.level
        intro e he hallowed hends
        exact readEdges_complete hfrontier hread he hallowed hends
      split_ifs with hempty
      · refine .inl fun w ↦ (hnext.works w).trans ?_
        exact hnext.found_of_empty hempty (by omega)
      · have hsum : d + (n + 1) = d + 1 + n := by omega
        rw [hsum]
        apply ih hnext hsound.level
        have hle := @length_level_frontier s q maxRows (d + 1) t
        rw [level_works, length_append, length_map]
        omega
    · -- The rows are cut: those that were read fill the budget.
      have hfull := hcut.trans (@length_readEdges_le _ q _ (d + 1) _ hsound.edges)
      split_ifs
      · refine .inr ⟨_, [], (append_nil _).symm, hfull, ?_, by simp⟩
        exact fun w hw ↦ found_mono (by omega) (h.level_found w hw)
      · exact covers_of_full h.level_found hfull (Nat.lt_succ_self _) (by omega)

end Exact

theorem traverse_covers (s : GraphQuerySnapshot) (q : GraphQueryRequest) (root : ℤ) (maxRows : ℕ) :
    Exact.Covers s q root maxRows q.depth (traverse s q root maxRows).works := by
  rw [← Nat.zero_add q.depth]
  exact (Exact.start s q root).levels ⟨by simp, by simp, by simp⟩ (by simp)

theorem traverse_complete (h : (traverse s q root maxRows).works.length < maxRows)
    (w : GraphEdgeWork) :
    w ∈ (traverse s q root maxRows).works ↔ q.Found s root q.depth w := by
  rcases traverse_covers s q root maxRows with hall | ⟨exact, more, hworks, hfull, -⟩
  · exact hall w
  · rw [hworks, length_append] at h
    omega

/-- What a cut after `d` levels leaves: edges of the neighbourhood, none nearer than it is. -/
structure Walked (s : GraphQuerySnapshot) (q : GraphQueryRequest) (root : ℤ) (d : ℕ)
    (t : Traversal) : Prop where
  frontier : ∀ v ∈ t.frontier, Walk (q.Step s) root d v
  works : ∀ w ∈ t.works, w.edge ∈ s.edges ∧ allowed q.relations w.edge ∧ w.distance ≤ d ∧
    ∃ n < w.distance, q.Nearest s root w.edge n

namespace Walked

variable {d : ℕ} {t : Traversal}

theorem level (h : Walked s q root d t) :
    Walked s q root (d + 1) (t.level s q maxRows (d + 1)) where
  frontier := by
    intro v hv
    obtain ⟨-, e, hfresh, rfl⟩ := mem_level_frontier.mp hv
    obtain ⟨he, hallowed, hends⟩ := mem_readEdges (mem_fresh.mp hfresh).1
    obtain ⟨u, hu, hconnects⟩ := connects_far hends
    exact (h.frontier u hu).step ⟨e, he, hallowed, hconnects⟩
  works := by
    intro w hw
    rw [level_works, mem_append, mem_map] at hw
    rcases hw with hw | ⟨e, hfresh, rfl⟩
    · obtain ⟨he, hallowed, hle, hnear⟩ := h.works w hw
      exact ⟨he, hallowed, Nat.le_succ_of_le hle, hnear⟩
    · obtain ⟨he, hallowed, u, hu, hmem⟩ := mem_readEdges (mem_fresh.mp hfresh).1
      obtain ⟨m, hm, hdist⟩ := (h.frontier u hmem).exists_atDistance
      obtain ⟨n, hn, hnearest⟩ := exists_nearest hu hdist
      exact ⟨he, hallowed, le_refl _, n, Nat.lt_succ_of_le (hn.trans hm), hnearest⟩

theorem levels (h : Walked s q root d t) (k : ℕ) :
    ∃ d' ≤ d + k, Walked s q root d' (t.levels s q maxRows k (d + 1)) := by
  induction k generalizing d t with
  | zero => exact ⟨d, le_refl d, h⟩
  | succ k ih =>
    rw [levels]
    split_ifs
    · exact ⟨d + 1, by omega, h.level⟩
    · obtain ⟨d', hd', hwalked⟩ := ih h.level
      exact ⟨d', by omega, hwalked⟩

end Walked

end Exact

section Items

variable {host : GraphQueryHost} {s : GraphQuerySnapshot} {q : GraphQueryRequest}
  {w : GraphEdgeWork} {item : GraphQueryItem}

structure Shows (w : GraphEdgeWork) (item : GraphQueryItem) : Prop where
  edgeID : item.edgeID = w.edge.edgeID
  edgeKey : item.edgeKey = hexString w.edge.edgeKey
  relation : item.relation = w.edge.relation
  status : item.status = w.edge.claimStatus
  distance : item.distance = w.distance

theorem shows_of_graphItem (h : graphItem s w = .ok item) : Shows w item := by
  obtain ⟨n, -, h⟩ := bind_eq_ok.mp h
  obtain ⟨source, -, h⟩ := bind_eq_ok.mp h
  obtain ⟨target, -, h⟩ := bind_eq_ok.mp h
  obtain rfl := pure_eq_ok.mp h
  exact ⟨rfl, rfl, rfl, rfl, rfl⟩

theorem admitItems_eq (units : ℕ) (any : Bool) (items : List GraphQueryItem) :
    ∃ n, (admitItems host q units any items).1 = items.take n := by
  induction items generalizing units any with
  | nil => exact ⟨0, rfl⟩
  | cons item rest ih =>
    rw [admitItems]
    split_ifs
    · exact ⟨0, rfl⟩
    · obtain ⟨n, hn⟩ := ih (units + (host.jsonSize item + 3) / 4) true
      refine ⟨n + 1, ?_⟩
      rw [take_succ_cons, ← hn]

theorem admitItems_ne_nil {items : List GraphQueryItem} (h : items ≠ []) :
    (admitItems host q 0 false items).1 ≠ [] := by
  cases items with
  | nil => exact absurd rfl h
  | cons item rest => simp [admitItems]

variable (all : List GraphQueryItem) (visited frontier offset : ℕ)

theorem finalize_items :
    ∃ n ≤ q.limit, (finalizeGraphItems host s q all visited frontier offset).items =
      (all.drop (min offset all.length)).take n := by
  obtain ⟨n, hn⟩ := @admitItems_eq host q 0 false
    ((all.drop (min offset all.length)).take q.limit)
  refine ⟨min n q.limit, Nat.min_le_right _ _, ?_⟩
  rw [← take_take]
  exact hn

theorem finalize_truncated :
    (finalizeGraphItems host s q all visited frontier offset).truncated = true ↔
      min offset all.length +
        (finalizeGraphItems host s q all visited frontier offset).items.length < all.length :=
  decide_eq_true_iff

theorem graphNeighborhood_eq {root : GraphNodeRecord} {offset : ℕ}
    (hroot : s.resolveGraphSelector q.selector = .ok [root]) :
    graphNeighborhood host s q offset = neighborhoodPage host s q root.nodeID offset := by
  rw [graphNeighborhood, hroot]
  rfl

theorem neighborhoodPage_eq_ok {root : ℤ} {offset : ℕ} {env : GraphEnvelope} :
    neighborhoodPage host s q root offset = .ok env ↔
      ∃ items, (traverse s q root (q.limit + offset + 1)).works.mapM (graphItem s) = .ok items ∧
        finalizeGraphItems host s q (sortGraphItems host items)
          (traverse s q root (q.limit + offset + 1)).visited.length
          (traverse s q root (q.limit + offset + 1)).frontier.length offset = env := by
  rw [neighborhoodPage, bind_eq_ok]
  simp only [pure_eq_ok]

end Items

/-- The edges of the neighbourhood, each in one item, one further than the endpoint it is traversed
from. -/
structure Complete (s : GraphQuerySnapshot) (q : GraphQueryRequest) (root : ℤ)
    (items : List GraphQueryItem) : Prop where
  edges : ∀ e ∈ s.edges, (∃ item ∈ items, item.edgeID = e.edgeID) ↔
    allowed q.relations e ∧
      ∃ u ∈ q.effectiveDirection.ends e, ∃ n < q.depth, q.AtDistance s root n u
  once : (items.map (·.edgeID)).Nodup
  distance : ∀ item ∈ items, ∃ e ∈ s.edges, item.edgeID = e.edgeID ∧
    item.edgeKey = hexString e.edgeKey ∧ item.relation = e.relation ∧
    ∃ n, q.Nearest s root e n ∧ item.distance = n + 1

section Answer

variable {host : GraphQueryHost} {s : GraphQuerySnapshot} {q : GraphQueryRequest} {root : ℤ}
  {works : List GraphEdgeWork} {items items' : List GraphQueryItem}

theorem map_edgeID (h : List.Forall₂ Shows works items) :
    items.map (·.edgeID) = works.map (·.edge.edgeID) := by
  symm
  rw [← forall₂_eq_eq_eq, forall₂_map_left_iff, forall₂_map_right_iff]
  exact h.imp fun _ _ h ↦ h.edgeID.symm

theorem complete_of_works (hfound : ∀ w, w ∈ works ↔ q.Found s root q.depth w)
    (hnodup : (works.map (·.edge.edgeID)).Nodup) (hitems : List.Forall₂ Shows works items)
    (hperm : items'.Perm items) : Complete s q root items' := by
  have hof : ∀ w ∈ works, ∃ item ∈ items', Shows w item := by
    intro w hw
    obtain ⟨item, hitem, hshows⟩ := exists_of_mem_left hitems hw
    exact ⟨item, hperm.mem_iff.mpr hitem, hshows⟩
  have hback : ∀ item ∈ items', ∃ w ∈ works, Shows w item := by
    intro item hitem
    obtain ⟨w, hw, hshows⟩ := exists_of_mem_right hitems (hperm.mem_iff.mp hitem)
    exact ⟨w, hw, hshows⟩
  refine ⟨?_, ?_, ?_⟩
  · intro e he
    constructor
    · intro ⟨item, hitem, hid⟩
      obtain ⟨w, hw, hshows⟩ := hback item hitem
      obtain ⟨hwe, hallowed, n, hn, hnearest, -⟩ := (hfound w).mp hw
      rw [s.edge_eq hwe he (hshows.edgeID.symm.trans hid)] at hallowed hnearest
      obtain ⟨u, hu, hdist⟩ := hnearest.1
      exact ⟨hallowed, u, hu, n, hn, hdist⟩
    · intro ⟨hallowed, u, hu, m, hm, hdist⟩
      obtain ⟨n, hn, hnearest⟩ := exists_nearest hu hdist
      obtain ⟨v, hv⟩ := @exists_leadsTo s q root e n
      have hw := (hfound ⟨e, v, n + 1⟩).mpr
        ⟨he, hallowed, n, Nat.lt_of_le_of_lt hn hm, hnearest, rfl, hv⟩
      obtain ⟨item, hitem, hshows⟩ := hof _ hw
      exact ⟨item, hitem, hshows.edgeID⟩
  · rwa [(hperm.map _).nodup_iff, map_edgeID hitems]
  · intro item hitem
    obtain ⟨w, hw, hshows⟩ := hback item hitem
    obtain ⟨hwe, -, n, -, hnearest, hdistance, -⟩ := (hfound w).mp hw
    exact ⟨w.edge, hwe, hshows.edgeID, hshows.edgeKey, hshows.relation, n, hnearest,
      hshows.distance.trans hdistance⟩

end Answer

theorem untruncated_complete (host : GraphQueryHost) (s : GraphQuerySnapshot)
    (q : GraphQueryRequest) (root : GraphNodeRecord) (env : GraphEnvelope)
    (hroot : s.resolveGraphSelector q.selector = .ok [root])
    (henv : graphNeighborhood host s q 0 = .ok env) (htruncated : env.truncated = false) :
    Complete s q root.nodeID env.items := by
  rw [graphNeighborhood_eq hroot] at henv
  obtain ⟨items, hitems, rfl⟩ := neighborhoodPage_eq_ok.mp henv
  rw [mapM_eq_ok] at hitems
  have hperm : (sortGraphItems host items).Perm items := perm_insertionSort _ _
  obtain ⟨n, hn, hpage⟩ := @finalize_items host s q
    (sortGraphItems host items) (traverse s q root.nodeID (q.limit + 0 + 1)).visited.length
    (traverse s q root.nodeID (q.limit + 0 + 1)).frontier.length 0
  have hall := mt (finalize_truncated _ _ _ _).mpr (Bool.eq_false_iff.mp htruncated)
  rw [Nat.zero_min, drop_zero] at hpage
  rw [hpage, Nat.zero_min, length_take] at hall
  -- The page holds all the items, so there are no more of them than the limit.
  have hlength : (traverse s q root.nodeID (q.limit + 0 + 1)).works.length <
      q.limit + 0 + 1 := by
    rw [hitems.length_eq, ← hperm.length_eq]
    omega
  rw [hpage, take_of_length_le (by omega)]
  exact complete_of_works (traverse_complete hlength) (traverse_sound _ _ _ _).distinct
    (hitems.imp fun _ _ h ↦ shows_of_graphItem h) hperm

/-- Also from a cut listing: edges of the neighbourhood, each once, none nearer than it is. -/
structure SoundPage (s : GraphQuerySnapshot) (q : GraphQueryRequest) (root : ℤ)
    (items : List GraphQueryItem) : Prop where
  once : (items.map (·.edgeID)).Nodup
  edges : ∀ item ∈ items, ∃ w, Shows w item ∧ w.edge ∈ s.edges ∧ allowed q.relations w.edge ∧
    item.distance ≤ q.depth ∧ ∃ n < item.distance, q.Nearest s root w.edge n

theorem neighborhood_page_sound (host : GraphQueryHost) (s : GraphQuerySnapshot)
    (q : GraphQueryRequest) (root : GraphNodeRecord) (offset : ℕ) (env : GraphEnvelope)
    (hroot : s.resolveGraphSelector q.selector = .ok [root])
    (henv : graphNeighborhood host s q offset = .ok env) : SoundPage s q root.nodeID env.items := by
  rw [graphNeighborhood_eq hroot] at henv
  obtain ⟨items, hitems, rfl⟩ := neighborhoodPage_eq_ok.mp henv
  have hshows := (mapM_eq_ok.mp hitems).imp fun _ _ h ↦ shows_of_graphItem h
  have hperm : (sortGraphItems host items).Perm items := perm_insertionSort _ _
  obtain ⟨n, -, hpage⟩ := @finalize_items host s q (sortGraphItems host items) _ _ offset
  have hsub := (take_sublist n _).trans
    (drop_sublist (min offset (sortGraphItems host items).length) (sortGraphItems host items))
  obtain ⟨d, hd, hwalked⟩ : ∃ d ≤ 0 + q.depth,
      Walked s q root.nodeID d (traverse s q root.nodeID (q.limit + offset + 1)) :=
    Walked.levels ⟨fun v hv ↦ mem_singleton.mp hv ▸ .root, by simp⟩ q.depth
  rw [hpage]
  constructor
  · refine (hsub.map _).nodup ?_
    rw [(hperm.map _).nodup_iff, map_edgeID hshows]
    exact (traverse_sound _ _ _ _).distinct
  · intro item hitem
    obtain ⟨w, hw, h⟩ := exists_of_mem_right hshows (hperm.mem_iff.mp (hsub.subset hitem))
    obtain ⟨he, hallowed, hle, hnear⟩ := hwalked.works w hw
    rw [h.distance]
    exact ⟨w, h, he, hallowed, by omega, hnear⟩

section Sample

def sampleDigest (n : UInt8) : GraphDigest := Vector.replicate 32 n

def sampleNode (id : ℤ) (name : String) : GraphNodeRecord where
  generationID := zeroDigest
  nodeID := id
  nodeKey := sampleDigest (UInt8.ofNat (id.toNat + 1))
  identity :=
    { repositoryIdentity := "r"
      backendType := "go"
      language := "go"
      projectOrModule := "m"
      ownerPath := "a.go"
      symbolKind := "function"
      semanticIdentity := name }
  identitySchema := "1"
  displayName := name
  sourceDigest := zeroDigest
  claimStatus := "exact"
  crossRID := ""
  sortKey := name

def sampleEdge (id source target : ℤ) : GraphEdgeRecord where
  generationID := zeroDigest
  edgeID := id
  edgeKey := sampleDigest (UInt8.ofNat (id.toNat + 1))
  fromNodeID := source
  toNodeID := target
  relation := "calls"
  claimScope := "s"
  claimStatus := "exact"
  ownerPath := "a.go"
  sourceBackend := "go"
  crossRID := ""

def sampleHost : GraphQueryHost where
  toLower := id
  jsonSize := fun _ ↦ 400

def sampleCycle : GraphQuerySnapshot where
  generationID := zeroDigest
  unresolvedCount := 0
  nodes := [sampleNode 0 "a", sampleNode 1 "b"]
  edges := [sampleEdge 0 0 1, sampleEdge 1 1 0]
  evidence := []
  nodeIDs := by decide
  edgeIDs := by decide
  edgeKeys := by decide +kernel
  endpoints := by decide

def sampleCallees : GraphQueryRequest where
  operation := .callees
  selector := "a"
  depth := 2
  limit := 50
  tokenBudget := 4000
  direction := .outward
  relations := ["calls"]
  depth_pos := by decide
  limit_pos := by decide

theorem sampleCycle_page :
    sampleCycle.resolveGraphSelector sampleCallees.selector = .ok [sampleNode 0 "a"] ∧
      ∃ env, graphNeighborhood sampleHost sampleCycle sampleCallees 0 = .ok env ∧
        env.truncated = false ∧ ∃ item ∈ env.items, item.edgeID = 1 ∧ item.distance = 2 := by
  have hpage : ((graphNeighborhood sampleHost sampleCycle sampleCallees 0).toOption.any fun env ↦
      !env.truncated && env.items.any fun item ↦ item.edgeID = 1 && item.distance = 2) = true := by
    decide +kernel
  obtain ⟨env, henv, hpage⟩ := any_toOption.mp hpage
  simp only [Bool.and_eq_true, Bool.not_eq_true', any_eq_true, decide_eq_true_eq] at hpage
  exact ⟨toOption_eq_some.mp (by decide +kernel), env, henv, hpage.1, hpage.2⟩

theorem sampleCycle_complete :
    ∃ env, graphNeighborhood sampleHost sampleCycle sampleCallees 0 = .ok env ∧
      env.truncated = false ∧
      Complete sampleCycle sampleCallees (sampleNode 0 "a").nodeID env.items := by
  obtain ⟨hroot, env, henv, htruncated, -⟩ := sampleCycle_page
  exact ⟨env, henv, htruncated, untruncated_complete _ _ _ _ env hroot henv htruncated⟩

theorem sampleCycle_page_sound :
    ∃ env, graphNeighborhood sampleHost sampleCycle sampleCallees 0 = .ok env ∧ env.items ≠ [] ∧
      SoundPage sampleCycle sampleCallees (sampleNode 0 "a").nodeID env.items := by
  obtain ⟨hroot, env, henv, -, item, hitem, -⟩ := sampleCycle_page
  exact ⟨env, henv, ne_nil_of_mem hitem, neighborhood_page_sound _ _ _ _ 0 env hroot henv⟩

/-- The least distance of either endpoint, whichever way the edge is traversed. -/
def GraphQueryRequest.NearerEndpoint (s : GraphQuerySnapshot) (q : GraphQueryRequest) (root : ℤ)
    (e : GraphEdgeRecord) (n : ℕ) : Prop :=
  (∃ u ∈ [e.fromNodeID, e.toNodeID], q.AtDistance s root n u) ∧
    ∀ u ∈ [e.fromNodeID, e.toNodeID], ∀ m, q.AtDistance s root m u → n ≤ m

theorem sampleCycle_back_edge :
    ∃ env, graphNeighborhood sampleHost sampleCycle sampleCallees 0 = .ok env ∧
      env.truncated = false ∧
      ∃ item ∈ env.items, item.edgeID = (sampleEdge 1 1 0).edgeID ∧
        GraphQueryRequest.NearerEndpoint sampleCycle sampleCallees 0 (sampleEdge 1 1 0) 0 ∧
        item.distance ≠ 0 + 1 := by
  obtain ⟨-, env, henv, htruncated, item, hitem, hid, hdistance⟩ := sampleCycle_page
  refine ⟨env, henv, htruncated, item, hitem, hid, ⟨⟨0, by simp [sampleEdge], ?_⟩, ?_⟩, ?_⟩
  · exact atDistance_zero.mpr rfl
  · intro u _ m _
    exact Nat.zero_le m
  · rw [hdistance]
    decide

end Sample

end MiLsp.Query
