import MiLsp.Query.Impact
import MiLsp.Query.Frontier

namespace MiLsp.Query

open MiLsp.Graph Library.Attempt List ImpactSearch ImpactSnapshot
open GraphImpactRequest

section Spec

variable (host : ImpactHost) (s : ImpactSnapshot) (q : GraphImpactRequest)

def GraphImpactRequest.Owned (n : GraphNodeRecord) : Prop :=
  ∃ path ∈ q.paths, normalizeImpactPath path ≠ "" ∧
    n.identity.ownerPath = normalizeImpactPath path

instance (n : GraphNodeRecord) : Decidable (q.Owned n) :=
  inferInstanceAs (Decidable (∃ path ∈ q.paths, _))

def GraphImpactRequest.Follows (e : GraphEdgeRecord) : Prop :=
  e ∈ s.edges ∧ requested host q.relations e.relation ∧ e.claimStatus ∈ ["exact", "extracted"]

/-- The nodes reached from the owned ones in a number of steps through transitive relations. -/
inductive GraphImpactRequest.Carries : ℕ → ℤ → Prop
  | seed {n : GraphNodeRecord} : n ∈ s.nodes → q.Owned n → Carries 0 n.nodeID
  | step {k : ℕ} {e : GraphEdgeRecord} : Carries k e.toNodeID → q.Follows host s e →
      impactRelationCanTraverse host e.relation → Carries (k + 1) e.fromNodeID

def GraphImpactRequest.Impacted (v : ℤ) : Prop :=
  ∃ k < q.maxDepth, ∃ e, q.Follows host s e ∧ q.Carries host s k e.toNodeID ∧ e.fromNodeID = v

inductive AtLevel : ℕ → ImpactSearch → Prop
  | start : AtLevel 0 (impactStart (s.resolveImpactSeeds q.paths maxImpactSeeds).nodes)
  | next {k : ℕ} {t t' : ImpactSearch} : AtLevel k t → k + 1 < q.maxDepth →
      t.level host s q (k + 1) = .ok t' →
      AtLevel (k + 1) { t' with frontier := uniqueImpactInts t'.next }

/-- The edge leads to a node that is not yet visited but has a path that comes no later. -/
def PassedOver (depth : ℕ) (t : ImpactSearch) (e : GraphEdgeRecord) : Prop :=
  impactRelationCanTraverse host e.relation ∧ e.fromNodeID ∉ t.visited ∧
    ∃ path item, t.itemOf s depth e = .ok (path, item) ∧ t.settled e.fromNodeID path

structure Unbounded (k : ℕ) (t : ImpactSearch) : Prop where
  frontier : t.frontier.length ≤ q.limit
  edges : (s.edgesInto host q.relations ["exact", "extracted"] t.frontier).length ≤ q.limit
  followed : k + 1 < q.maxDepth → ∀ before e after t', t.primaryEdges host s q =
    before ++ e :: after →
    before.foldlM (ImpactSearch.visitPrimary host s (k + 1)) { t with next := [] } = .ok t' →
    ¬PassedOver host s (k + 1) t' e

structure WithinBudgets : Prop where
  seeds : (s.nodes.filter fun n ↦ q.Owned n).length ≤ maxImpactSeeds
  levels : ∀ k t, AtLevel host s q k t → Unbounded host s q k t

end Spec

section Seeds

variable {s : ImpactSnapshot} {q : GraphImpactRequest}

theorem take_append_of_take {α : Type} (m : ℕ) (a b : List α) :
    (a.take m ++ b).take m = (a ++ b).take m := by
  rcases Nat.le_total a.length m with h | h
  · rw [take_of_length_le h]
  · rw [take_append_of_le_length h, take_append_of_le_length, take_take, Nat.min_self]
    rw [length_take]
    omega

variable {path : String} {n : GraphNodeRecord}

section

variable {max : ℕ} {r : GraphImpactSeedResolution} (h : r.nodes.length ≤ max)
include h

theorem resolveSeed_nodes :
    (s.resolveSeed max r path).nodes = (r.nodes ++ s.nodesOwnedBy path).take max := by
  rw [resolveSeed, take_append, take_of_length_le h]
  generalize s.nodesOwnedBy path = rows
  by_cases hfull : max ≤ r.nodes.length
  · rw [if_pos hfull, Nat.sub_eq_zero_of_le hfull, take_zero, append_nil]
  rw [if_neg hfull]
  by_cases hnone : rows.take (max - r.nodes.length + 1) = []
  · rw [if_pos hnone]
    have hrows : rows = [] := by
      rcases take_eq_nil_iff.mp hnone with h | h
      · omega
      · exact h
    rw [hrows, take_nil, append_nil]
  rw [if_neg hnone, length_take]
  split_ifs with hmany
  · rw [take_take, Nat.min_eq_left (Nat.le_succ _)]
  · have hfew : rows.length ≤ max - r.nodes.length := by omega
    rw [take_of_length_le hfew, take_of_length_le (by omega)]

theorem foldl_resolveSeed {paths : List String} :
    (paths.foldl (s.resolveSeed max) r).nodes =
      (r.nodes ++ paths.flatMap s.nodesOwnedBy).take max := by
  induction paths generalizing r with
  | nil => simp [take_of_length_le h]
  | cons path paths ih =>
    have hstep := @resolveSeed_nodes s path _ _ h
    have hle : (s.resolveSeed max r path).nodes.length ≤ max := by
      rw [hstep, length_take]
      omega
    rw [foldl_cons, ih hle, hstep, take_append_of_take, flatMap_cons, append_assoc]

end

theorem mem_nodesOwnedBy : n ∈ s.nodesOwnedBy path ↔ n ∈ s.nodes ∧ n.identity.ownerPath = path := by
  simp [nodesOwnedBy, (perm_insertionSort _ _).mem_iff]

theorem mem_canonicalPaths {paths : List String} :
    path ∈ canonicalPaths paths ↔ ∃ p ∈ paths, normalizeImpactPath p = path ∧ path ≠ "" := by
  rw [canonicalPaths, (perm_insertionSort _ _).mem_iff, mem_dedup, mem_filter,
    mem_map, decide_eq_true_eq]
  constructor
  · intro ⟨⟨p, hp, heq⟩, hne⟩
    exact ⟨p, hp, heq, hne⟩
  · intro ⟨p, hp, heq, hne⟩
    exact ⟨⟨p, hp, heq⟩, hne⟩

theorem mem_owned :
    n ∈ (canonicalPaths q.paths).flatMap s.nodesOwnedBy ↔ n ∈ s.nodes ∧ q.Owned n := by
  rw [mem_flatMap]
  constructor
  · intro ⟨path, hpath, hn⟩
    obtain ⟨hmem, rfl⟩ := mem_nodesOwnedBy.mp hn
    obtain ⟨p, hp, heq, hne⟩ := mem_canonicalPaths.mp hpath
    exact ⟨hmem, p, hp, heq ▸ hne, heq.symm⟩
  · intro ⟨hmem, p, hp, hne, heq⟩
    exact ⟨_, mem_canonicalPaths.mpr ⟨p, hp, rfl, hne⟩, mem_nodesOwnedBy.mpr ⟨hmem, heq⟩⟩

theorem nodup_owned : ((canonicalPaths q.paths).flatMap s.nodesOwnedBy).Nodup := by
  refine nodup_flatMap.mpr ⟨?_, ?_⟩
  · intro path _
    exact (perm_insertionSort _ _).nodup_iff.mpr ((List.Nodup.of_map _ s.nodeIDs).filter _)
  · have hnodup : (canonicalPaths q.paths).Nodup :=
      (perm_insertionSort _ _).nodup_iff.mpr (nodup_dedup _)
    refine hnodup.imp ?_
    intro a b hab n ha hb
    exact hab ((mem_nodesOwnedBy.mp ha).2.symm.trans (mem_nodesOwnedBy.mp hb).2)

theorem resolveImpactSeeds_complete
    (hbudget : (s.nodes.filter fun n ↦ q.Owned n).length ≤ maxImpactSeeds) (hmem : n ∈ s.nodes)
    (howned : q.Owned n) : n ∈ (s.resolveImpactSeeds q.paths maxImpactSeeds).nodes := by
  have hle : ((canonicalPaths q.paths).flatMap s.nodesOwnedBy).length ≤ maxImpactSeeds := by
    refine (subperm_of_subset nodup_owned ?_).length_le.trans hbudget
    intro m hm
    obtain ⟨hm, ho⟩ := mem_owned.mp hm
    exact mem_filter.mpr ⟨hm, decide_eq_true ho⟩
  rw [resolveImpactSeeds, foldl_resolveSeed (Nat.zero_le _), nil_append, take_of_length_le hle]
  exact mem_owned.mpr ⟨hmem, howned⟩

end Seeds

section Visit

variable {host : ImpactHost} {s : ImpactSnapshot} {q : GraphImpactRequest} {depth : ℕ}
  {t t' : ImpactSearch} {e : GraphEdgeRecord}

def ImpactSearch.Shown (t : ImpactSearch) (v : ℤ) : Prop := ∃ x ∈ t.primary, x.nodeID = v

/-- Items are of stored nodes, every node with a path of a step has one, and what is next is
visited. -/
structure Kept (s : ImpactSnapshot) (t : ImpactSearch) : Prop where
  items : ∀ x ∈ t.primary, ∃ n ∈ s.nodes, x.crossRID = n.crossRID ∧ x.nodeID = n.nodeID
  paths : ∀ v path, t.path v = some path → impactPathKey path ≠ [] → t.Shown v
  nonneg : ∀ v ∈ t.visited, 0 ≤ v
  next : ∀ v ∈ t.next, v ∈ t.visited

structure Extends (t t' : ImpactSearch) : Prop where
  frontier : t'.frontier = t.frontier
  shown : ∀ v, t.Shown v → t'.Shown v
  visited : ∀ v ∈ t.visited, v ∈ t'.visited
  next : ∀ v ∈ t'.visited, v ∈ t.visited ∨ v ∈ t'.next
  nextMono : ∀ v ∈ t.next, v ∈ t'.next

theorem Extends.refl (t : ImpactSearch) : Extends t t where
  frontier := rfl
  shown := fun _ h ↦ h
  visited := fun _ h ↦ h
  next := fun _ h ↦ .inl h
  nextMono := fun _ h ↦ h

theorem Extends.trans {t₁ t₂ t₃ : ImpactSearch} (h : Extends t₁ t₂) (h' : Extends t₂ t₃) :
    Extends t₁ t₃ where
  frontier := h'.frontier.trans h.frontier
  shown := fun v hv ↦ h'.shown v (h.shown v hv)
  visited := fun v hv ↦ h'.visited v (h.visited v hv)
  next := by
    intro v hv
    rcases h'.next v hv with hv | hv
    · exact (h.next v hv).imp id (h'.nextMono v)
    · exact .inr hv
  nextMono := fun v hv ↦ h'.nextMono v (h.nextMono v hv)

theorem node_mem {id : ℤ} {n : GraphNodeRecord} (h : s.node id = some n) :
    n ∈ s.nodes ∧ n.nodeID = id := by
  have hid := find?_some h
  exact ⟨mem_of_find?_eq_some h, of_decide_eq_true hid⟩

theorem node_eq {n m : GraphNodeRecord} (hn : n ∈ s.nodes) (hm : m ∈ s.nodes)
    (h : n.crossRID = m.crossRID) : n = m := by
  rw [s.crossRIDs n hn, s.crossRIDs m hm] at h
  exact inj_on_of_nodup_map s.nodeKeys hn hm (nodeRID_injective h)

variable {path : List GraphImpactPathStep} {item : GraphImpactItem} {items : List GraphImpactItem}
  {edges : List GraphEdgeRecord} {x : GraphImpactItem}

theorem itemOf_eq_ok (h : t.itemOf s depth e = .ok (path, item)) :
    ∃ n ∈ s.nodes, n.nodeID = e.fromNodeID ∧ item.crossRID = n.crossRID ∧
      item.nodeID = n.nodeID := by
  obtain ⟨step, -, h⟩ := bind_eq_ok.mp h
  obtain ⟨n, hn, h⟩ := bind_eq_ok.mp h
  obtain ⟨hmem, hid⟩ := node_mem (orElse_eq_ok.mp hn)
  obtain ⟨-, rfl⟩ := Prod.mk.inj (pure_eq_ok.mp h)
  exact ⟨n, hmem, hid, rfl, rfl⟩

theorem mem_putItem (h : x ∈ putItem items item) : x ∈ items ∨ x = item := by
  rw [putItem] at h
  split_ifs at h
  · obtain ⟨y, hy, rfl⟩ := mem_map.mp h
    split_ifs
    · exact .inr rfl
    · exact .inl hy
  · exact (mem_append.mp h).imp id mem_singleton.mp

theorem putItem_self (items : List GraphImpactItem) (item : GraphImpactItem) :
    item ∈ putItem items item := by
  rw [putItem]
  split_ifs with h
  · obtain ⟨y, hy, heq⟩ := any_eq_true.mp h
    exact mem_map.mpr ⟨y, hy, if_pos (of_decide_eq_true heq)⟩
  · exact mem_append_right _ (mem_singleton.mpr rfl)

theorem putItem_keeps (h : x ∈ items) : x ∈ putItem items item ∨ x.crossRID = item.crossRID := by
  rw [putItem]
  split_ifs
  · by_cases heq : x.crossRID = item.crossRID
    · exact .inr heq
    · exact .inl (mem_map.mpr ⟨x, h, if_neg heq⟩)
  · exact .inl (mem_append_left _ h)

theorem record_extends (hkept : Kept s t) (h : t.itemOf s depth e = .ok (path, item)) :
    Extends t (t.record host e path item) := by
  obtain ⟨n, hn, hid, hrid, hnode⟩ := itemOf_eq_ok h
  refine ⟨rfl, ?_, ?_, ?_, ?_⟩
  · intro v ⟨x, hx, hv⟩
    rcases @putItem_keeps item _ _ hx with hmem | heq
    · exact ⟨x, hmem, hv⟩
    · obtain ⟨m, hm, hmr, hmid⟩ := hkept.items x hx
      have hsame := node_eq hm hn (hmr.symm.trans (heq.trans hrid))
      refine ⟨item, putItem_self _ _, ?_⟩
      rw [hnode, ← hsame, ← hmid, hv]
  · intro v hv
    simp only [record]
    split_ifs
    · exact mem_append_left _ hv
    · exact hv
  · intro v hv
    simp only [record] at hv ⊢
    split_ifs at hv ⊢
    · rcases mem_append.mp hv with hv | hv
      · exact .inl hv
      · exact .inr (mem_append_right _ hv)
    · exact .inl hv
  · intro v hv
    simp only [record]
    split_ifs
    · exact mem_append_left _ hv
    · exact hv

theorem record_shown (h : t.itemOf s depth e = .ok (path, item)) :
    (t.record host e path item).Shown e.fromNodeID := by
  obtain ⟨n, -, hid, -, hnode⟩ := itemOf_eq_ok h
  exact ⟨item, putItem_self _ _, hnode.trans hid⟩

theorem record_kept (hkept : Kept s t) (h : t.itemOf s depth e = .ok (path, item)) :
    Kept s (t.record host e path item) := by
  obtain ⟨n, hn, hid, hrid, hnode⟩ := itemOf_eq_ok h
  refine ⟨?_, ?_, ?_, ?_⟩
  · intro x hx
    rcases mem_putItem hx with hx | rfl
    · exact hkept.items x hx
    · exact ⟨n, hn, hrid, hnode⟩
  · intro v p hp hkey
    by_cases hv : v = e.fromNodeID
    · exact hv ▸ record_shown h
    · refine (record_extends hkept h).shown v (hkept.paths v p ?_ hkey)
      simpa [ImpactSearch.path, ImpactSearch.record, lookup_cons,
        beq_eq_false_iff_ne.mpr hv] using hp
  · intro v hv
    simp only [ImpactSearch.record] at hv
    split_ifs at hv
    · rcases mem_append.mp hv with hv | hv
      · exact hkept.nonneg v hv
      · rw [mem_singleton.mp hv, ← hid]
        exact s.nodeIDs_nonneg n hn
    · exact hkept.nonneg v hv
  · intro v hv
    simp only [ImpactSearch.record] at hv ⊢
    split_ifs at hv ⊢
    · exact mem_append.mpr ((mem_append.mp hv).imp (hkept.next v) id)
    · exact hkept.next v hv

theorem record_visited (hgoes : impactRelationCanTraverse host e.relation) :
    e.fromNodeID ∈ (t.record host e path item).visited := by
  by_cases hv : e.fromNodeID ∈ t.visited
  · simp [record, hv]
  · simp [record, hv, hgoes]

theorem visitPrimary_spec (hkept : Kept s t) (h : t.visitPrimary host s depth e = .ok t') :
    Kept s t' ∧ Extends t t' ∧ t'.Shown e.fromNodeID ∧
      (¬PassedOver host s depth t e → impactRelationCanTraverse host e.relation →
        e.fromNodeID ∈ t'.visited) := by
  obtain ⟨⟨path, item⟩, hitem, h⟩ := bind_eq_ok.mp h
  rw [pure_eq_ok] at h
  by_cases hsettled : t.settled e.fromNodeID path = true
  · rw [if_pos hsettled] at h
    subst h
    refine ⟨hkept, .refl t, ?_, ?_⟩
    · simp only [settled] at hsettled
      split at hsettled
      · next old hold =>
        rw [Bool.and_eq_true, decide_eq_true_eq] at hsettled
        exact hkept.paths _ old hold hsettled.1
      · exact absurd hsettled (by simp)
    · intro hpassed hgoes
      by_contra hv
      exact hpassed ⟨hgoes, hv, path, item, hitem, hsettled⟩
  · rw [if_neg hsettled] at h
    subst h
    exact ⟨record_kept hkept hitem, record_extends hkept hitem, record_shown hitem,
      fun _ hgoes ↦ record_visited hgoes⟩

theorem foldlM_visitPrimary (hkept : Kept s t)
    (h : edges.foldlM (visitPrimary host s depth) t = .ok t') :
    Kept s t' ∧ Extends t t' ∧ (∀ e ∈ edges, t'.Shown e.fromNodeID) ∧
      ((∀ before e after t₁, edges = before ++ e :: after →
          before.foldlM (visitPrimary host s depth) t = .ok t₁ →
          ¬PassedOver host s depth t₁ e) →
        ∀ e ∈ edges, impactRelationCanTraverse host e.relation → e.fromNodeID ∈ t'.visited) := by
  induction edges generalizing t with
  | nil =>
    rw [foldlM_nil, pure_eq_ok] at h
    subst h
    exact ⟨hkept, .refl t, by simp, by simp⟩
  | cons e edges ih =>
    obtain ⟨t₁, h₁, h⟩ := bind_eq_ok.mp h
    obtain ⟨hkept₁, hext₁, hshown₁, hvisited₁⟩ := visitPrimary_spec hkept h₁
    obtain ⟨hkept', hext, hshown, hvisited⟩ := ih hkept₁ h
    refine ⟨hkept', hext₁.trans hext, ?_, ?_⟩
    · rw [forall_mem_cons]
      exact ⟨hext.shown _ hshown₁, hshown⟩
    · intro hpassed
      rw [forall_mem_cons]
      constructor
      · intro hgoes
        exact hext.visited _ (hvisited₁ (hpassed [] e edges t rfl rfl) hgoes)
      · apply hvisited
        intro before e' after t₂ hedges ht₂
        apply hpassed (e :: before) e' after t₂ (by rw [hedges, cons_append])
        exact bind_eq_ok.mpr ⟨t₁, h₁, ht₂⟩

theorem foldlM_visitInferred (h : edges.foldlM (visitInferred s depth) t = .ok t') :
    t' = { t with inferred := t'.inferred } := by
  refine foldlM_invariant (I := fun t' ↦ t' = { t with inferred := t'.inferred }) ?_ rfl h
  intro t₁ e _ t₂ ht₁ h₂
  obtain ⟨⟨path, item⟩, -, h₂⟩ := bind_eq_ok.mp h₂
  rw [pure_eq_ok] at h₂
  subst h₂
  split_ifs
  · exact ht₁
  · rw [ht₁]

end Visit

section Level

variable {host : ImpactHost} {s : ImpactSnapshot} {q : GraphImpactRequest} {k : ℕ}
  {t t' : ImpactSearch}

theorem mem_primaryEdges (hbound : Unbounded host s q k t) {e : GraphEdgeRecord}
    (he : q.Follows host s e) (hto : e.toNodeID ∈ t.frontier)
    (hids : ∀ v ∈ t.frontier, 0 ≤ v) : e ∈ t.primaryEdges host s q := by
  have hmem : ∀ v, v ∈ ((t.frontier.filter (0 ≤ ·)).dedup.insertionSort (· ≤ ·)).take q.limit ↔
      v ∈ t.frontier := by
    intro v
    have hlen : ((t.frontier.filter (0 ≤ ·)).dedup.insertionSort (· ≤ ·)).length ≤ q.limit := by
      rw [length_insertionSort]
      exact ((dedup_sublist _).length_le.trans (length_filter_le _ _)).trans
        hbound.frontier
    rw [take_of_length_le hlen, (perm_insertionSort _ _).mem_iff, mem_dedup,
      mem_filter, decide_eq_true_eq]
    exact and_iff_left_of_imp (hids v)
  have hsame : s.edgesInto host q.relations ["exact", "extracted"]
      (((t.frontier.filter (0 ≤ ·)).dedup.insertionSort (· ≤ ·)).take q.limit) =
      s.edgesInto host q.relations ["exact", "extracted"] t.frontier := by
    apply filter_congr
    intro x _
    simp only [hmem]
  rw [primaryEdges, impactEdgesFromFrontier, hsame,
    take_of_length_le (by rw [length_insertionSort]; exact hbound.edges),
    (perm_insertionSort _ _).mem_iff]
  obtain ⟨hedge, hrequested, hstatus⟩ := he
  simp only [edgesInto, mem_filter, Bool.and_eq_true, decide_eq_true_eq]
  exact ⟨hedge, ⟨hto, hrequested⟩, hstatus⟩

structure Expanded (host : ImpactHost) (s : ImpactSnapshot) (q : GraphImpactRequest)
    (t : ImpactSearch) (v : ℤ) : Prop where
  shown : ∀ e, q.Follows host s e → e.toNodeID = v → t.Shown e.fromNodeID
  visited : ∀ e, q.Follows host s e → e.toNodeID = v →
    impactRelationCanTraverse host e.relation → e.fromNodeID ∈ t.visited

/-- What carries the impact so far is visited, and what is visited is expanded or on the frontier.
-/
structure Searched (host : ImpactHost) (s : ImpactSnapshot) (q : GraphImpactRequest) (k : ℕ)
    (t : ImpactSearch) : Prop where
  kept : Kept s t
  frontier : ∀ v ∈ t.frontier, v ∈ t.visited
  carried : ∀ j ≤ k, ∀ v, q.Carries host s j v → v ∈ t.visited
  pending : ∀ v ∈ t.visited, v ∈ t.frontier ∨ Expanded host s q t v

theorem level_spec (h : t.level host s q (k + 1) = .ok t') (hkept : Kept s t) :
    Kept s t' ∧ Extends { t with next := [] } t' ∧
      (∀ e ∈ t.primaryEdges host s q, t'.Shown e.fromNodeID) ∧
      (Unbounded host s q k t → k + 1 < q.maxDepth → ∀ e ∈ t.primaryEdges host s q,
        impactRelationCanTraverse host e.relation → e.fromNodeID ∈ t'.visited) := by
  obtain ⟨t₁, h₁, h⟩ := bind_eq_ok.mp h
  obtain ⟨t₂, h₂, h⟩ := bind_eq_ok.mp h
  obtain rfl := pure_eq_ok.mp h
  have hkept₀ : Kept s { t with next := [] } :=
    ⟨hkept.items, hkept.paths, hkept.nonneg, by simp⟩
  obtain ⟨hkept₁, hext, hshown, hvisited⟩ := foldlM_visitPrimary hkept₀ h₁
  have hsame := foldlM_visitInferred h₂
  rw [hsame]
  refine ⟨⟨hkept₁.items, hkept₁.paths, hkept₁.nonneg, hkept₁.next⟩,
    ⟨hext.frontier, hext.shown, hext.visited, hext.next, hext.nextMono⟩, hshown, ?_⟩
  intro hbound hlt
  exact hvisited (hbound.followed hlt)

section

variable (h : Searched host s q k t) (hbound : Unbounded host s q k t)
include h hbound

theorem Searched.shown (hlevel : t.level host s q (k + 1) = .ok t') {e : GraphEdgeRecord}
    (he : q.Follows host s e) (hto : e.toNodeID ∈ t.visited) : t'.Shown e.fromNodeID := by
  obtain ⟨-, hext, hshown, -⟩ := level_spec hlevel h.kept
  rcases h.pending _ hto with hfrontier | hdone
  · exact hshown e (mem_primaryEdges hbound he hfrontier fun v hv ↦
      h.kept.nonneg v (h.frontier v hv))
  · exact hext.shown _ (hdone.shown e he rfl)

theorem Searched.visited (hlt : k + 1 < q.maxDepth) (hlevel : t.level host s q (k + 1) = .ok t')
    {e : GraphEdgeRecord} (he : q.Follows host s e) (hto : e.toNodeID ∈ t.visited)
    (hgoes : impactRelationCanTraverse host e.relation) : e.fromNodeID ∈ t'.visited := by
  obtain ⟨-, hext, -, hvisited⟩ := level_spec hlevel h.kept
  rcases h.pending _ hto with hfrontier | hdone
  · exact hvisited hbound hlt e (mem_primaryEdges hbound he hfrontier fun v hv ↦
      h.kept.nonneg v (h.frontier v hv)) hgoes
  · exact hext.visited _ (hdone.visited e he rfl hgoes)

theorem Searched.next (hlt : k + 1 < q.maxDepth) (hlevel : t.level host s q (k + 1) = .ok t') :
    Searched host s q (k + 1) { t' with frontier := uniqueImpactInts t'.next } := by
  obtain ⟨hkept, hext, -, -⟩ := level_spec hlevel h.kept
  have hfrontier : ∀ v, v ∈ uniqueImpactInts t'.next ↔ v ∈ t'.next := by
    intro v
    rw [uniqueImpactInts, (perm_insertionSort _ _).mem_iff, mem_dedup]
  refine ⟨⟨hkept.items, hkept.paths, hkept.nonneg, hkept.next⟩, ?_, ?_, ?_⟩
  · intro v hv
    exact hkept.next v ((hfrontier v).mp hv)
  · intro j hj v hv
    cases hv with
    | seed hn howned => exact hext.visited _ (h.carried 0 (Nat.zero_le k) _ (.seed hn howned))
    | @step i e hto he hgoes =>
      exact h.visited hbound hlt hlevel he (h.carried i (by omega) _ hto) hgoes
  · intro v hv
    rcases hext.next v hv with hold | hnew
    · right
      constructor
      · intro e he hto
        exact h.shown hbound hlevel he (hto ▸ hold)
      · intro e he hto hgoes
        exact h.visited hbound hlt hlevel he (hto ▸ hold) hgoes
    · exact .inl ((hfrontier v).mpr hnew)

end

theorem Searched.closed (h : Searched host s q k t) (hempty : t.frontier = []) {j : ℕ} {v : ℤ}
    (hv : q.Carries host s j v) : v ∈ t.visited ∧ Expanded host s q t v := by
  have hexpanded : ∀ v ∈ t.visited, Expanded host s q t v := by
    intro v hv
    refine (h.pending v hv).resolve_left fun hf ↦ ?_
    rw [hempty] at hf
    exact not_mem_nil hf
  have hvisited : v ∈ t.visited := by
    induction hv with
    | seed hn howned => exact h.carried 0 (Nat.zero_le k) _ (.seed hn howned)
    | step _ he hgoes ih => exact (hexpanded _ ih).visited _ he rfl hgoes
  exact ⟨hvisited, hexpanded v hvisited⟩

theorem Searched.levels {n : ℕ} {left : Bool} (h : Searched host s q k t)
    (hat : AtLevel host s q k t) (hn : k + (n + 1) = q.maxDepth) (hbudgets : WithinBudgets host s q)
    (hrun : t.levels host s q (n + 1) (k + 1) = .ok (t', left)) {v : ℤ} (hv : q.Impacted host s v) :
    t'.Shown v := by
  induction n generalizing k t with
  | zero =>
    obtain ⟨j, hj, e, he, hto, rfl⟩ := hv
    rw [levels] at hrun
    by_cases hempty : t.frontier = []
    · rw [if_pos hempty] at hrun
      obtain ⟨rfl, -⟩ := Prod.mk.inj (Except.ok.inj hrun)
      exact (h.closed hempty hto).2.shown e he rfl
    · rw [if_neg hempty] at hrun
      obtain ⟨found, hlevel, hrun⟩ := bind_eq_ok.mp hrun
      have hshown := h.shown (hbudgets.levels k t hat) hlevel he (h.carried j (by omega) _ hto)
      -- All the ways to end here keep what the level has found.
      dsimp only at hrun
      split_ifs at hrun
      · obtain ⟨rfl, -⟩ := Prod.mk.inj (pure_eq_ok.mp hrun)
        exact hshown
      · obtain ⟨rfl, -⟩ := Prod.mk.inj (pure_eq_ok.mp hrun)
        exact hshown
      · obtain ⟨rfl, -⟩ := Prod.mk.inj (Except.ok.inj hrun)
        exact hshown
  | succ n ih =>
    rw [levels] at hrun
    by_cases hempty : t.frontier = []
    · rw [if_pos hempty] at hrun
      obtain ⟨rfl, -⟩ := Prod.mk.inj (Except.ok.inj hrun)
      obtain ⟨j, -, e, he, hto, rfl⟩ := hv
      exact (h.closed hempty hto).2.shown e he rfl
    · rw [if_neg hempty] at hrun
      obtain ⟨found, hlevel, hrun⟩ := bind_eq_ok.mp hrun
      dsimp only at hrun
      split_ifs at hrun with hdirect hlast
      · rw [maxDepth, hdirect] at hn
        dsimp only at hn
        omega
      · exact absurd hlast.1 id
      · have hlt : k + 1 < q.maxDepth := by omega
        exact ih (h.next (hbudgets.levels k t hat) hlt hlevel) (hat.next hlt hlevel) (by omega)
          hrun

theorem Kept.start : Kept s (impactStart (s.resolveImpactSeeds q.paths maxImpactSeeds).nodes) := by
  have hseeds : ∀ n ∈ (s.resolveImpactSeeds q.paths maxImpactSeeds).nodes, n ∈ s.nodes := by
    intro n hn
    rw [resolveImpactSeeds, foldl_resolveSeed (Nat.zero_le _), nil_append] at hn
    exact (mem_owned.mp (mem_of_mem_take hn)).1
  refine ⟨by simp [impactStart], ?_, ?_, by simp [impactStart]⟩
  · intro v path hpath hkey
    obtain ⟨l₁, l₂, hpaths, -⟩ := lookup_eq_some_iff.mp hpath
    have hmem : (v, path) ∈ (impactStart
        (s.resolveImpactSeeds q.paths maxImpactSeeds).nodes).paths := by
      rw [hpaths]
      simp
    obtain ⟨id, -, heq⟩ := mem_map.mp hmem
    obtain ⟨-, rfl⟩ := Prod.mk.inj heq
    exact absurd rfl hkey
  · intro v hv
    obtain ⟨n, hn, rfl⟩ := mem_map.mp (mem_dedup.mp hv)
    exact s.nodeIDs_nonneg n (hseeds n hn)

theorem Searched.start (hbudgets : WithinBudgets host s q) :
    Searched host s q 0
      (impactStart (s.resolveImpactSeeds q.paths maxImpactSeeds).nodes) := by
  refine ⟨.start, fun v hv ↦ hv, ?_, fun v hv ↦ .inl hv⟩
  intro j hj v hv
  cases hv with
  | seed hn howned =>
    exact mem_dedup.mpr (mem_map.mpr
      ⟨_, resolveImpactSeeds_complete hbudgets.seeds hn howned, rfl⟩)
  | step _ _ _ => omega

end Level

section Answer

variable {host : ImpactHost} {s : ImpactSnapshot} {q : GraphImpactRequest}

theorem admitImpact_eq (count units : ℕ) (items : List GraphImpactItem) :
    ∃ n, (admitImpact host q count units items).1 = items.take n := by
  induction items generalizing count units with
  | nil => exact ⟨0, rfl⟩
  | cons item rest ih =>
    rw [admitImpact]
    split_ifs
    · exact ⟨0, rfl⟩
    · obtain ⟨n, hn⟩ := ih (count + 1) (units + (host.jsonSize item + 3) / 4)
      refine ⟨n + 1, ?_⟩
      rw [take_succ_cons, ← hn]

theorem applyImpactBudget_primary {primary inferred : List GraphImpactItem}
    (h : (applyImpactBudget host q primary inferred 0).truncated = false) :
    (applyImpactBudget host q primary inferred 0).primary = primary := by
  simp only [applyImpactBudget, Nat.zero_min, drop_zero, Nat.zero_add, Nat.sub_zero,
    decide_eq_false_iff_not, Nat.not_lt] at h ⊢
  obtain ⟨n, hn⟩ := @admitImpact_eq host q 0 0 (primary ++ inferred)
  rw [hn, length_take] at h
  have hall : (primary ++ inferred).take n = primary ++ inferred :=
    take_of_length_le (by omega)
  rw [hn, hall, length_append, Nat.min_eq_right (Nat.le_add_right _ _), take_left]

theorem maxDepth_pos (q : GraphImpactRequest) : 1 ≤ q.maxDepth := by
  have := q.depth_pos
  rw [maxDepth]
  split
  · exact le_refl 1
  · exact this

/-- An untruncated answer shows every impacted node, where seeds and levels are within their budgets
and no node is passed over. -/
theorem untruncated_impact_complete (host : ImpactHost) (s : ImpactSnapshot)
    (q : GraphImpactRequest) (env : GraphImpactEnvelope) (henv : graphImpact host s q 0 = .ok env)
    (hbudgets : WithinBudgets host s q) (htruncated : env.truncated = false) :
    ∀ v, q.Impacted host s v → ∃ item ∈ env.items, item.nodeID = v := by
  intro v hv
  rw [graphImpact] at henv
  by_cases hseeds : (s.resolveImpactSeeds q.paths maxImpactSeeds).nodes = []
  · -- Without seeds nothing carries an impact.
    obtain ⟨j, -, e, -, hto, -⟩ := hv
    exfalso
    generalize e.toNodeID = u at hto
    induction hto with
    | seed hn howned =>
      have := resolveImpactSeeds_complete hbudgets.seeds hn howned
      rw [hseeds] at this
      exact not_mem_nil this
    | step _ _ _ ih => exact ih
  · rw [if_neg hseeds] at henv
    obtain ⟨⟨found, left⟩, hrun, henv⟩ := bind_eq_ok.mp henv
    obtain rfl := pure_eq_ok.mp henv
    have hdepth := maxDepth_pos q
    obtain ⟨n, hn⟩ : ∃ n, q.maxDepth = n + 1 := ⟨q.maxDepth - 1, by omega⟩
    rw [hn] at hrun
    obtain ⟨x, hx, hid⟩ := (Searched.start hbudgets).levels .start (by omega) hbudgets hrun hv
    simp only [Bool.or_eq_false_iff] at htruncated
    refine ⟨x, ?_, hid⟩
    rw [applyImpactBudget_primary htruncated.1.1]
    exact (perm_insertionSort _ _).mem_iff.mpr hx

end Answer

section Sample

def sampleImpactHost : ImpactHost where
  toLower := id
  jsonSize := fun _ ↦ 400

def sampleImpactNode (id : ℕ) (path : String) : GraphNodeRecord where
  generationID := zeroDigest
  nodeID := id
  nodeKey := Vector.replicate 32 (UInt8.ofNat id)
  identity :=
    { repositoryIdentity := "r"
      backendType := "go"
      language := "go"
      projectOrModule := "m"
      ownerPath := path
      symbolKind := "function"
      semanticIdentity := path }
  identitySchema := "1"
  displayName := path
  sourceDigest := zeroDigest
  claimStatus := "exact"
  crossRID := nodeRID (Vector.replicate 32 (UInt8.ofNat id))
  sortKey := path

def sampleCall (id source target : ℕ) : GraphEdgeRecord where
  generationID := zeroDigest
  edgeID := id
  edgeKey := Vector.replicate 32 (UInt8.ofNat id)
  fromNodeID := source
  toNodeID := target
  relation := "calls"
  claimScope := "s"
  claimStatus := "exact"
  ownerPath := "a.go"
  sourceBackend := "go"
  crossRID := ""

def sampleCallers : ImpactSnapshot where
  generationID := zeroDigest
  unresolvedCount := 0
  nodes := [sampleImpactNode 0 "a.go", sampleImpactNode 1 "b.go", sampleImpactNode 2 "c.go"]
  edges := [sampleCall 0 1 0, sampleCall 1 2 0]
  evidence := []
  unresolved := []
  nodeIDs := by decide
  edgeIDs := by decide
  edgeKeys := by decide +kernel
  endpoints := by decide
  nodeIDs_nonneg := by decide
  nodeKeys := by decide +kernel
  crossRIDs := by
    intro n hn
    simp only [mem_cons, not_mem_nil, or_false] at hn
    rcases hn with rfl | rfl | rfl <;> rfl

def sampleImpact (limit : ℕ) (h : 1 ≤ limit) : GraphImpactRequest where
  paths := ["a.go"]
  mode := .direct
  depth := 1
  limit := limit
  tokenBudget := 4000
  relations := ["calls"]
  omissions := []
  warnings := []
  depth_pos := Nat.one_pos
  limit_pos := h

theorem sampleImpact_impacted (limit : ℕ) (h : 1 ≤ limit) :
    (sampleImpact limit h).Impacted sampleImpactHost sampleCallers 2 := by
  have hfollows : (sampleImpact limit h).Follows sampleImpactHost sampleCallers
      (sampleCall 1 2 0) := by
    refine ⟨by simp [sampleCallers], ?_, by simp [sampleCall]⟩
    have : requested sampleImpactHost ["calls"] "calls" = true := by decide +kernel
    exact this
  have hpath : normalizeImpactPath "a.go" = "a.go" := by decide +kernel
  have hseed : (sampleImpact limit h).Carries sampleImpactHost sampleCallers 0 0 := by
    refine .seed (n := sampleImpactNode 0 "a.go") (by simp [sampleCallers]) ?_
    exact ⟨"a.go", by simp [sampleImpact], by rw [hpath]; decide, hpath.symm⟩
  exact ⟨0, Nat.zero_lt_one, _, hfollows, hseed, rfl⟩

/-- With a limit of one the second caller is cut off, and the answer does not say so. -/
theorem sampleCallers_cut :
    ∃ env, graphImpact sampleImpactHost sampleCallers (sampleImpact 1 (le_refl 1)) 0 = .ok env ∧
      env.truncated = false ∧
      (sampleImpact 1 (le_refl 1)).Impacted sampleImpactHost sampleCallers 2 ∧
      ¬∃ item ∈ env.items, item.nodeID = 2 := by
  have hpage : ((graphImpact sampleImpactHost sampleCallers
      (sampleImpact 1 (le_refl 1)) 0).toOption.any fun env ↦
        !env.truncated && env.items.all fun item ↦ item.nodeID ≠ 2) = true := by
    decide +kernel
  obtain ⟨env, henv, hpage⟩ := any_toOption.mp hpage
  simp only [Bool.and_eq_true, Bool.not_eq_true', all_eq_true, decide_eq_true_eq] at hpage
  refine ⟨env, henv, hpage.1, sampleImpact_impacted 1 (le_refl 1), ?_⟩
  rintro ⟨item, hitem, hid⟩
  exact hpage.2 item hitem hid

theorem sampleImpact_withinBudgets :
    WithinBudgets sampleImpactHost sampleCallers (sampleImpact 2 (by decide)) := by
  refine ⟨by decide +kernel, ?_⟩
  intro k t h
  cases h with
  | start => exact ⟨by decide +kernel, by decide +kernel, fun hlt ↦ absurd hlt (by decide)⟩
  | next _ hlt _ => exact absurd hlt (by simp [sampleImpact, maxDepth])

theorem sampleCallers_complete :
    ∃ env, graphImpact sampleImpactHost sampleCallers (sampleImpact 2 (by decide)) 0 = .ok env ∧
      ∃ item ∈ env.items, item.nodeID = 2 := by
  have hpage : ((graphImpact sampleImpactHost sampleCallers
      (sampleImpact 2 (by decide)) 0).toOption.any fun env ↦ !env.truncated) = true := by
    decide +kernel
  obtain ⟨env, henv, hpage⟩ := any_toOption.mp hpage
  rw [Bool.not_eq_true'] at hpage
  exact ⟨env, henv, untruncated_impact_complete _ _ _ env henv sampleImpact_withinBudgets hpage 2
    (sampleImpact_impacted 2 (by decide))⟩

end Sample

end MiLsp.Query
