import MiLsp.Query.ImpactPaging
import MiLsp.Query.NeighborhoodPaging

namespace MiLsp.Query

open MiLsp.Graph Library.Attempt List ImpactSearch

section Spec

variable (host : ImpactHost) (s : ImpactSnapshot) (q : GraphImpactRequest)

def GraphImpactRequest.Seed (v : ℤ) : Prop :=
  v ∈ (impactStart (s.resolveImpactSeeds q.paths maxImpactSeeds).nodes).frontier

def GraphImpactRequest.Traversed (e : GraphEdgeRecord) : Prop :=
  ∃ k t, AtLevel host s q k t ∧ e ∈ t.primaryEdges host s q

/-- A chain of exact or extracted edges that the search follows, from a seed to a node. -/
inductive EvidenceChain : ℤ → List GraphImpactPathStep → Prop
  | seed {v : ℤ} : q.Seed s v → EvidenceChain v []
  | step {e : GraphEdgeRecord} {path : List GraphImpactPathStep} {step : GraphImpactPathStep} :
      EvidenceChain e.toNodeID path → q.Follows host s e → q.Traversed host s e →
      graphImpactStep s e = .ok step → EvidenceChain e.fromNodeID (path ++ [step])

structure SoundItem (x : GraphImpactItem) : Prop where
  chain : EvidenceChain host s q x.nodeID x.evidencePath
  distance : x.distance = x.evidencePath.length
  least : ∀ path, EvidenceChain host s q x.nodeID path → x.distance ≤ path.length

/-- The edge comes from a seed or a node of an earlier level, and gives it another path. -/
def Rewritten (depth : ℕ) (t : ImpactSearch) (e : GraphEdgeRecord) : Prop :=
  ∃ old path item, t.path e.fromNodeID = some old ∧ old.length < depth ∧
    t.itemOf s depth e = .ok (path, item) ∧ t.settled e.fromNodeID path = false

/-- No level of the search gives another path to a node that was found before. -/
def NeverRewritten : Prop :=
  ∀ k t, AtLevel host s q k t → ∀ before e after t₁, t.primaryEdges host s q =
    before ++ e :: after →
    before.foldlM (ImpactSearch.visitPrimary host s (k + 1)) { t with next := [] } = .ok t₁ →
    ¬Rewritten s (k + 1) t₁ e

end Spec

section Steps

variable {host : ImpactHost} {s : ImpactSnapshot} {q : GraphImpactRequest} {k depth : ℕ}
  {t t' : ImpactSearch} {e : GraphEdgeRecord} {path : List GraphImpactPathStep}
  {item : GraphImpactItem}

theorem itemOf_spec (h : t.itemOf s depth e = .ok (path, item)) :
    ∃ step, graphImpactStep s e = .ok step ∧ path = (t.path e.toNodeID).getD [] ++ [step] ∧
      item.nodeID = e.fromNodeID ∧ item.distance = depth ∧ item.evidencePath = path := by
  obtain ⟨step, hstep, h⟩ := bind_eq_ok.mp h
  obtain ⟨n, hn, h⟩ := bind_eq_ok.mp h
  obtain ⟨-, hid⟩ := node_mem (orElse_eq_ok.mp hn)
  obtain ⟨rfl, rfl⟩ := Prod.mk.inj (pure_eq_ok.mp h)
  exact ⟨step, hstep, rfl, hid, rfl, rfl⟩

theorem itemOf_isOk (he : e ∈ s.edges) : ∃ found, t.itemOf s depth e = .ok found := by
  obtain ⟨hfrom, hto⟩ := s.endpoints e he
  obtain ⟨source, hsource⟩ := node_isSome hfrom
  obtain ⟨target, htarget⟩ := node_isSome hto
  rw [itemOf, graphImpactStep, hsource, htarget]
  exact ⟨_, rfl⟩

theorem visitPrimary_cases (h : t.visitPrimary host s depth e = .ok t') :
    ∃ path item, t.itemOf s depth e = .ok (path, item) ∧
      (t.settled e.fromNodeID path = true ∧ t' = t ∨
        t.settled e.fromNodeID path = false ∧ t' = t.record host e path item) := by
  obtain ⟨⟨path, item⟩, hitem, h⟩ := bind_eq_ok.mp h
  rw [pure_eq_ok] at h
  refine ⟨path, item, hitem, ?_⟩
  cases hsettled : t.settled e.fromNodeID path with
  | true => exact .inl ⟨rfl, by rw [← h, hsettled, if_pos rfl]⟩
  | false => exact .inr ⟨rfl, by rw [← h, hsettled, if_neg Bool.false_ne_true]⟩

theorem record_path (v : ℤ) : (t.record host e path item).path v =
    if v = e.fromNodeID then some path else t.path v := by
  rw [ImpactSearch.path, ImpactSearch.record]
  by_cases hv : v = e.fromNodeID
  · simp [hv]
  · simp [hv, lookup_cons, beq_eq_false_iff_ne.mpr hv, ImpactSearch.path]

theorem settled_path (h : t.settled e.fromNodeID path = true) :
    ∃ old, t.path e.fromNodeID = some old := by
  rw [settled] at h
  cases hold : t.path e.fromNodeID with
  | some old => exact ⟨old, rfl⟩
  | none =>
    rw [hold] at h
    cases h

theorem mem_primaryEdges_spec (h : e ∈ t.primaryEdges host s q) :
    q.Follows host s e ∧ e.toNodeID ∈ t.frontier := by
  have hmem := (perm_insertionSort _ _).mem_iff.mp (mem_of_mem_take h)
  simp only [ImpactSnapshot.edgesInto, mem_filter, Bool.and_eq_true, decide_eq_true_eq] at hmem
  obtain ⟨hedge, ⟨hto, hrequested⟩, hstatus⟩ := hmem
  have hfrontier := (perm_insertionSort _ _).mem_iff.mp (mem_of_mem_take hto)
  exact ⟨⟨hedge, hrequested, hstatus⟩, mem_of_mem_filter (mem_dedup.mp hfrontier)⟩

theorem level_cases (h : t.level host s q depth = .ok t') :
    ∃ t₁, (t.primaryEdges host s q).foldlM (visitPrimary host s depth)
      { t with next := [] } = .ok t₁ ∧
      t' = { t₁ with inferred := t'.inferred, depthReached := depth } := by
  obtain ⟨t₁, h₁, h⟩ := bind_eq_ok.mp h
  obtain ⟨t₂, h₂, h⟩ := bind_eq_ok.mp h
  obtain rfl := pure_eq_ok.mp h
  refine ⟨t₁, h₁, ?_⟩
  have hsame := foldlM_visitInferred h₂
  rw [hsame]

theorem inferredEdges_subset (h : e ∈ t.inferredEdges host s q) : e ∈ s.edges := by
  have hmem := (perm_insertionSort _ _).mem_iff.mp (mem_of_mem_take h)
  exact mem_of_mem_filter hmem

theorem level_isOk (t : ImpactSearch) (depth : ℕ) : ∃ t', t.level host s q depth = .ok t' := by
  have hprimary : ∀ e ∈ t.primaryEdges host s q, ∀ t,
      ∃ t', visitPrimary host s depth t e = .ok t' := by
    intro e he t
    obtain ⟨found, hfound⟩ := @itemOf_isOk s depth t e (mem_primaryEdges_spec he).1.1
    rw [visitPrimary, hfound]
    exact ⟨_, rfl⟩
  have hinferred : ∀ e ∈ t.inferredEdges host s q, ∀ t,
      ∃ t', visitInferred s depth t e = .ok t' := by
    intro e he t
    obtain ⟨found, hfound⟩ := @itemOf_isOk s depth t e (inferredEdges_subset he)
    rw [visitInferred, hfound]
    exact ⟨_, rfl⟩
  obtain ⟨t₁, h₁⟩ := foldlM_isOk hprimary { t with next := [] }
  obtain ⟨t₂, h₂⟩ := foldlM_isOk hinferred t₁
  exact ⟨_, bind_eq_ok.mpr ⟨t₁, h₁, bind_eq_ok.mpr ⟨t₂, h₂, rfl⟩⟩⟩

theorem atLevel_unique {t₁ t₂ : ImpactSearch} (h₁ : AtLevel host s q k t₁)
    (h₂ : AtLevel host s q k t₂) : t₁ = t₂ := by
  induction h₁ generalizing t₂ with
  | start =>
    cases h₂
    rfl
  | next _ _ hlevel ih =>
    cases h₂ with
    | next h₂ _ hlevel₂ =>
      rw [← ih h₂, hlevel] at hlevel₂
      cases hlevel₂
      rfl

theorem atLevel_lt (h : AtLevel host s q k t) : k < q.maxDepth := by
  cases h with
  | start => exact maxDepth_pos q
  | next _ hlt _ => exact hlt

end Steps

section Chains

variable {host : ImpactHost} {s : ImpactSnapshot} {q : GraphImpactRequest} {k : ℕ}
  {t t' : ImpactSearch} {e : GraphEdgeRecord} {v : ℤ}

/-- Every path is a chain from a seed, and the nodes to go on from have paths. -/
structure Chained (host : ImpactHost) (s : ImpactSnapshot) (q : GraphImpactRequest)
    (t : ImpactSearch) : Prop where
  paths : ∀ v path, t.path v = some path → EvidenceChain host s q v path
  frontier : ∀ v ∈ t.frontier, ∃ path, t.path v = some path
  next : ∀ v ∈ t.next, ∃ path, t.path v = some path

theorem mem_record_next {path : List GraphImpactPathStep} {item : GraphImpactItem}
    (h : v ∈ (t.record host e path item).next) : v ∈ t.next ∨ v = e.fromNodeID := by
  simp only [record] at h
  split_ifs at h
  · exact (mem_append.mp h).imp id mem_singleton.mp
  · exact .inl h

theorem Chained.visit (h : Chained host s q t) {depth : ℕ} (hfollows : q.Follows host s e)
    (htraversed : q.Traversed host s e) (hto : e.toNodeID ∈ t.frontier)
    (hvisit : t.visitPrimary host s depth e = .ok t') : Chained host s q t' := by
  obtain ⟨path, item, hitem, ⟨-, rfl⟩ | ⟨-, rfl⟩⟩ := visitPrimary_cases hvisit
  · exact h
  · obtain ⟨step, hstep, hpath, -⟩ := itemOf_spec hitem
    obtain ⟨parent, hparent⟩ := h.frontier _ hto
    have hkeeps : ∀ v, (∃ p, t.path v = some p) →
        ∃ p, (t.record host e path item).path v = some p := by
      rintro v ⟨p, hp⟩
      rw [record_path]
      split_ifs
      · exact ⟨path, rfl⟩
      · exact ⟨p, hp⟩
    refine ⟨?_, fun v hv ↦ hkeeps v (h.frontier v hv), ?_⟩
    · intro v p hp
      rw [record_path] at hp
      split_ifs at hp with hv
      · rw [Option.some_inj] at hp
        rw [hv, ← hp, hpath, hparent]
        exact .step (h.paths _ _ hparent) hfollows htraversed hstep
      · exact h.paths v p hp
    · intro v hv
      rcases mem_record_next hv with hv | rfl
      · exact hkeeps v (h.next v hv)
      · rw [record_path, if_pos rfl]
        exact ⟨path, rfl⟩

theorem visitPrimary_frontier {depth : ℕ} (h : t.visitPrimary host s depth e = .ok t') :
    t'.frontier = t.frontier := by
  obtain ⟨path, item, -, ⟨-, rfl⟩ | ⟨-, rfl⟩⟩ := visitPrimary_cases h
  · rfl
  · rfl

theorem edges_invariant {I : List GraphEdgeRecord → ImpactSearch → Prop}
    (hat : AtLevel host s q k t) {edges rest : List GraphEdgeRecord}
    (hedges : t.primaryEdges host s q = edges ++ rest)
    (hstep : ∀ before e after t₁ t₂, t.primaryEdges host s q = before ++ e :: after →
      before.foldlM (visitPrimary host s (k + 1)) { t with next := [] } = .ok t₁ →
      I before t₁ → q.Follows host s e → q.Traversed host s e → e.toNodeID ∈ t₁.frontier →
      t₁.visitPrimary host s (k + 1) e = .ok t₂ → I (before ++ [e]) t₂)
    (hstart : I [] { t with next := [] })
    (hfold : edges.foldlM (visitPrimary host s (k + 1)) { t with next := [] } =
      .ok t') : I edges t' := by
  have hboth := @foldlM_induction _ _ _ _ _ _ _
    (fun before t₁ ↦ I before t₁ ∧ t₁.frontier = t.frontier) ?_ ⟨hstart, rfl⟩ hfold
  · exact hboth.1
  · rintro before e after t₂ t₃ hbefore hrun ⟨hI, hfrontier⟩ hvisit
    rw [hbefore, append_assoc, cons_append] at hedges
    have hmem : e ∈ t.primaryEdges host s q := by
      rw [hedges]
      simp
    obtain ⟨hfollows, hto⟩ := mem_primaryEdges_spec hmem
    rw [← hfrontier] at hto
    exact ⟨hstep before e (after ++ rest) t₂ t₃ hedges hrun hI hfollows ⟨k, t, hat, hmem⟩ hto
      hvisit, (visitPrimary_frontier hvisit).trans hfrontier⟩

theorem mem_uniqueImpactInts {values : List ℤ} : v ∈ uniqueImpactInts values ↔ v ∈ values := by
  rw [uniqueImpactInts, (perm_insertionSort _ _).mem_iff, mem_dedup]

theorem start_path {nodes : List GraphNodeRecord} {path : List GraphImpactPathStep} :
    (impactStart nodes).path v = some path ↔ v ∈ (impactStart nodes).frontier ∧ path = [] := by
  have hpath : ∀ ids : List ℤ,
      (ids.map fun id ↦ (id, ([] : List GraphImpactPathStep))).lookup v = some path ↔
        v ∈ ids ∧ path = [] := by
    intro ids
    induction ids with
    | nil => simp
    | cons id ids ih =>
      rw [map_cons, lookup_cons]
      by_cases hv : v = id
      · simp [hv, eq_comm]
      · simp [hv, beq_eq_false_iff_ne.mpr hv, ih]
  exact hpath _

theorem Chained.start :
    Chained host s q (impactStart (s.resolveImpactSeeds q.paths maxImpactSeeds).nodes) := by
  refine ⟨?_, ?_, ?_⟩
  · intro v path h
    obtain ⟨hv, rfl⟩ := start_path.mp h
    exact .seed hv
  · intro v hv
    exact ⟨[], start_path.mpr ⟨hv, rfl⟩⟩
  · intro v hv
    cases hv

theorem Chained.edges (h : Chained host s q t) (hat : AtLevel host s q k t)
    {edges rest : List GraphEdgeRecord} (hedges : t.primaryEdges host s q = edges ++ rest)
    (hfold : edges.foldlM (visitPrimary host s (k + 1)) { t with next := [] } = .ok t') :
    Chained host s q t' :=
  @edges_invariant host s q k t t' (fun _ t₁ ↦ Chained host s q t₁) hat _ _ hedges
    (fun _ _ _ _ _ _ _ hI hfollows htraversed hto hvisit ↦
      hI.visit hfollows htraversed hto hvisit)
    ⟨h.paths, h.frontier, fun v hv ↦ by cases hv⟩ hfold

theorem Chained.level (h : Chained host s q t) (hat : AtLevel host s q k t)
    (hlevel : t.level host s q (k + 1) = .ok t') : Chained host s q t' := by
  obtain ⟨t₁, hfold, hsame⟩ := level_cases hlevel
  have h₁ := h.edges hat (append_nil _).symm hfold
  rw [hsame]
  exact ⟨h₁.paths, h₁.frontier, h₁.next⟩

theorem Chained.atLevel (hat : AtLevel host s q k t) : Chained host s q t := by
  induction hat with
  | start => exact .start
  | next hat _ hlevel ih =>
    have h := ih.level hat hlevel
    exact ⟨h.paths, fun v hv ↦ h.next v (mem_uniqueImpactInts.mp hv), h.next⟩

end Chains

section Levelled

variable {host : ImpactHost} {s : ImpactSnapshot} {q : GraphImpactRequest} {k : ℕ}
  {t t' : ImpactSearch} {e : GraphEdgeRecord} {done : GraphEdgeRecord → Prop}

def Closes (t : ImpactSearch) (e : GraphEdgeRecord) : Prop :=
  ∃ path parent, t.path e.fromNodeID = some path ∧ t.path e.toNodeID = some parent ∧
    path.length ≤ parent.length + 1

structure Levelled (s : ImpactSnapshot) (q : GraphImpactRequest) (depth : ℕ)
    (done : GraphEdgeRecord → Prop) (t : ImpactSearch) : Prop where
  kept : Kept s t
  seeds : ∀ v, q.Seed s v → t.path v = some []
  lengths : ∀ v path, t.path v = some path → path.length ≤ depth
  frontier : ∀ v ∈ t.frontier, ∃ path, t.path v = some path ∧ path.length + 1 = depth
  next : ∀ v ∈ t.next, ∃ path, t.path v = some path ∧ path.length = depth
  items : ∀ x ∈ t.primary,
    t.path x.nodeID = some x.evidencePath ∧ x.distance = x.evidencePath.length
  closed : ∀ e, done e → Closes t e

theorem mem_putItem_other {items : List GraphImpactItem} {item x : GraphImpactItem}
    (h : x ∈ putItem items item) : x = item ∨ x ∈ items ∧ x.crossRID ≠ item.crossRID := by
  rw [putItem] at h
  split_ifs at h with hany
  · obtain ⟨y, hy, rfl⟩ := mem_map.mp h
    split_ifs with heq
    · exact .inl rfl
    · exact .inr ⟨hy, heq⟩
  · rcases mem_append.mp h with hx | hx
    · refine .inr ⟨hx, ?_⟩
      intro heq
      exact hany (any_eq_true.mpr ⟨x, hx, decide_eq_true heq⟩)
    · exact .inl (mem_singleton.mp hx)

theorem Levelled.visit {depth : ℕ} (h : Levelled s q depth done t) (hto : e.toNodeID ∈ t.frontier)
    (hrewritten : ¬Rewritten s depth t e) (hvisit : t.visitPrimary host s depth e = .ok t') :
    Levelled s q depth (fun e' ↦ done e' ∨ e' = e) t' := by
  have hkept := (visitPrimary_spec h.kept hvisit).1
  obtain ⟨parent, hparent, hlength⟩ := h.frontier _ hto
  obtain ⟨path, item, hitem, ⟨hsettled, rfl⟩ | ⟨hsettled, rfl⟩⟩ := visitPrimary_cases hvisit
  · obtain ⟨old, hold⟩ := settled_path hsettled
    refine ⟨hkept, h.seeds, h.lengths, h.frontier, h.next, h.items, ?_⟩
    rintro e' (hdone | rfl)
    · exact h.closed e' hdone
    · have hle := h.lengths _ old hold
      exact ⟨old, parent, hold, hparent, by omega⟩
  · obtain ⟨step, -, hpath, hnode, hdistance, hevidence⟩ := itemOf_spec hitem
    have hdepth : path.length = depth := by
      rw [hpath, hparent, Option.getD_some, length_append, length_singleton]
      exact hlength
    -- The node has no path yet, or one that was found on this level.
    have hnew : ∀ old, t.path e.fromNodeID = some old → old.length = depth := by
      intro old hold
      have hle := h.lengths _ old hold
      by_contra hne
      exact hrewritten ⟨old, path, item, hold, by omega, hitem, hsettled⟩
    have hkeeps : ∀ v p, t.path v = some p →
        ∃ p', (t.record host e path item).path v = some p' ∧ p'.length = p.length := by
      intro v p hp
      rw [record_path]
      split_ifs with hv
      · rw [hv] at hp
        exact ⟨path, rfl, by rw [hdepth, hnew p hp]⟩
      · exact ⟨p, hp, rfl⟩
    refine ⟨hkept, ?_, ?_, ?_, ?_, ?_, ?_⟩
    · intro v hv
      obtain ⟨p, hp, hzero⟩ := hkeeps v [] (h.seeds v hv)
      rw [hp, length_eq_zero_iff.mp hzero]
    · intro v p hp
      rw [record_path] at hp
      split_ifs at hp
      · rw [Option.some_inj] at hp
        rw [← hp, hdepth]
      · exact h.lengths v p hp
    · intro v hv
      obtain ⟨p, hp, hshort⟩ := h.frontier v hv
      obtain ⟨p', hp', hsame⟩ := hkeeps v p hp
      exact ⟨p', hp', by omega⟩
    · intro v hv
      rcases mem_record_next hv with hv | rfl
      · obtain ⟨p, hp, hlong⟩ := h.next v hv
        obtain ⟨p', hp', hsame⟩ := hkeeps v p hp
        exact ⟨p', hp', by omega⟩
      · rw [record_path, if_pos rfl]
        exact ⟨path, rfl, hdepth⟩
    · intro x hx
      rcases mem_putItem_other hx with rfl | ⟨hx, hne⟩
      · rw [hnode, record_path, if_pos rfl, hevidence, hdistance, hdepth]
        exact ⟨rfl, rfl⟩
      · have hother : x.nodeID ≠ e.fromNodeID := by
          intro heq
          obtain ⟨n, hn, hrid, hid⟩ := h.kept.items x hx
          obtain ⟨m, hm, hmid, hmrid, -⟩ := itemOf_eq_ok hitem
          have hsame : n = m := inj_on_of_nodup_map s.nodeIDs hn hm
            (hid.symm.trans (heq.trans hmid.symm))
          exact hne (by rw [hrid, hsame, ← hmrid])
        rw [record_path, if_neg hother]
        exact h.items x hx
    · rintro e' (hdone | rfl)
      · obtain ⟨p, pp, hp, hpp, hle⟩ := h.closed e' hdone
        obtain ⟨p', hp', hsame⟩ := hkeeps _ p hp
        obtain ⟨pp', hpp', hsame'⟩ := hkeeps _ pp hpp
        exact ⟨p', pp', hp', hpp', by omega⟩
      · obtain ⟨parent', hparent', hsame⟩ := hkeeps _ parent hparent
        refine ⟨path, parent', ?_, hparent', by omega⟩
        rw [record_path, if_pos rfl]

theorem Levelled.mono {depth : ℕ} {done' : GraphEdgeRecord → Prop} (h : Levelled s q depth done t)
    (hsub : ∀ e, done' e → done e) : Levelled s q depth done' t :=
  ⟨h.kept, h.seeds, h.lengths, h.frontier, h.next, h.items, fun e he ↦ h.closed e (hsub e he)⟩

def TraversedBefore (host : ImpactHost) (s : ImpactSnapshot) (q : GraphImpactRequest) (k : ℕ)
    (e : GraphEdgeRecord) : Prop :=
  ∃ j < k, ∃ t, AtLevel host s q j t ∧ e ∈ t.primaryEdges host s q

section

variable (hnever : NeverRewritten host s q) (hat : AtLevel host s q k t)
include hnever hat

theorem Levelled.level (h : Levelled s q (k + 1) (TraversedBefore host s q k) { t with next := [] })
    (hlevel : t.level host s q (k + 1) = .ok t') :
    Levelled s q (k + 1) (TraversedBefore host s q (k + 1)) t' := by
  obtain ⟨t₁, hfold, hsame⟩ := level_cases hlevel
  have h₁ := @edges_invariant host s q k t t₁
    (fun done t₁ ↦ Levelled s q (k + 1) (fun e ↦ TraversedBefore host s q k e ∨ e ∈ done) t₁) hat
    _ _ (append_nil _).symm ?_ (h.mono (by simp)) hfold
  · have hdone : ∀ e, TraversedBefore host s q (k + 1) e →
        TraversedBefore host s q k e ∨ e ∈ t.primaryEdges host s q := by
      rintro e ⟨j, hj, t₂, hat₂, he⟩
      rcases Nat.lt_succ_iff_lt_or_eq.mp hj with hlt | rfl
      · exact .inl ⟨j, hlt, t₂, hat₂, he⟩
      · rw [atLevel_unique hat₂ hat] at he
        exact .inr he
    obtain ⟨hkept, hseeds, hlengths, hfrontier, hnext, hitems, hclosed⟩ := h₁.mono hdone
    rw [hsame]
    exact ⟨⟨hkept.items, hkept.paths, hkept.nonneg, hkept.next⟩, hseeds, hlengths, hfrontier,
      hnext, hitems, hclosed⟩
  · intro before e after t₂ t₃ hedges hbefore hI _ _ hto hvisit
    refine (hI.visit hto (hnever k t hat before e after t₂ hedges hbefore) hvisit).mono ?_
    intro e' he'
    rw [mem_append, mem_singleton] at he'
    rw [or_assoc]
    exact he'

theorem Levelled.atLevel :
    Levelled s q (k + 1) (TraversedBefore host s q k) { t with next := [] } := by
  induction hat with
  | start =>
    have hkept := @Kept.start s q
    refine ⟨⟨hkept.items, hkept.paths, hkept.nonneg, by simp⟩, ?_, ?_, ?_, by simp, ?_, ?_⟩
    · intro v hv
      exact start_path.mpr ⟨hv, rfl⟩
    · intro v path hpath
      rw [(start_path.mp hpath).2]
      exact Nat.zero_le _
    · intro v hv
      exact ⟨[], start_path.mpr ⟨hv, rfl⟩, rfl⟩
    · intro x hx
      cases hx
    · rintro e ⟨j, hj, -⟩
      cases hj
  | @next k t t' hat _ hlevel ih =>
    obtain ⟨hkept, hseeds, hlengths, -, hnext, hitems, hclosed⟩ := ih.level hnever hat hlevel
    refine ⟨⟨hkept.items, hkept.paths, hkept.nonneg, by simp⟩, hseeds, ?_, ?_, by simp, hitems,
      hclosed⟩
    · intro v path hpath
      exact Nat.le_succ_of_le (hlengths v path hpath)
    · intro v hv
      obtain ⟨path, hpath, hlength⟩ := hnext v (mem_uniqueImpactInts.mp hv)
      exact ⟨path, hpath, by rw [hlength]⟩

theorem soundItem_of_never (hlast : k + 1 = q.maxDepth) (hlevel : t.level host s q (k + 1) = .ok t')
    {x : GraphImpactItem} (hx : x ∈ t'.primary) : SoundItem host s q x := by
  have hlevelled := (Levelled.atLevel hnever hat).level hnever hat hlevel
  obtain ⟨hpath, hdistance⟩ := hlevelled.items x hx
  refine ⟨((Chained.atLevel hat).level hat hlevel).paths _ _ hpath, hdistance, ?_⟩
  -- Along a chain every edge leads one step on at most.
  have hchain : ∀ v path, EvidenceChain host s q v path →
      ∃ p, t'.path v = some p ∧ p.length ≤ path.length := by
    intro v path h
    induction h with
    | seed hv => exact ⟨[], hlevelled.seeds _ hv, le_refl _⟩
    | @step e path step _ _ htraversed _ ih =>
      obtain ⟨j, t₂, hat₂, he⟩ := htraversed
      have hj := atLevel_lt hat₂
      obtain ⟨p, parent, hp, hparent, hle⟩ := hlevelled.closed e ⟨j, by omega, t₂, hat₂, he⟩
      obtain ⟨p', hp', hle'⟩ := ih
      obtain rfl := Option.some.inj (hparent.symm.trans hp')
      refine ⟨p, hp, ?_⟩
      rw [length_append, length_singleton]
      omega
  intro path hchained
  obtain ⟨p, hp, hle⟩ := hchain _ path hchained
  obtain rfl := Option.some.inj (hpath.symm.trans hp)
  rw [hdistance]
  exact hle

end

end Levelled

section Late

variable {host : ImpactHost} {s : ImpactSnapshot} {q : GraphImpactRequest} {k depth d : ℕ}
  {t t' : ImpactSearch} {e : GraphEdgeRecord} {v : ℤ}

def Late (v : ℤ) (d : ℕ) (t : ImpactSearch) : Prop := ∃ x ∈ t.primary, x.nodeID = v ∧ d ≤ x.distance

section

variable (h : Late v d t) (hkept : Kept s t) (hdepth : d ≤ depth)
include h hkept hdepth

theorem Late.visit (hvisit : t.visitPrimary host s depth e = .ok t') : Late v d t' := by
  obtain ⟨path, item, hitem, ⟨-, rfl⟩ | ⟨-, rfl⟩⟩ := visitPrimary_cases hvisit
  · exact h
  · obtain ⟨x, hx, hid, hlate⟩ := h
    rcases @putItem_keeps item _ _ hx with hmem | heq
    · exact ⟨x, hmem, hid, hlate⟩
    · obtain ⟨step, -, -, hnode, hdistance, -⟩ := itemOf_spec hitem
      obtain ⟨m, hm, hmrid, hmid⟩ := hkept.items x hx
      obtain ⟨n, hn, hnid, hrid, -⟩ := itemOf_eq_ok hitem
      have hsame := node_eq hm hn (hmrid.symm.trans (heq.trans hrid))
      refine ⟨item, putItem_self _ _, ?_, by omega⟩
      rw [hnode, ← hnid, ← hsame, ← hmid, hid]

theorem Late.fold {edges : List GraphEdgeRecord}
    (hfold : edges.foldlM (visitPrimary host s depth) t = .ok t') : Late v d t' := by
  have hboth : Kept s t' ∧ Late v d t' := by
    refine foldlM_invariant (I := fun t ↦ Kept s t ∧ Late v d t) ?_ ⟨hkept, h⟩ hfold
    rintro t₁ e _ t₂ ⟨hkept₁, hlate⟩ hvisit
    exact ⟨(visitPrimary_spec hkept₁ hvisit).1, hlate.visit hkept₁ hdepth hvisit⟩
  exact hboth.2

theorem Late.level (hlevel : t.level host s q depth = .ok t') : Late v d t' := by
  obtain ⟨t₁, hfold, hsame⟩ := level_cases hlevel
  have hstart : Late v d { t with next := [] } := h
  have hlate : Late v d t₁ :=
    hstart.fold ⟨hkept.items, hkept.paths, hkept.nonneg, by simp⟩ hdepth hfold
  rw [hsame]
  exact hlate

end

theorem Kept.atLevel (hat : AtLevel host s q k t) : Kept s t := by
  induction hat with
  | start => exact .start
  | next _ _ hlevel ih =>
    obtain ⟨hkept, -⟩ := level_spec hlevel ih
    exact ⟨hkept.items, hkept.paths, hkept.nonneg, hkept.next⟩

theorem late_of_rewritten (hat : AtLevel host s q k t) {before after : List GraphEdgeRecord}
    {t₁ : ImpactSearch} (hedges : t.primaryEdges host s q = before ++ e :: after)
    (hbefore : before.foldlM (visitPrimary host s (k + 1)) { t with next := [] } = .ok t₁)
    (hrewritten : Rewritten s (k + 1) t₁ e) (hlevel : t.level host s q (k + 1) = .ok t') :
    Late e.fromNodeID (k + 1) t' := by
  have hkept := Kept.atLevel hat
  obtain ⟨hkept₁, -⟩ := foldlM_visitPrimary
    (⟨hkept.items, hkept.paths, hkept.nonneg, by simp⟩ : Kept s { t with next := [] }) hbefore
  obtain ⟨old, path, item, -, -, hitem, hsettled⟩ := hrewritten
  obtain ⟨t₃, hfold, hsame⟩ := level_cases hlevel
  rw [hedges, foldlM_append] at hfold
  obtain ⟨t₁', hbefore', hfold⟩ := bind_eq_ok.mp hfold
  obtain rfl := Except.ok.inj (hbefore.symm.trans hbefore')
  obtain ⟨t₂, hvisit, hfold⟩ := bind_eq_ok.mp hfold
  have hrecord : t₂ = t₁.record host e path item := by
    rw [visitPrimary, hitem] at hvisit
    have hpure := pure_eq_ok.mp hvisit
    rw [hsettled, if_neg Bool.false_ne_true] at hpure
    exact hpure.symm
  have hlate : Late e.fromNodeID (k + 1) t₂ := by
    obtain ⟨step, -, -, hnode, hdistance, -⟩ := itemOf_spec hitem
    rw [hrecord]
    exact ⟨item, putItem_self _ _, hnode, hdistance.ge⟩
  have hlate₃ := hlate.fold (visitPrimary_spec hkept₁ hvisit).1 (le_refl _) hfold
  rw [hsame]
  exact hlate₃

theorem late_after {m : ℕ} {u u' : ImpactSearch} (hat : AtLevel host s q k t)
    (hlate : ∀ t', t.level host s q (k + 1) = .ok t' → Late v (k + 1) t')
    (hat' : AtLevel host s q m u) (hle : k ≤ m) (hlevel : u.level host s q (m + 1) = .ok u') :
    Late v (k + 1) u' := by
  induction hat' generalizing u' with
  | start =>
    obtain rfl : k = 0 := by omega
    rw [atLevel_unique .start hat] at hlevel
    exact hlate u' hlevel
  | @next m u u₁ hprev hlt hstep ih =>
    rcases Nat.lt_or_eq_of_le hle with hk | rfl
    · have hlate₁ : Late v (k + 1) u₁ := ih (by omega) hstep
      have hlate₂ : Late v (k + 1) { u₁ with frontier := uniqueImpactInts u₁.next } := hlate₁
      exact hlate₂.level (Kept.atLevel (hprev.next hlt hstep)) (by omega) hlevel
    · rw [atLevel_unique (hprev.next hlt hstep) hat] at hlevel
      exact hlate u' hlevel

end Late

section Run

variable {host : ImpactHost} {s : ImpactSnapshot} {q : GraphImpactRequest} {k : ℕ}
  {t t' : ImpactSearch}

theorem idle_level (hempty : t.frontier = []) {depth : ℕ}
    (hlevel : t.level host s q depth = .ok t') : t'.primary = t.primary ∧ t'.next = [] := by
  have hedges : t.primaryEdges host s q = [] := by
    rw [eq_nil_iff_forall_not_mem]
    intro e he
    have hto := (mem_primaryEdges_spec he).2
    rw [hempty] at hto
    cases hto
  obtain ⟨t₁, hfold, hsame⟩ := level_cases hlevel
  rw [hedges, foldlM_nil, pure_eq_ok] at hfold
  rw [hsame, ← hfold]
  exact ⟨rfl, rfl⟩

theorem idle_run (hat : AtLevel host s q k t) (hempty : t.frontier = []) {n : ℕ}
    (hn : k + n < q.maxDepth) :
    ∃ u, AtLevel host s q (k + n) u ∧ u.frontier = [] ∧ u.primary = t.primary := by
  induction n with
  | zero => exact ⟨t, hat, hempty, rfl⟩
  | succ n ih =>
    obtain ⟨u, hu, hidle, hprimary⟩ := ih (by omega)
    obtain ⟨u', hlevel⟩ := @level_isOk host s q u (k + n + 1)
    obtain ⟨hsame, hnext⟩ := idle_level hidle hlevel
    refine ⟨_, hu.next (by omega) hlevel, ?_, hsame.trans hprimary⟩
    rw [hnext]
    rfl

def LastLevel (host : ImpactHost) (s : ImpactSnapshot) (q : GraphImpactRequest)
    (primary : List GraphImpactItem) : Prop :=
  ∃ m t t', m + 1 = q.maxDepth ∧ AtLevel host s q m t ∧ t.level host s q (m + 1) = .ok t' ∧
    t'.primary = primary

theorem lastLevel_of_idle (hat : AtLevel host s q k t) (hempty : t.frontier = []) :
    LastLevel host s q t.primary := by
  have hlt := atLevel_lt hat
  obtain ⟨u, hu, hidle, hprimary⟩ :=
    @idle_run host s q k t hat hempty (q.maxDepth - 1 - k) (by omega)
  obtain ⟨u', hlevel⟩ := @level_isOk host s q u (k + (q.maxDepth - 1 - k) + 1)
  exact ⟨_, u, u', by omega, hu, hlevel, (idle_level hidle hlevel).1.trans hprimary⟩

theorem levels_lastLevel {n : ℕ} (hat : AtLevel host s q k t) (hn : k + (n + 1) = q.maxDepth) :
    ∃ found left, t.levels host s q (n + 1) (k + 1) = .ok (found, left) ∧
      LastLevel host s q found.primary := by
  induction n generalizing k t with
  | zero =>
    rw [levels]
    by_cases hempty : t.frontier = []
    · rw [if_pos hempty]
      exact ⟨t, false, rfl, lastLevel_of_idle hat hempty⟩
    · obtain ⟨t', hlevel⟩ := @level_isOk host s q t (k + 1)
      have hlast : LastLevel host s q t'.primary := ⟨k, t, t', hn, hat, hlevel, rfl⟩
      rw [if_neg hempty, hlevel]
      simp only [bind, Except.bind]
      split_ifs
      · exact ⟨_, _, rfl, hlast⟩
      · exact ⟨_, _, rfl, hlast⟩
      · exact ⟨_, _, rfl, hlast⟩
  | succ n ih =>
    rw [levels]
    by_cases hempty : t.frontier = []
    · rw [if_pos hempty]
      exact ⟨t, false, rfl, lastLevel_of_idle hat hempty⟩
    · obtain ⟨t', hlevel⟩ := @level_isOk host s q t (k + 1)
      rw [if_neg hempty, hlevel]
      simp only [bind, Except.bind]
      have hlt : k + 1 < q.maxDepth := by omega
      have hmode : q.mode ≠ .direct := by
        intro hdirect
        rw [GraphImpactRequest.maxDepth, hdirect] at hlt
        dsimp only at hlt
        omega
      rw [if_neg hmode, if_neg (by simp)]
      exact ih (hat.next hlt hlevel) (by omega)

theorem impactFound_isOk (host : ImpactHost) (s : ImpactSnapshot) (q : GraphImpactRequest) :
    ∃ found primary, impactFound host s q = .ok found ∧ LastLevel host s q primary ∧
      ∀ x, x ∈ found.1 ↔ x ∈ primary := by
  have hdepth := maxDepth_pos q
  by_cases hseeds : (s.resolveImpactSeeds q.paths maxImpactSeeds).nodes = []
  · have hempty : (impactStart (s.resolveImpactSeeds q.paths maxImpactSeeds).nodes).frontier =
        [] := by
      rw [hseeds]
      rfl
    refine ⟨([], []), _, ?_, lastLevel_of_idle .start hempty, fun x ↦ Iff.rfl⟩
    rw [impactFound, if_pos hseeds]
  · obtain ⟨n, hn⟩ : ∃ n, n + 1 = q.maxDepth := ⟨q.maxDepth - 1, by omega⟩
    obtain ⟨found, left, hrun, hlast⟩ := @levels_lastLevel host s q 0 _ n .start (by omega)
    rw [hn] at hrun
    refine ⟨(sortImpactItems host found.primary, sortImpactItems host found.inferred), _, ?_, hlast,
      fun x ↦ (perm_insertionSort _ _).mem_iff⟩
    rw [impactFound, if_neg hseeds, hrun]
    rfl

theorem applyImpactBudget_primary_eq {primary inferred : List GraphImpactItem} {offset : ℕ} :
    ∃ n, (applyImpactBudget host q primary inferred offset).primary =
      (primary.drop offset).take n ∧ (offset < primary.length → 0 < n) := by
  have hcut : ∀ o n, (((primary ++ inferred).drop o).take n).take
      (min (o + n) primary.length - o) =
        (primary.drop o).take (min (o + n) primary.length - o) := by
    intro o n
    rw [take_take, Nat.min_eq_left (by omega)]
    rcases Nat.le_total o primary.length with ho | ho
    · rw [drop_append_of_le_length ho, take_append_of_le_length]
      rw [length_drop]
      omega
    · have hzero : min (o + n) primary.length - o = 0 := by omega
      rw [hzero, take_zero, take_zero]
  by_cases hoffset : offset ≤ (primary ++ inferred).length
  · have hpage : (applyImpactBudget host q primary inferred offset).primary =
        (pageRows host q (primary ++ inferred) offset).take
          (min (offset + (pageRows host q (primary ++ inferred) offset).length) primary.length -
            offset) := by
      simp only [applyImpactBudget, Nat.min_eq_left hoffset]
      rfl
    refine ⟨min (offset + (pageRows host q (primary ++ inferred) offset).length) primary.length -
      offset, ?_, ?_⟩
    · rw [hpage, ← hcut, ← pageRows_eq_take]
    · intro hlt
      have hne := @pageRows_ne_nil host q offset (primary ++ inferred)
        (by rw [length_append]; omega)
      have hpos := length_pos_iff.mpr hne
      omega
  · rw [length_append] at hoffset
    refine ⟨0, ?_, fun hlt ↦ by omega⟩
    have hzero : ∀ n, min (primary.length + inferred.length + n) primary.length -
        (primary.length + inferred.length) = 0 := by
      intro n
      omega
    simp only [applyImpactBudget, length_append, Nat.min_eq_right (Nat.le_of_not_le hoffset),
      hzero, take_zero]

theorem mem_items_iff {found : List GraphImpactItem × List GraphImpactItem}
    (hfound : impactFound host s q = .ok found) (x : GraphImpactItem) :
    x ∈ found.1 ↔ ∃ offset env, graphImpact host s q offset = .ok env ∧ x ∈ env.items := by
  constructor
  · intro hx
    obtain ⟨i, hi, rfl⟩ := getElem_of_mem hx
    obtain ⟨env, henv, hitems, -⟩ := @graphImpact_eq_ok host s q i _ hfound
    obtain ⟨n, hpage, hpos⟩ := @applyImpactBudget_primary_eq host q found.1 found.2 i
    refine ⟨i, env, henv, ?_⟩
    rw [hitems, hpage, drop_eq_getElem_cons hi]
    obtain ⟨m, rfl⟩ := Nat.exists_eq_add_of_lt (hpos hi)
    exact mem_cons_self
  · rintro ⟨offset, env, henv, hx⟩
    obtain ⟨env', henv', hitems, -⟩ := @graphImpact_eq_ok host s q offset _ hfound
    obtain rfl := Except.ok.inj (henv.symm.trans henv')
    obtain ⟨n, hpage, -⟩ := @applyImpactBudget_primary_eq host q found.1 found.2 offset
    rw [hitems, hpage] at hx
    exact mem_of_mem_drop (mem_of_mem_take hx)

/-- The items of every page are sound just if no node gets another path on a later level than its
own. -/
theorem impact_paths_sound_iff (host : ImpactHost) (s : ImpactSnapshot) (q : GraphImpactRequest) :
    (∀ offset env, graphImpact host s q offset = .ok env → ∀ x ∈ env.items, SoundItem host s q x) ↔
      NeverRewritten host s q := by
  obtain ⟨found, primary, hfound, ⟨m, t, t', hm, hat, hlevel, rfl⟩, hmem⟩ :=
    impactFound_isOk host s q
  constructor
  · intro hsound k u hu before e after u₁ hedges hbefore hrewritten
    have hk := atLevel_lt hu
    obtain ⟨x, hx, hid, hlate⟩ := late_after hu
      (fun u' ↦ late_of_rewritten hu hedges hbefore hrewritten) hat (by omega) hlevel
    obtain ⟨offset, env, henv, hitem⟩ := (mem_items_iff hfound x).mp ((hmem x).mpr hx)
    -- The path that was given up is a shorter chain.
    obtain ⟨old, -, -, hold, hshort, -⟩ := hrewritten
    have hchained := (Chained.atLevel hu).edges hu hedges hbefore
    have hleast := (hsound offset env henv x hitem).least old (hid ▸ hchained.paths _ old hold)
    omega
  · intro hnever offset env henv x hx
    exact soundItem_of_never hnever hat hm hlevel
      ((hmem x).mp ((mem_items_iff hfound x).mpr ⟨offset, env, henv, hx⟩))

def sampleImport : GraphEdgeRecord := { sampleCall 0 1 0 with relation := "imports" }

def sampleDiamond : ImpactSnapshot where
  generationID := zeroDigest
  unresolvedCount := 0
  nodes := [sampleImpactNode 0 "a.go", sampleImpactNode 1 "b.go", sampleImpactNode 2 "c.go"]
  edges := [sampleImport, sampleCall 1 2 0, sampleCall 2 1 2]
  evidence := []
  unresolved := []
  nodeIDs := sampleCallers.nodeIDs
  edgeIDs := by decide
  edgeKeys := by decide +kernel
  endpoints := by decide
  nodeIDs_nonneg := sampleCallers.nodeIDs_nonneg
  nodeKeys := sampleCallers.nodeKeys
  crossRIDs := sampleCallers.crossRIDs

theorem one_le_fifty : 1 ≤ 50 := by decide

def sampleTransitive : GraphImpactRequest where
  paths := ["a.go"]
  mode := .transitive
  depth := 2
  limit := 50
  tokenBudget := 4000
  relations := ["calls", "imports"]
  omissions := []
  warnings := []
  depth_pos := Nat.two_pos
  limit_pos := one_le_fifty

theorem diamond_distance_not_least :
    ∃ env, graphImpact sampleImpactHost sampleDiamond sampleTransitive 0 = .ok env ∧
      ∃ x ∈ env.items, ¬SoundItem sampleImpactHost sampleDiamond sampleTransitive x := by
  have hpage : ((graphImpact sampleImpactHost sampleDiamond sampleTransitive 0).toOption.any
      fun env ↦ env.items.any fun x ↦ x.nodeID = 1 && x.distance = 2) = true := by
    decide +kernel
  obtain ⟨env, henv, hpage⟩ := any_toOption.mp hpage
  obtain ⟨x, hx, hitem⟩ := any_eq_true.mp hpage
  rw [Bool.and_eq_true, decide_eq_true_eq, decide_eq_true_eq] at hitem
  refine ⟨env, henv, x, hx, ?_⟩
  intro hsound
  have hseed : sampleTransitive.Seed sampleDiamond 0 := by
    rw [GraphImpactRequest.Seed]
    decide +kernel
  obtain ⟨step, hstep⟩ : ∃ step, graphImpactStep sampleDiamond sampleImport = .ok step := ⟨_, rfl⟩
  have hedge : sampleImport ∈
      (impactStart (sampleDiamond.resolveImpactSeeds sampleTransitive.paths
        maxImpactSeeds).nodes).primaryEdges sampleImpactHost sampleDiamond sampleTransitive := by
    decide +kernel
  have hchain : EvidenceChain sampleImpactHost sampleDiamond sampleTransitive 1 ([] ++ [step]) :=
    .step (e := sampleImport) (.seed hseed) (mem_primaryEdges_spec hedge).1
      ⟨0, _, .start, hedge⟩ hstep
  rw [← hitem.1] at hchain
  have hleast := hsound.least _ hchain
  rw [hitem.2, nil_append, length_singleton] at hleast
  exact absurd hleast (by decide)

end Run

end MiLsp.Query
