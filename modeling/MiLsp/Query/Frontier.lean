import MiLsp.Query.Neighborhood

namespace MiLsp.Query

open MiLsp.Graph List Direction

def Direction.ends : Direction → GraphEdgeRecord → List ℤ
  | .outward, e => [e.fromNodeID]
  | .inward, e => [e.toNodeID]
  | .both, e => [e.fromNodeID, e.toNodeID]

theorem take_append_take {α : Type} (m : ℕ) (a b c : List α) :
    (a ++ b.take (m - a.length) ++ c).take m = (a ++ b ++ c).take m := by
  rw [append_assoc, append_assoc, take_append, take_append]
  rw [take_append, take_append, take_take, Nat.min_self, length_take]
  congr 1
  rcases Nat.le_total b.length (m - a.length) with h | h
  · rw [Nat.min_eq_right h]
  · rw [Nat.min_eq_left h, Nat.sub_self, Nat.sub_eq_zero_of_le h]

theorem fetchEdges_eq (rowsOf : ℤ → List GraphEdgeRecord) (maxRows : ℕ)
    (result : List GraphEdgeRecord) (nodes : List ℤ) (h : result.length ≤ maxRows) :
    fetchEdges rowsOf maxRows result nodes = (result ++ nodes.flatMap rowsOf).take maxRows := by
  induction nodes generalizing result with
  | nil => simp [fetchEdges, take_of_length_le h]
  | cons node rest ih =>
    rw [fetchEdges, flatMap_cons]
    by_cases hfull : maxRows ≤ result.length
    · rw [if_pos hfull, take_append_of_le_length hfull, take_of_length_le h]
    · rw [if_neg hfull, ih _ (by rw [length_append, length_take]; omega),
        take_append_take, append_assoc]

section Store

variable {s : GraphQuerySnapshot} {frontier : List ℤ} {direction : Direction}
  {relations : List String} {maxRows : ℕ} {e : GraphEdgeRecord}

theorem GraphQuerySnapshot.nodup_edges (s : GraphQuerySnapshot) : s.edges.Nodup :=
  .of_map _ s.edgeIDs

theorem GraphQuerySnapshot.edge_eq {e e' : GraphEdgeRecord} (he : e ∈ s.edges)
    (he' : e' ∈ s.edges) (h : e.edgeID = e'.edgeID) : e = e' :=
  inj_on_of_nodup_map s.edgeIDs he he' h

theorem GraphQuerySnapshot.nodup_map_edgeID {edges : List GraphEdgeRecord}
    (hsub : ∀ e ∈ edges, e ∈ s.edges) (h : edges.Nodup) : (edges.map (·.edgeID)).Nodup :=
  h.map_on fun a ha b hb hab ↦ s.edge_eq (hsub a ha) (hsub b hb) hab

theorem mem_edgesAt {node : ℤ} : e ∈ s.edgesAt direction relations node ↔
    e ∈ s.edges ∧ direction.near e = node ∧ allowed relations e := by
  simp [GraphQuerySnapshot.edgesAt, (perm_insertionSort _ _).mem_iff]

def canonicalNodes (frontier : List ℤ) : List ℤ := frontier.dedup.insertionSort (· ≤ ·)

theorem mem_canonicalNodes {v : ℤ} : v ∈ canonicalNodes frontier ↔ v ∈ frontier := by
  rw [canonicalNodes, (perm_insertionSort _ _).mem_iff, mem_dedup]

theorem nodup_canonicalNodes (frontier : List ℤ) : (canonicalNodes frontier).Nodup :=
  (perm_insertionSort _ _).nodup_iff.mpr (nodup_dedup _)

theorem length_canonicalNodes_le (frontier : List ℤ) :
    (canonicalNodes frontier).length ≤ frontier.length := by
  rw [canonicalNodes, length_insertionSort]
  exact (dedup_sublist _).length_le

theorem edgesFromFrontier_eq : s.edgesFromFrontier frontier direction relations maxRows =
    (((canonicalNodes frontier).take maxRows).flatMap (s.edgesAt direction relations)).take
      maxRows :=
  fetchEdges_eq _ _ _ _ (Nat.zero_le _)

theorem mem_edgesFromFrontier (h : e ∈ s.edgesFromFrontier frontier direction relations maxRows) :
    e ∈ s.edges ∧ allowed relations e ∧ direction.near e ∈ frontier := by
  rw [edgesFromFrontier_eq] at h
  obtain ⟨node, hnode, he⟩ := mem_flatMap.mp (mem_of_mem_take h)
  obtain ⟨hmem, rfl, hallowed⟩ := mem_edgesAt.mp he
  exact ⟨hmem, hallowed, mem_canonicalNodes.mp (mem_of_mem_take hnode)⟩

theorem nodup_edgesFromFrontier :
    (s.edgesFromFrontier frontier direction relations maxRows).Nodup := by
  rw [edgesFromFrontier_eq]
  refine List.Nodup.sublist (take_sublist _ _) ?_
  refine nodup_flatMap.mpr ⟨?_, ?_⟩
  · intro node _
    exact (perm_insertionSort _ _).nodup_iff.mpr (s.nodup_edges.filter _)
  · refine ((nodup_canonicalNodes frontier).sublist (take_sublist _ _)).imp ?_
    intro a b hab e ha hb
    exact hab ((mem_edgesAt.mp ha).2.1.symm.trans (mem_edgesAt.mp hb).2.1)

theorem edgesFromFrontier_complete (hfrontier : frontier.length ≤ maxRows)
    (hlt : (s.edgesFromFrontier frontier direction relations maxRows).length < maxRows)
    (he : e ∈ s.edges) (hallowed : allowed relations e) (hnear : direction.near e ∈ frontier) :
    e ∈ s.edgesFromFrontier frontier direction relations maxRows := by
  have hnodes : (canonicalNodes frontier).take maxRows = canonicalNodes frontier :=
    take_of_length_le ((length_canonicalNodes_le frontier).trans hfrontier)
  rw [edgesFromFrontier_eq, hnodes] at hlt ⊢
  rw [length_take] at hlt
  rw [take_of_length_le (by omega), mem_flatMap]
  exact ⟨_, mem_canonicalNodes.mpr hnear, mem_edgesAt.mpr ⟨he, rfl, hallowed⟩⟩

end Store

section Interleave

def Listed (rows : List GraphEdgeRecord) (e : GraphEdgeRecord) : Prop :=
  ∃ x ∈ rows, x.edgeID = e.edgeID

def untaken (result : List GraphEdgeRecord) (e : GraphEdgeRecord) : Bool :=
  !result.any (·.edgeID = e.edgeID)

/-- Edges are taken from two sides in turn, the next one from the first of them. -/
inductive Draws (maxRows : ℕ) : List GraphEdgeRecord → List GraphEdgeRecord →
    List GraphEdgeRecord → List GraphEdgeRecord → Prop
  | stop {cur other result} (h : maxRows ≤ result.length ∨ cur = [] ∧ other = []) :
      Draws maxRows cur other result result
  | draw {cur other result r} (hroom : result.length < maxRows)
      (h : Draws maxRows other (nextEdge result cur).2
        (result ++ (nextEdge result cur).1.toList) r) : Draws maxRows cur other result r

variable {maxRows : ℕ} {result result' cur other r : List GraphEdgeRecord} {e : GraphEdgeRecord}

theorem untaken_iff : untaken result e = true ↔ ¬Listed result e := by
  simp [untaken, Listed]

theorem Listed.mono (h : Listed result e) (hle : result <+: result') : Listed result' e := by
  obtain ⟨x, hx, hid⟩ := h
  exact ⟨x, hle.subset hx, hid⟩

theorem nextEdge_spec (result rows : List GraphEdgeRecord) :
    (nextEdge result rows).1 = rows.find? (untaken result) ∧
      ∃ skipped, rows = skipped ++ ((nextEdge result rows).1.toList ++ (nextEdge result rows).2) ∧
        ∀ e ∈ skipped, Listed result e := by
  induction rows with
  | nil => exact ⟨rfl, [], rfl, fun _ he ↦ absurd he not_mem_nil⟩
  | cons x rows ih =>
    have hany : result.any (·.edgeID = x.edgeID) = true ↔ ¬untaken result x = true := by
      simp [untaken]
    rw [nextEdge, find?_cons]
    split_ifs with htaken
    · obtain ⟨hfind, skipped, hrows, hskipped⟩ := ih
      rw [Bool.eq_false_iff.mpr (hany.mp htaken)]
      refine ⟨hfind, x :: skipped, congrArg (x :: ·) hrows, forall_mem_cons.mpr ⟨?_, hskipped⟩⟩
      exact not_not.mp (untaken_iff.not.mp (hany.mp htaken))
    · rw [not_not.mp (hany.not.mp htaken)]
      exact ⟨rfl, [], rfl, fun _ he ↦ absurd he not_mem_nil⟩

theorem length_nextEdge (result rows : List GraphEdgeRecord) :
    (nextEdge result rows).2.length ≤ rows.length - 1 := by
  induction rows with
  | nil => rfl
  | cons x rows ih =>
    rw [nextEdge]
    split_ifs
    · exact ih.trans (by simp)
    · simp

theorem draws_interleaveRounds {fuel : ℕ} (hfuel : cur.length + other.length ≤ fuel) :
    Draws maxRows cur other result (interleaveRounds maxRows fuel cur other result) := by
  induction fuel generalizing cur other result with
  | zero =>
    have hcur : cur = [] := length_eq_zero_iff.mp (by omega)
    have hother : other = [] := length_eq_zero_iff.mp (by omega)
    exact .stop (.inr ⟨hcur, hother⟩)
  | succ fuel ih =>
    rw [interleaveRounds]
    dsimp only
    split_ifs with hstop hfull
    · exact .stop hstop
    · exact .draw (by omega) (.stop (.inl hfull))
    · have hcur := length_nextEdge result cur
      have hother := length_nextEdge (result ++ (nextEdge result cur).1.toList) other
      exact .draw (by omega) (.draw (by omega) (ih (by omega)))

namespace Draws

section

variable (h : Draws maxRows cur other result r)
include h

theorem append : result <+: r := by
  induction h with
  | stop _ => exact prefix_rfl
  | draw _ _ ih => exact (List.prefix_append _ _).trans ih

theorem length_le (hle : result.length ≤ maxRows) : r.length ≤ maxRows := by
  induction h with
  | stop _ => exact hle
  | @draw cur _ result _ hroom _ ih =>
    refine ih ?_
    cases (nextEdge result cur).1 <;> simp <;> omega

theorem nodup (hnodup : (result.map (·.edgeID)).Nodup) : (r.map (·.edgeID)).Nodup := by
  induction h with
  | stop _ => exact hnodup
  | @draw cur _ result _ _ _ ih =>
    refine ih ?_
    cases hedge : (nextEdge result cur).1 with
    | none => simpa using hnodup
    | some e =>
      rw [(nextEdge_spec result cur).1] at hedge
      have hfresh := untaken_iff.mp (find?_some hedge)
      rw [Option.toList_some, map_append]
      refine List.Nodup.append hnodup (by simp) ?_
      intro id hid hmem
      obtain ⟨x, hx, rfl⟩ := mem_map.mp hid
      exact hfresh ⟨x, hx, by simpa using hmem⟩

theorem mem : ∀ e ∈ r, e ∈ result ∨ e ∈ cur ∨ e ∈ other := by
  induction h with
  | stop _ => exact fun e he ↦ .inl he
  | @draw cur _ result _ _ _ ih =>
    obtain ⟨-, skipped, hrows, -⟩ := nextEdge_spec result cur
    intro e he
    have hcur : e ∈ (nextEdge result cur).1.toList ∨ e ∈ (nextEdge result cur).2 → e ∈ cur := by
      intro h
      rw [hrows]
      exact mem_append_right skipped (mem_append.mpr h)
    rcases ih e he with h | h | h
    · rcases mem_append.mp h with h | h
      · exact .inl h
      · exact .inr (.inl (hcur (.inl h)))
    · exact .inr (.inr h)
    · exact .inr (.inl (hcur (.inr h)))

theorem complete (hlt : r.length < maxRows) : ∀ e, e ∈ cur ∨ e ∈ other → Listed r e := by
  induction h with
  | stop hstop =>
    obtain ⟨rfl, rfl⟩ := hstop.resolve_left (Nat.not_le.mpr hlt)
    simp
  | @draw cur _ result _ _ h ih =>
    obtain ⟨-, skipped, hrows, hskipped⟩ := nextEdge_spec result cur
    intro e he
    rcases he with he | he
    · rw [hrows, mem_append, mem_append] at he
      rcases he with he | he | he
      · exact (hskipped e he).mono ((List.prefix_append _ _).trans h.append)
      · exact ⟨e, h.append.subset (mem_append_right _ he), rfl⟩
      · exact ih hlt e (.inr he)
    · exact ih hlt e (.inl he)

theorem turns {n : ℕ} (hn : result.length ≤ n) (hr : n < r.length)
    (hcur : ∃ e ∈ cur, ¬Listed (r.take n) e) (hother : ∃ e ∈ other, ¬Listed (r.take n) e) :
    r[n]? = (if (n - result.length) % 2 = 0 then cur else other).find? (untaken (r.take n)) := by
  induction h with
  | stop _ => omega
  | @draw cur other result r _ h ih =>
    obtain ⟨hfind, skipped, hrows, hskipped⟩ := nextEdge_spec result cur
    have htake : result <+: r.take n := by
      rw [prefix_take_iff]
      exact ⟨(List.prefix_append _ _).trans h.append, hn⟩
    obtain ⟨e, he, hfresh⟩ := hcur
    cases hedge : (nextEdge result cur).1 with
    | none =>
      rw [hfind, find?_eq_none] at hedge
      exact absurd (untaken_iff.mpr fun hl ↦ hfresh (hl.mono htake)) (hedge e he)
    | some x =>
      rw [hedge, Option.toList_some] at h ih hrows
      rcases Nat.eq_or_lt_of_le hn with rfl | hlt
      · obtain ⟨more, rfl⟩ := h.append
        simp [← hfind, hedge]
      · have hle : (result ++ [x]).length ≤ n := by
          rw [length_append]
          exact hlt
        have hlater : result ++ [x] <+: r.take n := prefix_take_iff.mpr ⟨h.append, hle⟩
        have hbefore : ∀ y ∈ skipped ++ [x], Listed (r.take n) y := by
          intro y hy
          rcases mem_append.mp hy with hy | hy
          · exact (hskipped y hy).mono htake
          · exact ⟨y, hlater.subset (mem_append_right _ hy), rfl⟩
        rw [← append_assoc] at hrows
        have hrest : cur.find? (untaken (r.take n)) =
            (nextEdge result cur).2.find? (untaken (r.take n)) := by
          have hnone : (skipped ++ [x]).find? (untaken (r.take n)) = none :=
            find?_eq_none.mpr fun y hy hfree ↦ untaken_iff.mp hfree (hbefore y hy)
          rw [hrows, find?_append, hnone, Option.none_or, ← hrows]
        have hmem : e ∈ (nextEdge result cur).2 := by
          rw [hrows] at he
          exact (mem_append.mp he).resolve_left fun h ↦ hfresh (hbefore e h)
        rw [ih hle hr hother ⟨e, hmem, hfresh⟩, length_append, length_singleton]
        have hparity : (n - (result.length + 1)) % 2 = 0 ↔ ¬(n - result.length) % 2 = 0 := by omega
        by_cases heven : (n - result.length) % 2 = 0
        · rw [if_neg (hparity.not.mpr (not_not.mpr heven)), if_pos heven, hrest]
        · rw [if_pos (hparity.mpr heven), if_neg heven]

end

end Draws

end Interleave

section Read

variable {s : GraphQuerySnapshot} {frontier : List ℤ} {direction : Direction}
  {relations : List String} {maxRows : ℕ} {e : GraphEdgeRecord}

/-- The side whose turn it is gives its first edge that was not taken, as long as both have one. -/
def Alternates (out inn r : List GraphEdgeRecord) : Prop :=
  ∀ n < r.length, (∃ e ∈ out, ¬Listed (r.take n) e) → (∃ e ∈ inn, ¬Listed (r.take n) e) →
    r[n]? = (if n % 2 = 0 then out else inn).find? (untaken (r.take n))

section

variable (out inn : List GraphEdgeRecord) (maxRows : ℕ)

theorem draws_interleaveGraphEdges :
    Draws maxRows out inn [] (interleaveGraphEdges out inn maxRows) :=
  draws_interleaveRounds (le_refl _)

theorem interleave_spec :
    ((interleaveGraphEdges out inn maxRows).map (·.edgeID)).Nodup ∧
      (∀ e ∈ interleaveGraphEdges out inn maxRows, e ∈ out ∨ e ∈ inn) ∧
      ((interleaveGraphEdges out inn maxRows).length < maxRows →
        ∀ e, e ∈ out ∨ e ∈ inn → Listed (interleaveGraphEdges out inn maxRows) e) := by
  have h := draws_interleaveGraphEdges out inn maxRows
  exact ⟨h.nodup nodup_nil, fun e he ↦ (h.mem e he).resolve_left not_mem_nil, h.complete⟩

theorem interleaveGraphEdges_faithful :
    ((interleaveGraphEdges out inn maxRows).map (·.edgeID)).Nodup ∧
      (interleaveGraphEdges out inn maxRows).length ≤ maxRows ∧
      (∀ e ∈ interleaveGraphEdges out inn maxRows, e ∈ out ∨ e ∈ inn) ∧
      (((out ++ inn).map (·.edgeID)).dedup.length ≤ maxRows →
        ∀ e, e ∈ out ∨ e ∈ inn → Listed (interleaveGraphEdges out inn maxRows) e) ∧
      (maxRows < ((out ++ inn).map (·.edgeID)).dedup.length →
        (interleaveGraphEdges out inn maxRows).length = maxRows ∧
          Alternates out inn (interleaveGraphEdges out inn maxRows)) := by
  obtain ⟨hnodup, hmem, hcomplete⟩ := interleave_spec out inn maxRows
  have h := draws_interleaveGraphEdges out inn maxRows
  have hle := h.length_le (Nat.zero_le _)
  generalize interleaveGraphEdges out inn maxRows = r at *
  have hids : r.map (·.edgeID) ⊆ ((out ++ inn).map (·.edgeID)).dedup := by
    intro id hid
    obtain ⟨e, he, rfl⟩ := mem_map.mp hid
    exact mem_dedup.mpr (mem_map_of_mem (mem_append.mpr (hmem e he)))
  have hback : (∀ e, e ∈ out ∨ e ∈ inn → Listed r e) ↔
      ((out ++ inn).map (·.edgeID)).dedup ⊆ r.map (·.edgeID) := by
    simp [List.subset_def, Listed, or_imp, forall_and]
  have hsubperm := subperm_of_subset hnodup hids
  refine ⟨hnodup, hle, hmem, fun hunion ↦ ?_, fun hunion ↦ ⟨?_, ?_⟩⟩
  · rcases Nat.lt_or_ge r.length maxRows with hlt | hge
    · exact hcomplete hlt
    · rw [hback]
      exact (hsubperm.perm_of_length_le (by simpa using hunion.trans hge)).symm.subset
  · by_contra hne
    have hall := hback.mp (hcomplete (by omega))
    have := (subperm_of_subset (nodup_dedup _) hall).length_le
    rw [length_map] at this
    omega
  · exact fun n hn ↦ h.turns (Nat.zero_le _) hn

end

theorem mem_readEdges (h : e ∈ s.readEdges frontier direction relations maxRows) :
    e ∈ s.edges ∧ allowed relations e ∧ ∃ u ∈ direction.ends e, u ∈ frontier := by
  cases direction with
  | inward =>
    obtain ⟨he, hallowed, hnear⟩ := mem_edgesFromFrontier h
    exact ⟨he, hallowed, _, mem_singleton.mpr rfl, hnear⟩
  | outward =>
    obtain ⟨he, hallowed, hnear⟩ := mem_edgesFromFrontier h
    exact ⟨he, hallowed, _, mem_singleton.mpr rfl, hnear⟩
  | both =>
    rcases (interleave_spec _ _ _).2.1 e h with h | h
    · obtain ⟨he, hallowed, hnear⟩ := mem_edgesFromFrontier h
      exact ⟨he, hallowed, _, by simp [ends, near], hnear⟩
    · obtain ⟨he, hallowed, hnear⟩ := mem_edgesFromFrontier h
      exact ⟨he, hallowed, _, by simp [ends, near], hnear⟩

theorem nodup_readEdges :
    ((s.readEdges frontier direction relations maxRows).map (·.edgeID)).Nodup := by
  cases direction with
  | inward =>
    exact s.nodup_map_edgeID (fun e h ↦ (mem_edgesFromFrontier h).1) nodup_edgesFromFrontier
  | outward =>
    exact s.nodup_map_edgeID (fun e h ↦ (mem_edgesFromFrontier h).1) nodup_edgesFromFrontier
  | both => exact (interleave_spec _ _ _).1

theorem length_le_of_listed {rows result : List GraphEdgeRecord} (hnodup : rows.Nodup)
    (hrows : ∀ e ∈ rows, e ∈ s.edges) (hresult : ∀ e ∈ result, e ∈ s.edges)
    (h : ∀ e ∈ rows, Listed result e) : rows.length ≤ result.length := by
  refine (subperm_of_subset hnodup ?_).length_le
  intro e he
  obtain ⟨x, hx, hid⟩ := h e he
  rwa [← s.edge_eq (hresult x hx) (hrows e he) hid]

theorem readEdges_complete (hfrontier : frontier.length ≤ maxRows)
    (hlt : (s.readEdges frontier direction relations maxRows).length < maxRows) (he : e ∈ s.edges)
    (hallowed : allowed relations e) (hends : ∃ u ∈ direction.ends e, u ∈ frontier) :
    e ∈ s.readEdges frontier direction relations maxRows := by
  cases direction with
  | inward =>
    obtain ⟨u, hu, hmem⟩ := hends
    obtain rfl := mem_singleton.mp hu
    exact edgesFromFrontier_complete hfrontier hlt he hallowed hmem
  | outward =>
    obtain ⟨u, hu, hmem⟩ := hends
    obtain rfl := mem_singleton.mp hu
    exact edgesFromFrontier_complete hfrontier hlt he hallowed hmem
  | both =>
    obtain ⟨-, hsub, hcomplete⟩ := interleave_spec
      (s.edgesFromFrontier frontier .outward relations maxRows)
      (s.edgesFromFrontier frontier .inward relations maxRows) maxRows
    have hall := hcomplete hlt
    have hedges : ∀ x ∈ s.readEdges frontier .both relations maxRows, x ∈ s.edges :=
      fun x hx ↦ (mem_readEdges hx).1
    have hside : ∀ side, (∀ x ∈ s.edgesFromFrontier frontier side relations maxRows,
        Listed (s.readEdges frontier .both relations maxRows) x) →
        (s.edgesFromFrontier frontier side relations maxRows).length < maxRows := by
      intro side h
      refine Nat.lt_of_le_of_lt ?_ hlt
      exact length_le_of_listed nodup_edgesFromFrontier (fun x hx ↦ (mem_edgesFromFrontier hx).1)
        hedges h
    have hlisted : Listed (s.readEdges frontier .both relations maxRows) e := by
      obtain ⟨u, hu, hmem⟩ := hends
      rcases mem_pair.mp hu with rfl | rfl
      · refine hall e (.inl ?_)
        exact edgesFromFrontier_complete hfrontier (hside _ fun x hx ↦ hall x (.inl hx)) he
          hallowed hmem
      · refine hall e (.inr ?_)
        exact edgesFromFrontier_complete hfrontier (hside _ fun x hx ↦ hall x (.inr hx)) he
          hallowed hmem
    obtain ⟨x, hx, hid⟩ := hlisted
    rwa [← s.edge_eq (hedges x hx) he hid]

end Read

end MiLsp.Query
