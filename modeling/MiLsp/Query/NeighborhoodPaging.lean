import MiLsp.Library.Paging
import MiLsp.Library.Ranks
import MiLsp.Query.Completeness

namespace MiLsp.Query

open MiLsp.Graph Library Attempt Paging Ranks List

section Listing

variable (host : GraphQueryHost) (s : GraphQuerySnapshot) (q : GraphQueryRequest) (root : ℤ)

def listing (maxRows : ℕ) : List GraphQueryItem :=
  sortGraphItems host
    ((traverse s q root maxRows).works.filterMap fun w ↦ (graphItem s w).toOption)

/-- The whole neighbourhood: a row budget above the number of edges cuts nothing. -/
def completeListing : List GraphQueryItem := listing host s q root (s.edges.length + 1)

def pageLength (offset : ℕ) : ℕ :=
  (admitItems host q 0 false
    (((listing host s q root (q.limit + offset + 1)).drop offset).take q.limit)).1.length

variable {host s q root} {maxRows : ℕ} {item : GraphQueryItem} {w : GraphEdgeWork}

theorem node_isSome {id : ℤ} (h : id ∈ s.nodes.map (·.nodeID)) : ∃ n, s.node id = some n := by
  obtain ⟨n, hn, rfl⟩ := mem_map.mp h
  exact Option.isSome_iff_exists.mp (find?_isSome.mpr ⟨n, hn, decide_eq_true rfl⟩)

theorem exists_graphItem (hedge : w.edge ∈ s.edges)
    (hnode : w.nodeID = w.edge.fromNodeID ∨ w.nodeID = w.edge.toNodeID) :
    ∃ item, graphItem s w = .ok item := by
  obtain ⟨hfrom, hto⟩ := s.endpoints w.edge hedge
  have hmem : w.nodeID ∈ s.nodes.map (·.nodeID) := by
    rcases hnode with h | h
    · exact h ▸ hfrom
    · exact h ▸ hto
  obtain ⟨n, hn⟩ := node_isSome hmem
  obtain ⟨source, hsource⟩ := node_isSome hfrom
  obtain ⟨target, htarget⟩ := node_isSome hto
  refine ⟨graphEdgeItem s n source target w, ?_⟩
  rw [graphItem, hn, hsource, htarget]
  rfl

theorem graphItem_ok {t : Traversal} (hsound : Sound s t) (hw : w ∈ t.works) :
    ∃ item, graphItem s w = .ok item :=
  exists_graphItem (hsound.edges w hw) (hsound.nodes w hw)

theorem forall₂_filterMap {works : List GraphEdgeWork}
    (h : ∀ w ∈ works, ∃ item, graphItem s w = .ok item) :
    List.Forall₂ (fun w item ↦ graphItem s w = .ok item) works
      (works.filterMap fun w ↦ (graphItem s w).toOption) := by
  induction works with
  | nil => exact .nil
  | cons w works ih =>
    obtain ⟨item, hitem⟩ := h w mem_cons_self
    rw [filterMap_cons_some (b := item) (by rw [hitem]; rfl)]
    exact .cons hitem (ih fun w hw ↦ h w (mem_cons_of_mem _ hw))

theorem forall₂_items (s : GraphQuerySnapshot) (q : GraphQueryRequest) (root : ℤ) (maxRows : ℕ) :
    List.Forall₂ (fun w item ↦ graphItem s w = .ok item) (traverse s q root maxRows).works
      ((traverse s q root maxRows).works.filterMap fun w ↦ (graphItem s w).toOption) :=
  forall₂_filterMap fun _ hw ↦ graphItem_ok (traverse_sound s q root maxRows) hw

theorem perm_listing : (listing host s q root maxRows).Perm
    ((traverse s q root maxRows).works.filterMap fun w ↦ (graphItem s w).toOption) :=
  perm_insertionSort _ _

theorem length_listing :
    (listing host s q root maxRows).length = (traverse s q root maxRows).works.length :=
  perm_listing.length_eq.trans (forall₂_items s q root maxRows).length_eq.symm

theorem mem_listing : item ∈ listing host s q root maxRows ↔
    ∃ w ∈ (traverse s q root maxRows).works, graphItem s w = .ok item := by
  rw [perm_listing.mem_iff]
  constructor
  · exact exists_of_mem_right (forall₂_items s q root maxRows)
  · intro ⟨w, hw, hitem⟩
    exact mem_filterMap.mpr ⟨w, hw, by rw [hitem]; rfl⟩

theorem neighborhoodPage_listing (offset : ℕ) :
    ∃ visited frontier, neighborhoodPage host s q root offset =
      .ok (finalizeGraphItems host s q (listing host s q root (q.limit + offset + 1)) visited
        frontier offset) :=
  ⟨_, _, neighborhoodPage_eq_ok.mpr ⟨_, mapM_eq_ok.mpr (forall₂_items s q root _), rfl⟩⟩

theorem nodup_edgeKeys : ((listing host s q root maxRows).map (·.edgeKey)).Nodup := by
  have hsound := traverse_sound s q root maxRows
  have hkeys : ((traverse s q root maxRows).works.map fun w ↦ hexString w.edge.edgeKey).Nodup := by
    have hnodup : (traverse s q root maxRows).works.Nodup := .of_map _ hsound.distinct
    refine hnodup.map_on fun w hw w' hw' heq ↦ ?_
    have hedge : w.edge = w'.edge := inj_on_of_nodup_map s.edgeKeys (hsound.edges w hw)
      (hsound.edges w' hw') (hexString_injective heq)
    exact inj_on_of_nodup_map hsound.distinct hw hw' (congrArg (·.edgeID) hedge)
  rw [(perm_listing.map _).nodup_iff]
  convert hkeys using 1
  symm
  rw [← forall₂_eq_eq_eq, forall₂_map_left_iff, forall₂_map_right_iff]
  exact (forall₂_items s q root maxRows).imp fun _ _ h ↦ (shows_of_graphItem h).edgeKey.symm

theorem listing_increasing : Increasing (itemKey host) (listing host s q root maxRows) := by
  have hsorted : (listing host s q root maxRows).Pairwise
      fun a b ↦ itemKey host a ≤ itemKey host b := by
    apply pairwise_insertionSort
  have hdistinct : (listing host s q root maxRows).Pairwise fun a b ↦ a.edgeKey ≠ b.edgeKey :=
    pairwise_map.mp nodup_edgeKeys
  refine (hsorted.and hdistinct).imp ?_
  intro a b ⟨hle, hne⟩
  refine lt_of_le_of_ne hle fun heq ↦ hne ?_
  simp only [itemKey, textKey, EmbeddingLike.apply_eq_iff_eq, Prod.mk.injEq] at heq
  exact String.toList_inj.mp heq.2.2.2.2.2.2

theorem key_lt_of_distance {a b : GraphQueryItem} (h : a.distance < b.distance) :
    itemKey host a < itemKey host b :=
  Prod.Lex.toLex_lt_toLex.mpr (.inl h)

theorem mem_completeListing : item ∈ completeListing host s q root ↔
    ∃ w, q.Found s root q.depth w ∧ graphItem s w = .ok item := by
  have hsound := traverse_sound s q root (s.edges.length + 1)
  have hle : (traverse s q root (s.edges.length + 1)).works.length ≤ s.edges.length := by
    rw [← @List.length_map _ _ (traverse s q root (s.edges.length + 1)).works GraphEdgeWork.edge]
    refine length_le_of_subset ?_ ?_
    · refine List.Nodup.of_map (·.edgeID) ?_
      rw [map_map]
      exact hsound.distinct
    · intro e he
      obtain ⟨w, hw, rfl⟩ := mem_map.mp he
      exact hsound.edges w hw
  rw [completeListing, mem_listing]
  apply exists_congr
  intro w
  rw [traverse_complete (Nat.lt_succ_of_le hle)]

theorem mem_complete_of_mem_take {n : ℕ} (hn : n ≤ maxRows)
    (h : item ∈ (listing host s q root maxRows).take n) : item ∈ completeListing host s q root := by
  obtain ⟨w, hw, hitem⟩ := mem_listing.mp (mem_of_mem_take h)
  rcases traverse_covers s q root maxRows with hall | ⟨exact, more, hworks, hfull, hfound, hlt⟩
  · exact mem_completeListing.mpr ⟨w, (hall w).mp hw, hitem⟩
  rw [hworks, mem_append] at hw
  rcases hw with hw | hw
  · exact mem_completeListing.mpr ⟨w, hfound w hw, hitem⟩
  -- A later item would come after a whole budget of exact ones.
  exfalso
  obtain ⟨i, hi, hget⟩ := mem_take_iff.mp h
  have hitems : List.Forall₂ (fun w item ↦ graphItem s w = .ok item) exact
      (exact.filterMap fun w ↦ (graphItem s w).toOption) := by
    apply forall₂_filterMap
    intro w hw
    apply graphItem_ok (traverse_sound s q root maxRows)
    rw [hworks]
    exact mem_append_left _ hw
  have hsub : ∀ x ∈ exact.filterMap (fun w ↦ (graphItem s w).toOption),
      x ∈ (listing host s q root maxRows).take i := by
    intro x hx
    obtain ⟨w', hw', hxw⟩ := exists_of_mem_right hitems hx
    have hmem : x ∈ listing host s q root maxRows :=
      mem_listing.mpr ⟨w', by rw [hworks]; exact mem_append_left _ hw', hxw⟩
    obtain ⟨j, hj⟩ := mem_iff_getElem?.mp hmem
    refine mem_take_iff.mpr ⟨j, ?_, hj⟩
    have hkey : itemKey host x < itemKey host item := by
      apply key_lt_of_distance
      rw [(shows_of_graphItem hxw).distance, (shows_of_graphItem hitem).distance]
      exact hlt w' hw' w hw
    by_contra hge
    have := listing_increasing.key_le_of_index_le hget hj (Nat.not_lt.mp hge)
    exact absurd hkey (not_lt.mpr this)
  have hnodup : (exact.filterMap fun w ↦ (graphItem s w).toOption).Nodup := by
    have hall := (@perm_listing host s q root maxRows).nodup_iff.mp listing_increasing.nodup
    rw [hworks, filterMap_append] at hall
    exact hall.sublist (sublist_append_left _ _)
  have hle := length_le_of_subset hnodup hsub
  rw [← hitems.length_eq, length_take] at hle
  omega

theorem listing_eq_complete (h : (listing host s q root maxRows).length < maxRows) :
    listing host s q root maxRows = completeListing host s q root := by
  rw [length_listing] at h
  apply eq_of_mem_iff listing_increasing listing_increasing
  intro item
  rw [← completeListing, mem_completeListing, mem_listing]
  apply exists_congr
  intro w
  rw [traverse_complete h]

theorem length_le_complete {i : ℕ} (hi : i < maxRows)
    (hlt : i < (listing host s q root maxRows).length) :
    i < (completeListing host s q root).length := by
  have hle := length_le_of_subset (l := (listing host s q root maxRows).take (i + 1))
    (f := completeListing host s q root)
    (listing_increasing.nodup.sublist (take_sublist _ _)) fun _ ↦ mem_complete_of_mem_take hi
  rw [length_take] at hle
  omega

theorem le_length_listing {offset : ℕ} (h : offset ≤ (completeListing host s q root).length) :
    offset ≤ (listing host s q root (q.limit + offset + 1)).length := by
  by_contra hlt
  rw [listing_eq_complete (by omega)] at hlt
  exact hlt h

end Listing

section Chain

variable (host : GraphQueryHost) (s : GraphQuerySnapshot) (q : GraphQueryRequest) (root : ℤ)

def follow (_ : ℕ) (cursor : Option GraphCursor) : Page (Option GraphCursor) GraphQueryItem :=
  match graphQuery host s q cursor with
  | .ok env => ⟨env.items, env.nextCursor.map some⟩
  | .error _ => ⟨[], none⟩

def cursorOffset (cursor : Option GraphCursor) : ℕ := (cursor.map (·.offset)).getD 0

/-- The chain of cursors ends, and its pages hold every edge's item exactly once. -/
def Lossless : Prop :=
  ∃ rows, Finishes (follow host s q) 0 none rows ∧
    ∀ w item, q.Found s root q.depth w → graphItem s w = .ok item → rows.count item = 1

/-- No page's row budget cuts off an edge that the whole listing has before the end of that page. -/
def CutsNothing : Prop :=
  ∀ k cursor, Reached (follow host s q) none k cursor →
    ∀ item ∈ (completeListing host s q root).take
        (cursorOffset cursor + pageLength host s q root (cursorOffset cursor)),
      item ∈ listing host s q root (q.limit + cursorOffset cursor + 1)

variable {host s q root}

theorem page_of_offset {offset : ℕ} {cursor : Option GraphCursor}
    (h : graphQuery host s q cursor = neighborhoodPage host s q root offset ∧
      offset ≤ (completeListing host s q root).length) (k : ℕ) :
    (follow host s q k cursor).rows =
        ((listing host s q root (q.limit + offset + 1)).drop offset).take
          (pageLength host s q root offset) ∧
      (follow host s q k cursor).rows.length = pageLength host s q root offset ∧
      pageLength host s q root offset ≤ q.limit ∧
      (follow host s q k cursor).next =
        if offset + pageLength host s q root offset <
            (listing host s q root (q.limit + offset + 1)).length then
          some (some (q.cursor s (offset + pageLength host s q root offset)))
        else none := by
  obtain ⟨visited, frontier, hpage⟩ := @neighborhoodPage_listing host s q root offset
  have hmin := Nat.min_eq_left (le_length_listing h.2)
  obtain ⟨n, hn⟩ := @admitItems_eq host q 0 false
    (((listing host s q root (q.limit + offset + 1)).drop offset).take q.limit)
  have hlen : pageLength host s q root offset ≤ q.limit ∧
      (admitItems host q 0 false
        (((listing host s q root (q.limit + offset + 1)).drop offset).take q.limit)).1 =
        ((listing host s q root (q.limit + offset + 1)).drop offset).take
          (pageLength host s q root offset) := by
    rw [pageLength, hn]
    refine ⟨?_, ?_⟩
    · rw [length_take, length_take]
      omega
    · rw [take_take, length_take, take_eq_take_min]
  simp only [follow, h.1, hpage, finalizeGraphItems, hmin]
  refine ⟨hlen.2, rfl, hlen.1, ?_⟩
  simp only [decide_eq_true_eq]
  split_ifs with h h' h'
  · rfl
  · exact absurd h h'
  · exact absurd h' h
  · rfl

theorem pageLength_pos {offset : ℕ}
    (h : offset < (listing host s q root (q.limit + offset + 1)).length) :
    0 < pageLength host s q root offset := by
  apply length_pos_iff.mpr
  apply admitItems_ne_nil
  apply ne_nil_of_length_pos
  have := q.limit_pos
  rw [length_take, length_drop]
  omega

variable {node : GraphNodeRecord} {k : ℕ} {cursor : Option GraphCursor}

section

variable (hroot : s.resolveGraphSelector q.selector = .ok [node])
include hroot

theorem reached_page (h : Reached (follow host s q) none k cursor) :
    graphQuery host s q cursor = neighborhoodPage host s q node.nodeID (cursorOffset cursor) ∧
      cursorOffset cursor ≤ (completeListing host s q node.nodeID).length := by
  induction h with
  | start => exact ⟨graphNeighborhood_eq hroot, Nat.zero_le _⟩
  | @next k c d _ hnext ih =>
    obtain ⟨-, -, hlimit, hpage⟩ := page_of_offset ih k
    rw [hpage] at hnext
    split_ifs at hnext with hlt
    obtain rfl := Option.some.inj hnext
    refine ⟨?_, (length_le_complete (by omega) hlt).le⟩
    exact (if_pos rfl).trans (graphNeighborhood_eq hroot)

theorem next_cursorOffset {d : Option GraphCursor} (h : Reached (follow host s q) none k cursor)
    (hnext : (follow host s q k cursor).next = some d) :
    cursorOffset d = cursorOffset cursor + (follow host s q k cursor).rows.length := by
  obtain ⟨-, hlength, -, hpage⟩ := page_of_offset (reached_page hroot h) k
  rw [hpage] at hnext
  split_ifs at hnext
  obtain rfl := Option.some.inj hnext
  rw [hlength]
  rfl

theorem take_listing (hcuts : CutsNothing host s q node.nodeID)
    (h : Reached (follow host s q) none k cursor) :
    (listing host s q node.nodeID (q.limit + cursorOffset cursor + 1)).take
        (cursorOffset cursor + pageLength host s q node.nodeID (cursorOffset cursor)) =
      (completeListing host s q node.nodeID).take
        (cursorOffset cursor + pageLength host s q node.nodeID (cursorOffset cursor)) := by
  obtain ⟨-, -, hlimit, -⟩ := page_of_offset (reached_page hroot h) k
  apply take_eq listing_increasing listing_increasing
  · exact fun _ ↦ mem_complete_of_mem_take (by omega)
  · exact hcuts k cursor h

theorem CutsNothing.lossless (hcuts : CutsNothing host s q node.nodeID) :
    Lossless host s q node.nodeID := by
  obtain ⟨rows, hfin, hrows⟩ := @finishes_of_segments _ _ _ (follow host s q) none 0 none
    cursorOffset (completeListing host s q node.nodeID) Eq (fun k cursor h ↦ by
      obtain ⟨hrows, -, hlimit, hnext⟩ := page_of_offset (reached_page hroot h) k
      refine ⟨pageLength host s q node.nodeID (cursorOffset cursor), ?_, ?_, ?_⟩
      · rw [forall₂_eq_eq_eq, hrows, take_drop, take_drop, take_listing hroot hcuts h]
      · intro hnone
        rw [hnext] at hnone
        split_ifs at hnone with hlt
        rw [listing_eq_complete (by omega)] at hlt
        omega
      · intro d hd
        rw [hnext] at hd
        split_ifs at hd with hlt
        obtain rfl := Option.some.inj hd
        exact ⟨rfl, pageLength_pos (by omega), (length_le_complete (by omega) hlt).le⟩)
    .start
  refine ⟨rows, hfin, ?_⟩
  rw [forall₂_eq_eq_eq] at hrows
  intro w item hw hitem
  rw [← hrows]
  exact count_eq_one_of_mem listing_increasing.nodup (mem_completeListing.mpr ⟨w, hw, hitem⟩)

theorem Lossless.cutsNothing (h : Lossless host s q node.nodeID) :
    CutsNothing host s q node.nodeID := by
  obtain ⟨rows, hfin, hcount⟩ := h
  have hoffset := fun k c d hr hd ↦ @next_cursorOffset host s q node k c
    hroot d hr hd
  -- Row `i` of the chain is item `i` of the listing of its page.
  have hrow : ∀ i a, rows[i]? = some a → ∃ maxRows > i,
      (listing host s q node.nodeID maxRows)[i]? = some a := by
    intro i a ha
    obtain ⟨k, c, j, hr, hj, hij⟩ := hfin.exists_page hoffset .start ha
    obtain ⟨hrows, hlength, hlimit, -⟩ := page_of_offset (reached_page hroot hr) k
    have hjlt := lt_length_of_getElem? hj
    rw [hrows, getElem?_take, if_pos (by omega), getElem?_drop] at hj
    have hi : cursorOffset c + j = i := by
      rw [hij]
      exact Nat.zero_add i
    exact ⟨_, by omega, hi ▸ hj⟩
  have hlen : rows.length ≤ (completeListing host s q node.nodeID).length := by
    by_contra hlt
    obtain ⟨maxRows, hmax, hget⟩ := hrow _ _ (getElem?_eq_getElem (Nat.not_le.mp hlt))
    exact absurd (length_le_complete hmax (lt_length_of_getElem? hget)) (lt_irrefl _)
  have hle : ∀ (i : ℕ) a b, rows[i]? = some a →
      (completeListing host s q node.nodeID)[i]? = some b → itemKey host b ≤ itemKey host a := by
    intro i a b ha hb
    obtain ⟨maxRows, hmax, hget⟩ := hrow i a ha
    exact key_le listing_increasing listing_increasing
      (fun _ ↦ mem_complete_of_mem_take hmax) hget hb
  have hall : ∀ x ∈ completeListing host s q node.nodeID, x ∈ rows := by
    intro x hx
    obtain ⟨w, hw, hitem⟩ := mem_completeListing.mp hx
    exact count_pos_iff.mp (by rw [hcount w x hw hitem]; omega)
  intro k c hr
  obtain ⟨hrows, hlength, hlimit, -⟩ := page_of_offset (reached_page hroot hr) k
  rcases Nat.eq_zero_or_pos (pageLength host s q node.nodeID (cursorOffset c)) with hzero | hpos
  · -- A page without rows has the whole neighbourhood before it.
    intro item hitem
    have hnot := mt (@pageLength_pos host s q node.nodeID (cursorOffset c)) (by omega)
    rw [listing_eq_complete (by omega)]
    exact mem_of_mem_take hitem
  · have hj : pageLength host s q node.nodeID (cursorOffset c) - 1 <
        (follow host s q k c).rows.length := by omega
    have hrow' := hfin.getElem?_page hoffset rfl hr hj
    rw [hrows, getElem?_take, if_pos (by omega), getElem?_drop] at hrow'
    generalize hlast : cursorOffset c + (pageLength host s q node.nodeID (cursorOffset c) - 1) =
      last at hrow'
    have hend : cursorOffset c + pageLength host s q node.nodeID (cursorOffset c) = last + 1 := by
      omega
    rw [hend]
    have hlt : last < (listing host s q node.nodeID (q.limit + cursorOffset c + 1)).length := by
      rw [hrows, length_take, length_drop] at hlength
      omega
    have hcomplete := getElem?_eq_getElem (length_le_complete (by omega) hlt)
    have hsame := getElem?_of_covers listing_increasing hlen hle hall hcomplete
    exact mem_of_agree listing_increasing listing_increasing
      (fun _ ↦ mem_complete_of_mem_take (by omega)) (hrow' ▸ hsame) hcomplete

end

/-- The cursors yield every edge item once exactly when no page is cut from a listing that lacks an
earlier edge. -/
theorem lossless_iff (host : GraphQueryHost) (s : GraphQuerySnapshot) (q : GraphQueryRequest)
    (node : GraphNodeRecord) (hroot : s.resolveGraphSelector q.selector = .ok [node]) :
    Lossless host s q node.nodeID ↔ CutsNothing host s q node.nodeID :=
  ⟨Lossless.cutsNothing hroot, CutsNothing.lossless hroot⟩

def sampleFan : GraphQuerySnapshot where
  generationID := zeroDigest
  unresolvedCount := 0
  nodes := [sampleNode 0 "r", sampleNode 1 "c", sampleNode 2 "b", sampleNode 3 "a"]
  edges := [sampleEdge 0 0 1, sampleEdge 1 0 2, sampleEdge 2 0 3]
  evidence := []
  nodeIDs := by decide
  edgeIDs := by decide
  edgeKeys := by decide +kernel
  endpoints := by decide

def sampleOnePerPage : GraphQueryRequest where
  operation := .callees
  selector := "r"
  depth := 1
  limit := 1
  tokenBudget := 4000
  direction := .outward
  relations := ["calls"]
  depth_pos := Nat.one_pos
  limit_pos := Nat.one_pos

theorem sampleFan_root :
    sampleFan.resolveGraphSelector sampleOnePerPage.selector = .ok [sampleNode 0 "r"] := by
  rw [← toOption_eq_some]
  decide +kernel

/-- The first two pages both show `b`: the first budget of two rows cuts off the call of `a`. -/
theorem sampleFan_repeats :
    ((follow sampleHost sampleFan sampleOnePerPage 0 none).rows.map (·.display) = ["b"] ∧
      (follow sampleHost sampleFan sampleOnePerPage 1
        (some (sampleOnePerPage.cursor sampleFan 1))).rows.map (·.display) = ["b"]) ∧
      ¬Lossless sampleHost sampleFan sampleOnePerPage 0 := by
  refine ⟨⟨by decide +kernel, by decide +kernel⟩, ?_⟩
  intro h
  have hcuts := Lossless.cutsNothing sampleFan_root h 0 none .start
  revert hcuts
  decide +kernel

def sampleTwoPerPage : GraphQueryRequest := { sampleOnePerPage with
  limit := 2
  limit_pos := Nat.two_pos }

/-- With two rows per page the first budget already covers the fan, so its two pages lose
nothing. -/
theorem sampleFan_lossless :
    (follow sampleHost sampleFan sampleTwoPerPage 0 none).next =
        some (some (sampleTwoPerPage.cursor sampleFan 2)) ∧
      Lossless sampleHost sampleFan sampleTwoPerPage 0 := by
  have hfirst : (follow sampleHost sampleFan sampleTwoPerPage 0 none).next =
      some (some (sampleTwoPerPage.cursor sampleFan 2)) := by decide +kernel
  have hsecond : (follow sampleHost sampleFan sampleTwoPerPage 1
      (some (sampleTwoPerPage.cursor sampleFan 2))).next = none := by decide +kernel
  refine ⟨hfirst, (lossless_iff sampleHost sampleFan sampleTwoPerPage (sampleNode 0 "r")
    sampleFan_root).mpr ?_⟩
  intro k cursor h
  have hcursor : cursor = none ∨ cursor = some (sampleTwoPerPage.cursor sampleFan 2) := by
    induction h with
    | start => exact .inl rfl
    | next _ hnext ih =>
      obtain rfl | rfl := ih
      · exact .inr (Option.some.inj (hnext.symm.trans hfirst))
      · cases hnext.symm.trans hsecond
  obtain rfl | rfl := hcursor <;> decide +kernel

end Chain

end MiLsp.Query
