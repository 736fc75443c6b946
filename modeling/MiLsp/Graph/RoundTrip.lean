import MiLsp.Graph.Checked
import MiLsp.Graph.Publication

namespace MiLsp.Graph

open Library Attempt List GraphRows GraphBundle

variable {host : GraphHost} {c : GraphBundle}

/-- The rows a checked bundle is stored as: the digest of an evidence has no column. -/
def GraphBundle.storedRows (c : GraphBundle) : GraphRows where
  nodes := c.nodes
  edges := c.edges
  evidence := c.evidence.map fun x ↦ { x with evidenceDigest := zeroDigest }
  unresolved := c.unresolved

/-- What the tables ask of the records beyond what the checks of a bundle ask. -/
structure FitsTables (c : GraphBundle) : Prop where
  candidates : ∀ u ∈ c.unresolved, jsonLength u.candidates ≤ 4096
  evidenceKeys : (c.evidence.map (·.evidenceKey)).Nodup
  unresolvedKeys : (c.unresolved.map (·.unresolvedKey)).Nodup

section Insertion

section

variable {α : Type} {generation : α → GraphDigest} {clash : α → α → Bool} {row : α} {rows : List α}

theorem insertRow_eq_ok {rows' : List α} :
    insertRow generation clash rows row = .ok rows' ↔
      (∀ other ∈ rows, generation other = generation row → clash row other = false) ∧
      rows' = rows ++ [row] := by
  unfold insertRow
  split
  next h =>
    obtain ⟨other, hother, hclash⟩ := any_eq_true.mp h
    simp only [Bool.and_eq_true, decide_eq_true_eq] at hclash
    refine iff_of_false nofun fun ⟨hall, _⟩ ↦ ?_
    rw [hall other hother hclash.1] at hclash
    cases hclash.2
  next h =>
    rw [Bool.not_eq_true, any_eq_false] at h
    rw [Except.ok.injEq, eq_comm]
    refine (and_iff_right fun other hother hgeneration ↦ ?_).symm
    simpa [hgeneration] using h other hother

theorem guarded_insertRow_eq_ok {guard : Prop} [Decidable guard] {set : List α → GraphRows}
    {rows' : GraphRows} (hgeneration : ∀ other ∈ rows, generation other = generation row) :
    (if guard then Except.error GraphError.constraint
      else (insertRow generation clash rows row).map set) = .ok rows' ↔
      (¬guard ∧ ∀ other ∈ rows, clash row other = false) ∧ rows' = set (rows ++ [row]) := by
  by_cases h : guard
  · simp [h]
  · rw [if_neg h, map_eq_ok]
    simp only [insertRow_eq_ok, h, not_false_eq_true, true_and]
    constructor
    · intro ⟨_, ⟨hall, hrows⟩, hset⟩
      exact ⟨fun other hother ↦ hall other hother (hgeneration other hother), hset ▸ hrows ▸ rfl⟩
    · intro ⟨hall, hset⟩
      exact ⟨_, ⟨fun other hother _ ↦ hall other hother, rfl⟩, hset.symm⟩

end

theorem no_clash_iff {α κ : Type} [DecidableEq κ] {l : List α} {id : α → ℤ} {key : α → κ}
    (hid : ∀ (i : ℕ) a, l[i]? = some a → id a = i) :
    (∀ pre a post, l = pre ++ a :: post →
      ∀ other ∈ pre, (decide (id a = id other) || decide (key a = key other)) = false) ↔
      (l.map key).Nodup := by
  constructor
  · intro h
    refine pairwise_map.mpr (pairwise_iff_getElem.mpr ?_)
    intro i j hi hj hij heq
    have hsplit : l = l.take j ++ l[j] :: l.drop (j + 1) := by simp
    have hmem : l[i] ∈ l.take j := mem_take_iff_getElem.mpr ⟨i, by omega, rfl⟩
    have hclash := h _ _ _ hsplit l[i] hmem
    simp [heq] at hclash
  · intro h pre a post hl other hother
    subst hl
    rw [map_append, map_cons, nodup_append] at h
    have hkey : key a ≠ key other := fun heq ↦
      h.2.2 (key other) (mem_map_of_mem hother) (key a) (by simp) heq.symm
    obtain ⟨i, hi, rfl⟩ := getElem_of_mem hother
    have hother := hid i pre[i] ((getElem?_append_left hi).trans (getElem?_eq_getElem hi))
    have ha := hid pre.length a (by rw [getElem?_append_right le_rfl, Nat.sub_self]; rfl)
    simp only [hkey, decide_false, Bool.or_false, decide_eq_false_iff_not]
    omega

variable (rows : GraphRows) {rows' : GraphRows} {id : GraphDigest}

theorem insertNodes_eq_ok {nodes : List GraphNodeRecord} :
    nodes.foldlM (fun rows n ↦ rows.insertNode id n) { rows with nodes := [] } = .ok rows' ↔
      (∀ pre n post, nodes = pre ++ n :: post →
        ¬n.nodeID < 0 ∧ ∀ other ∈ pre, nodeClash n other = false) ∧
      rows' = { rows with nodes := nodes.map fun n ↦ { n with generationID := id } } := by
  refine foldlM_accumulates (σ := GraphRows)
    (fun done : List GraphNodeRecord ↦ { rows with
      nodes := done.map fun n ↦ { n with generationID := id } }) ?_
  intro done n rows'
  refine (guarded_insertRow_eq_ok (by simp)).trans ?_
  simp only [forall_mem_map, map_append, map_singleton]
  rfl

theorem insertEdges_eq_ok {edges : List GraphEdgeRecord} :
    edges.foldlM (fun rows x ↦ rows.insertEdge id x) { rows with edges := [] } = .ok rows' ↔
      (∀ pre x post, edges = pre ++ x :: post →
        ¬(x.edgeID < 0 || !rows.hasNode id x.fromNodeID || !rows.hasNode id x.toNodeID) = true ∧
          ∀ other ∈ pre, edgeClash x other = false) ∧
      rows' = { rows with edges := edges.map fun x ↦ { x with generationID := id } } := by
  refine foldlM_accumulates (σ := GraphRows)
    (fun done : List GraphEdgeRecord ↦ { rows with
      edges := done.map fun x ↦ { x with generationID := id } }) ?_
  intro done x rows'
  refine (guarded_insertRow_eq_ok (by simp)).trans ?_
  simp only [forall_mem_map, map_append, map_singleton]
  rfl

theorem insertEvidences_eq_ok {evidence : List GraphEvidence} :
    evidence.foldlM (fun rows x ↦ rows.insertEvidence id x) { rows with evidence := [] } =
      .ok rows' ↔
      (∀ pre x post, evidence = pre ++ x :: post →
        ¬(x.evidenceID < 0 || !rows.hasSubject id x ||
          [x.startLine, x.startColumn, x.endLine, x.endColumn].any (·.any (· < 0))) = true ∧
          ∀ other ∈ pre, evidenceClash x other = false) ∧
      rows' = { rows with
        evidence := evidence.map fun x ↦
          { x with generationID := id, evidenceDigest := zeroDigest } } := by
  refine foldlM_accumulates (σ := GraphRows) (fun done : List GraphEvidence ↦ { rows with
    evidence := done.map fun x ↦ { x with generationID := id, evidenceDigest := zeroDigest } }) ?_
  intro done x rows'
  refine (guarded_insertRow_eq_ok (by simp)).trans ?_
  simp only [forall_mem_map, map_append, map_singleton]
  rfl

theorem insertUnresolveds_eq_ok {unresolved : List GraphUnresolved} :
    unresolved.foldlM (fun rows x ↦ rows.insertUnresolved id x) { rows with unresolved := [] } =
      .ok rows' ↔
      (∀ pre x post, unresolved = pre ++ x :: post → jsonLength x.candidates ≤ 4096 ∧
        ¬x.unresolvedID < 0 ∧ ∀ other ∈ pre, unresolvedClash x other = false) ∧
      rows' = { rows with unresolved := unresolved.map fun x ↦ x.row id } := by
  refine foldlM_accumulates (σ := GraphRows)
    (fun done : List GraphUnresolved ↦ { rows with
      unresolved := done.map fun x ↦ x.row id }) ?_
  intro done x rows'
  have hbounded : jsonBounded x.candidates = .ok () ↔ jsonLength x.candidates ≤ 4096 := by
    unfold jsonBounded
    split <;> simp <;> omega
  rw [and_assoc, ← hbounded]
  refine seq_eq_ok.trans (and_congr_right fun _ ↦ ?_)
  refine (guarded_insertRow_eq_ok ?_).trans ?_
  · intro other hother
    obtain ⟨y, -, rfl⟩ := mem_map.mp hother
    rfl
  · simp only [forall_mem_map, map_append, map_singleton]
    rfl

end Insertion

variable {k : ℤ} {e : GraphEvidence} {subject : GraphDigest} {rows : GraphRows}

section

variable {α : Type} {l : List α} {id : α → ℤ} (hid : ∀ (i : ℕ) a, l[i]? = some a → id a = i) {a : α}
  (h : recordAt? l k = some a)
include hid h

theorem recordAt?_id : a ∈ l ∧ id a = k := by
  unfold recordAt? at h
  split at h
  · cases h
  · refine ⟨mem_of_getElem? h, ?_⟩
    rw [hid _ a h]
    omega

theorem find?_id : l.find? (id · = k) = some a := by
  obtain ⟨hmem, hk⟩ := recordAt?_id hid h
  rw [find?_eq_some_iff_getElem]
  obtain ⟨i, hi, rfl⟩ := getElem_of_mem hmem
  refine ⟨by simpa using hk, i, hi, rfl, ?_⟩
  intro j hj
  have hidi := hid i l[i] (getElem?_eq_getElem hi)
  have hidj := hid j (l.get ⟨j, hj.trans hi⟩) (getElem?_eq_getElem (hj.trans hi))
  simp only [Bool.not_eq_true', decide_eq_false_iff_not]
  intro heq
  have heq' : id (l.get ⟨j, hj.trans hi⟩) = k := heq
  omega

end

theorem validateGraphEvidence_digest (h : validateGraphEvidence host e subject = .ok ()) :
    (∃ range, e.range = .ok range) ∧ e.evidenceDigest = e.digest host := by
  obtain ⟨-, h⟩ := guarded_eq_ok.mp h
  obtain ⟨_, -, h⟩ := bind_eq_ok.mp h
  obtain ⟨_, -, h⟩ := bind_eq_ok.mp h
  obtain ⟨range, hrange, h⟩ := bind_eq_ok.mp h
  rw [check_eq_ok] at h
  simp only [Bool.or_eq_true, decide_eq_true_eq, not_or, ne_eq, not_not] at h
  exact ⟨⟨range, hrange⟩, h.1.1⟩

theorem validateGraphEvidence_range (h : validateGraphEvidence host e subject = .ok ()) :
    ([e.startLine, e.startColumn, e.endLine, e.endColumn].any (·.any (· < 0))) = false ∧
      e.evidenceDigest = e.digest host := by
  obtain ⟨⟨range, hrange⟩, hdigest⟩ := validateGraphEvidence_digest h
  refine ⟨?_, hdigest⟩
  unfold GraphEvidence.range at hrange
  split at hrange
  · cases hrange
  next hneg => exact Bool.not_eq_true _ ▸ hneg

theorem storedRows_evidence {i : ℕ} (he : c.storedRows.evidence[i]? = some e) :
    ∃ x, c.evidence[i]? = some x ∧ { x with evidenceDigest := zeroDigest } = e := by
  simp only [storedRows, getElem?_map] at he
  exact Option.map_eq_some_iff.mp he

theorem checkContentCount_eq_ok {n : ℤ} {k : ℕ} (hn : n = k) : checkContentCount n k = .ok () := by
  subst hn
  simp [checkContentCount]

namespace Checked

variable (h : Checked host c) {x : GraphEdgeRecord}

include h

theorem nodeIDs : ∀ (i : ℕ) n, c.nodes[i]? = some n → n.nodeID = i :=
  fun i n hn ↦ (h.nodes i n hn).1

theorem edgeIDs : ∀ (i : ℕ) x, c.edges[i]? = some x → x.edgeID = i :=
  fun i x hx ↦ (h.edges i x hx).1

theorem evidenceIDs : ∀ (i : ℕ) e, c.evidence[i]? = some e → e.evidenceID = i :=
  fun i e he ↦ (h.evidence i e he).1

theorem unresolvedIDs : ∀ (i : ℕ) u, c.unresolved[i]? = some u → u.unresolvedID = i :=
  fun i u hu ↦ (h.unresolved i u hu).1

theorem hasNode (rows : GraphRows) (hrows : rows.nodes = c.nodes) {n : GraphNodeRecord}
    (hn : recordAt? c.nodes k = some n) : rows.hasNode c.generation.generationID k = true := by
  obtain ⟨hmem, hk⟩ := recordAt?_id h.nodeIDs hn
  obtain ⟨i, hi⟩ := getElem?_of_mem hmem
  refine any_eq_true.mpr ⟨n, hrows ▸ hmem, ?_⟩
  simp [(h.nodes i n hi).2.1, hk]

theorem hasEdge (rows : GraphRows) (hrows : rows.edges = c.edges)
    (hx : recordAt? c.edges k = some x) : rows.hasEdge c.generation.generationID k = true := by
  obtain ⟨hmem, hk⟩ := recordAt?_id h.edgeIDs hx
  obtain ⟨i, hi⟩ := getElem?_of_mem hmem
  refine any_eq_true.mpr ⟨x, hrows ▸ hmem, ?_⟩
  simp [(h.edges i x hi).2.1, hk]

theorem hasSubject (rows : GraphRows) (hnodes : rows.nodes = c.nodes)
    (hedges : rows.edges = c.edges)
    (he : evidenceSubject c.nodes c.edges e = some (subject, e.subjectKind)) :
    rows.hasSubject c.generation.generationID e = true := by
  unfold evidenceSubject at he
  unfold GraphRows.hasSubject
  split at he
  next k hnode hedge =>
    obtain ⟨n, hn, heq⟩ := Option.map_eq_some_iff.mp he
    have hkind : "node" = e.subjectKind := (Prod.mk.inj heq).2
    simp [hnode, hedge, ← hkind, h.hasNode rows hnodes hn]
  next k hnode hedge =>
    obtain ⟨x, hx, heq⟩ := Option.map_eq_some_iff.mp he
    have hkind : "edge" = e.subjectKind := (Prod.mk.inj heq).2
    simp [hnode, hedge, ← hkind, h.hasEdge rows hedges hx]
  · cases he

theorem generationIDs :
    (c.nodes.map fun n ↦ { n with generationID := c.generation.generationID }) = c.nodes ∧
    (c.edges.map fun x ↦ { x with generationID := c.generation.generationID }) = c.edges ∧
    (c.evidence.map fun e ↦ { e with
      generationID := c.generation.generationID, evidenceDigest := zeroDigest }) =
      c.storedRows.evidence := by
  have hmap : ∀ {α : Type} {l : List α} {f g : α → α},
      (∀ (i : ℕ) a, l[i]? = some a → f a = g a) → l.map f = l.map g := by
    intro α l f g hl
    refine map_congr_left fun a ha ↦ ?_
    obtain ⟨i, hi⟩ := getElem?_of_mem ha
    exact hl i a hi
  refine ⟨(hmap fun i n hn ↦ ?_).trans (map_id _), (hmap fun i x hx ↦ ?_).trans (map_id _),
    hmap fun i e he ↦ ?_⟩
  · rw [← (h.nodes i n hn).2.1, id]
  · rw [← (h.edges i x hx).2.1, id]
  · rw [← (h.evidence i e he).2.1]

theorem insertNodes : c.nodes.foldlM
    (fun rows n ↦ rows.insertNode c.generation.generationID n) empty =
      .ok { empty with nodes := c.nodes } := by
  obtain ⟨hnodes, -, -⟩ := h.generationIDs
  refine (insertNodes_eq_ok .empty).mpr ⟨?_, by rw [hnodes]⟩
  intro pre n post hl
  have hid := h.nodeIDs pre.length n (by rw [hl, getElem?_append_right le_rfl, Nat.sub_self]; rfl)
  exact ⟨by omega, (no_clash_iff h.nodeIDs).mpr h.nodeKeys pre n post hl⟩

theorem insertEdges : c.edges.foldlM (fun rows x ↦ rows.insertEdge c.generation.generationID x)
      { empty with nodes := c.nodes } =
      .ok { empty with nodes := c.nodes, edges := c.edges } := by
  obtain ⟨-, hedges, -⟩ := h.generationIDs
  refine (insertEdges_eq_ok { empty with nodes := c.nodes }).mpr
    ⟨?_, by rw [hedges]⟩
  intro pre x post hl
  have hx : c.edges[pre.length]? = some x := by
    rw [hl, getElem?_append_right le_rfl, Nat.sub_self]
    rfl
  obtain ⟨hid, -, source, target, hsource, htarget, -⟩ := h.edges _ x hx
  refine ⟨?_, (no_clash_iff h.edgeIDs).mpr h.edgeKeys pre x post hl⟩
  have hrows := fun k n ↦ h.hasNode { empty with nodes := c.nodes } rfl (k := k) (n := n)
  simp only [hrows _ _ hsource, hrows _ _ htarget, hid, Bool.not_true, Bool.or_false,
    decide_eq_true_eq]
  omega

theorem insertEvidences : c.evidence.foldlM
    (fun rows x ↦ rows.insertEvidence c.generation.generationID x)
      { empty with nodes := c.nodes, edges := c.edges } = .ok rows ↔
      (c.evidence.map (·.evidenceKey)).Nodup ∧ rows = { c.storedRows with unresolved := [] } := by
  obtain ⟨-, -, hevidence⟩ := h.generationIDs
  refine (insertEvidences_eq_ok
    { empty with nodes := c.nodes, edges := c.edges }).trans ?_
  rw [hevidence]
  refine and_congr_left fun _ ↦ ?_
  rw [← no_clash_iff h.evidenceIDs]
  refine forall_congr' fun pre ↦ forall_congr' fun x ↦ forall_congr' fun post ↦
    forall_congr' fun hl ↦ and_iff_right ?_
  have hx : c.evidence[pre.length]? = some x := by
    rw [hl, getElem?_append_right le_rfl, Nat.sub_self]
    rfl
  obtain ⟨hid, -, subject, hsubject, hvalid⟩ := h.evidence _ x hx
  have hstored := h.hasSubject { empty with nodes := c.nodes, edges := c.edges } rfl rfl
    hsubject
  rw [hstored, (validateGraphEvidence_range hvalid).1, hid]
  simp only [Bool.not_true, Bool.or_false, decide_eq_true_eq]
  omega

theorem insertUnresolveds (hhost : host.Lawful) : c.unresolved.foldlM
    (fun rows x ↦ rows.insertUnresolved c.generation.generationID x)
      { c.storedRows with unresolved := [] } = .ok rows ↔
      ((∀ u ∈ c.unresolved, jsonLength u.candidates ≤ 4096) ∧
        (c.unresolved.map (·.unresolvedKey)).Nodup) ∧ rows = c.storedRows := by
  have hunresolved : (c.unresolved.map fun u ↦ u.row c.generation.generationID) = c.unresolved := by
    refine (map_congr_left fun u hu ↦ ?_).trans (map_id _)
    obtain ⟨i, hi⟩ := getElem?_of_mem hu
    obtain ⟨-, hgeneration, -, given, hgiven⟩ := h.unresolved i u hi
    rw [(normalizeGraphUnresolvedContext_normalized hhost hgiven).2, ← hgeneration, id]
  refine (insertUnresolveds_eq_ok c.storedRows).trans ?_
  rw [hunresolved, ← no_clash_iff h.unresolvedIDs]
  refine and_congr_left fun _ ↦ ?_
  constructor
  · intro hall
    refine ⟨?_, fun pre u post hl ↦ (hall pre u post hl).2.2⟩
    intro u hu
    obtain ⟨pre, post, hl⟩ := append_of_mem hu
    exact (hall pre u post hl).1
  · intro ⟨hcandidates, hclash⟩ pre u post hl
    have hu : c.unresolved[pre.length]? = some u := by
      rw [hl, getElem?_append_right le_rfl, Nat.sub_self]
      rfl
    have hid := h.unresolvedIDs _ u hu
    exact ⟨hcandidates u (mem_of_getElem? hu), by omega, hclash pre u post hl⟩

theorem insertRecords_eq_ok (hhost : host.Lawful) :
    empty.insertRecords c = .ok rows ↔ FitsTables c ∧ rows = c.storedRows := by
  have hstart : empty.insertRecords c = (do
      let rows ← c.evidence.foldlM (fun rows x ↦ rows.insertEvidence c.generation.generationID x)
        { empty with nodes := c.nodes, edges := c.edges }
      c.unresolved.foldlM
        (fun rows x ↦ rows.insertUnresolved c.generation.generationID x) rows) := by
    dsimp only [insertRecords]
    rw [h.insertNodes]
    dsimp only [bind, Except.bind]
    rw [h.insertEdges]
  rw [hstart, bind_eq_ok]
  simp only [h.insertEvidences]
  constructor
  · intro ⟨_, ⟨hevidence, rfl⟩, hrows⟩
    obtain ⟨⟨hcandidates, hunresolved⟩, hrows⟩ := (h.insertUnresolveds hhost).mp hrows
    exact ⟨⟨hcandidates, hevidence, hunresolved⟩, hrows⟩
  · intro ⟨⟨hcandidates, hevidence, hunresolved⟩, hrows⟩
    exact ⟨_, ⟨hevidence, rfl⟩, (h.insertUnresolveds hhost).mpr ⟨⟨hcandidates, hunresolved⟩, hrows⟩⟩

theorem storedRows_sorted : c.storedRows.sorted = c.storedRows := by
  have hevidence : ∀ (i : ℕ) e, c.storedRows.evidence[i]? = some e → e.evidenceID = i := by
    intro i e he
    obtain ⟨x, hx, rfl⟩ := storedRows_evidence he
    exact h.evidenceIDs i x hx
  unfold sorted
  rw [insertionSort_of_positions hevidence]
  dsimp only [storedRows]
  rw [insertionSort_of_positions h.nodeIDs, insertionSort_of_positions h.edgeIDs,
    insertionSort_of_positions h.unresolvedIDs]

theorem storedRows_ofGeneration :
    c.storedRows.ofGeneration c.generation.generationID = c.storedRows := by
  have hall : ∀ {α : Type} {l : List α} {generation : α → GraphDigest},
      (∀ (i : ℕ) a, l[i]? = some a → generation a = c.generation.generationID) →
      l.filter (generation · = c.generation.generationID) = l := by
    intro α l generation hl
    refine filter_eq_self.mpr fun a ha ↦ ?_
    obtain ⟨i, hi⟩ := getElem?_of_mem ha
    simpa using hl i a hi
  have hevidence : ∀ (i : ℕ) e, c.storedRows.evidence[i]? = some e →
      e.generationID = c.generation.generationID := by
    intro i e he
    obtain ⟨x, hx, rfl⟩ := storedRows_evidence he
    exact (h.evidence i x hx).2.1
  unfold ofGeneration
  rw [hall hevidence]
  dsimp only [storedRows]
  rw [hall fun i n hn ↦ (h.nodes i n hn).2.1, hall fun i x hx ↦ (h.edges i x hx).2.1,
    hall fun i u hu ↦ (h.unresolved i u hu).2.1]

theorem streamEdge_eq_ok (hx : x ∈ c.edges) : streamEdge host c.nodes x = .ok () := by
  obtain ⟨i, hi⟩ := getElem?_of_mem hx
  obtain ⟨-, -, source, target, hsource, htarget, hvalid⟩ := h.edges i x hi
  unfold streamEdge
  rw [find?_id h.nodeIDs hsource, find?_id h.nodeIDs htarget]
  exact mapError_eq_ok.mpr hvalid

theorem streamSubject_eq (he : evidenceSubject c.nodes c.edges e = some (subject, e.subjectKind)) :
    streamSubject host c.nodes c.edges { e with evidenceDigest := zeroDigest } = some subject := by
  unfold evidenceSubject at he
  unfold streamSubject
  split at he
  next k hnode hedge =>
    obtain ⟨n, hn, heq⟩ := Option.map_eq_some_iff.mp he
    obtain ⟨hkey, hkind⟩ := Prod.mk.inj heq
    simp [hnode, hedge, ← hkind, find?_id h.nodeIDs hn, hkey]
  next k hnode hedge =>
    obtain ⟨x, hx, heq⟩ := Option.map_eq_some_iff.mp he
    obtain ⟨hkey, hkind⟩ := Prod.mk.inj heq
    obtain ⟨hmem, -⟩ := recordAt?_id h.edgeIDs hx
    obtain ⟨i, hi⟩ := getElem?_of_mem hmem
    obtain ⟨-, -, source, target, hsource, htarget, hvalid⟩ := h.edges i x hi
    simp [hnode, hedge, ← hkind, find?_id h.edgeIDs hx, find?_id h.nodeIDs hsource,
      find?_id h.nodeIDs htarget, ← validateGraphEdgeRecord_key hvalid, hkey]
  · cases he

theorem streamEvidence_eq_ok (he : e ∈ c.evidence) :
    streamEvidence host c.nodes c.edges { e with evidenceDigest := zeroDigest } = .ok e := by
  obtain ⟨i, hi⟩ := getElem?_of_mem he
  obtain ⟨-, -, subject, hsubject, hvalid⟩ := h.evidence i e hi
  have hdigest : { e with evidenceDigest := e.digest host } = e := by
    rw [← (validateGraphEvidence_range hvalid).2]
  unfold streamEvidence
  rw [h.streamSubject_eq hsubject]
  refine seq_eq_ok.mpr ⟨?_, congrArg Except.ok hdigest⟩
  exact (congrArg (validateGraphEvidence host · subject) hdigest).trans hvalid

theorem streamUnresolved_eq_ok (hhost : host.Lawful) {u : GraphUnresolved} (hu : u ∈ c.unresolved) :
    streamUnresolved host u = .ok u := by
  obtain ⟨i, hi⟩ := getElem?_of_mem hu
  obtain ⟨-, -, hvalid, given, hgiven⟩ := h.unresolved i u hi
  unfold streamUnresolved
  rw [(normalizeGraphUnresolvedContext_normalized hhost hgiven).1]
  exact seq_eq_ok.mpr ⟨hvalid, rfl⟩

theorem stream_eq (hhost : host.Lawful) :
    streamGraphWithMode host c.storedRows c.generation.stagedRow .current =
      graphContentHash host true c.nodes c.edges c.evidence c.unresolved := by
  have hnodes : c.nodes.forM (validateGraphNodeRecord host) = .ok () := by
    refine forM_eq_ok.mpr fun n hn ↦ ?_
    obtain ⟨i, hi⟩ := getElem?_of_mem hn
    exact (h.nodes i n hi).2.2
  have hedges : c.edges.forM (streamEdge host c.nodes) = .ok () :=
    forM_eq_ok.mpr fun x hx ↦ h.streamEdge_eq_ok hx
  have hevidence : c.storedRows.evidence.mapM (streamEvidence host c.nodes c.edges) =
      .ok c.evidence := by
    refine mapM_eq_ok.mpr (forall₂_map_left_iff.mpr ?_)
    exact forall₂_same.mpr fun e he ↦ h.streamEvidence_eq_ok he
  have hunresolved : c.unresolved.mapM (streamUnresolved host) = .ok c.unresolved :=
    mapM_eq_ok.mpr (forall₂_same.mpr fun u hu ↦ h.streamUnresolved_eq_ok hhost hu)
  unfold streamGraphWithMode
  rw [h.storedRows_sorted]
  simp only [storedRows, GraphGeneration.stagedRow] at hevidence ⊢
  rw [hnodes, hedges, hevidence, hunresolved, checkContentCount_eq_ok h.nodeCount,
    checkContentCount_eq_ok h.edgeCount]
  dsimp only [bind, Except.bind]
  rw [checkContentCount_eq_ok h.evidenceCount, checkContentCount_eq_ok h.unresolvedCount]
  rfl

theorem checkGraphGeneration_eq_ok (hhost : host.Lawful)
    (hcontent : graphContentHash host true c.nodes c.edges c.evidence c.unresolved =
      .ok c.generation.contentDigest)
    (hid : c.generation.derivedID host c.generation.contentDigest = c.generation.generationID) :
    checkGraphGeneration host c.storedRows c.generation.stagedRow .current = .ok () ↔
      c.generation.sourceFingerprint ≠ zeroDigest ∧ c.generation.configFingerprint ≠ zeroDigest ∧
        c.generation.backendManifestDigest ≠ zeroDigest := by
  have hevidenced : (c.storedRows.edges.any fun x ↦
      !c.storedRows.evidence.any fun e ↦ e.edgeID = some x.edgeID) = false := by
    refine any_eq_false.mpr fun x hx ↦ ?_
    obtain ⟨e, he, hedge⟩ := h.evidenced x hx
    have hstored : { e with evidenceDigest := zeroDigest } ∈ c.storedRows.evidence :=
      mem_map_of_mem he
    simpa using ⟨_, hstored, hedge⟩
  unfold checkGraphGeneration
  rw [h.stream_eq hhost, hcontent, guarded_eq_ok]
  simp only [Bool.or_eq_true, decide_eq_true_eq, not_or, and_assoc]
  refine and_congr_right fun _ ↦ and_congr_right fun _ ↦ and_iff_left ?_
  refine bind_eq_ok.mpr ⟨_, rfl, guarded_eq_ok.mpr ⟨not_not.mpr rfl, ?_⟩⟩
  refine guarded_eq_ok.mpr ⟨not_not.mpr hid, guarded_eq_ok.mpr ⟨?_, check_eq_ok.mpr ?_⟩⟩
  · simp [storedRows, GraphGeneration.stagedRow, h.nodeCount, h.edgeCount,
      h.evidenceCount, h.unresolvedCount]
  · exact Bool.eq_false_iff.mp hevidenced

end Checked

structure StoreAccepts (c : GraphBundle) : Prop extends FitsTables c where
  schema : c.generation.schemaVersion = 1
  previous : ∀ previous ∈ c.generation.previousGenerationID, previous = c.generation.generationID
  source : c.generation.sourceFingerprint ≠ zeroDigest
  config : c.generation.configFingerprint ≠ zeroDigest
  backend : c.generation.backendManifestDigest ≠ zeroDigest

/-- The bundle is staged into an empty store, and the rows read back hash to its digests. -/
def RoundTrips (host : GraphHost) (b : GraphBundle) : Prop :=
  ∃ s g, stageGraphGenerationConn host .empty b = .ok s ∧
    validateGraphGenerationConn host s b.generation.generationID = .ok g ∧
    streamGraphWithMode host (s.rows.ofGeneration g.generationID) g .current =
      .ok b.generation.contentDigest ∧
    g.derivedID host b.generation.contentDigest = b.generation.generationID

theorem Checked.admitsGeneration_empty (h : Checked host c) :
    GraphStore.empty.admitsGeneration c.generation = true ↔ c.generation.schemaVersion = 1 ∧
      ∀ previous ∈ c.generation.previousGenerationID, previous = c.generation.generationID := by
  have hfind : ∀ id, GraphStore.empty.generations.find? id = none := fun _ ↦ rfl
  simp [GraphStore.admitsGeneration, hfind, h.nodeCount, h.edgeCount, h.evidenceCount,
    h.unresolvedCount, Option.all_eq_true]

theorem GraphBundle.validate_sealed {b : GraphBundle} (hc : b.validate host = .ok c) :
    Checked host c ∧ c.generation = b.generation ∧
      graphContentHash host true c.nodes c.edges c.evidence c.unresolved =
        .ok c.generation.contentDigest ∧
      c.generation.derivedID host c.generation.contentDigest = c.generation.generationID := by
  obtain ⟨hchecked, hb, hcontent, hid⟩ := b.validate_checked hc
  have hgeneration : c.generation = b.generation := by rw [hb]
  rw [← hgeneration] at hcontent hid
  exact ⟨hchecked, hgeneration, hcontent, hid⟩

theorem roundTrips_iff (hhost : host.Lawful) {b : GraphBundle}
    (hstaged : b.generation.status = .staged) (hc : b.validate host = .ok c) :
    RoundTrips host b ↔ StoreAccepts c := by
  obtain ⟨hchecked, hgeneration, hcontent, hid⟩ := GraphBundle.validate_sealed hc
  have hfind : (GraphStore.empty.staged c.generation c.storedRows).generations.find?
      c.generation.generationID = some c.generation.stagedRow :=
    (Table.find?_put _ _ _).trans (if_pos rfl)
  have hrows : (GraphStore.empty.staged c.generation c.storedRows).rows.ofGeneration
      c.generation.generationID = c.storedRows := hchecked.storedRows_ofGeneration
  unfold RoundTrips
  simp only [stageGraphGenerationConn_eq_ok (s := .empty) rfl, validateGraphGenerationConn_eq_ok,
    hc, ← hgeneration, Except.ok.injEq]
  constructor
  · rintro ⟨s, g, ⟨_, _, rfl, hadmits, rows, hinsert, hs⟩, ⟨hg, hcheck⟩, _⟩
    obtain ⟨hschema, hprevious⟩ := hchecked.admitsGeneration_empty.mp hadmits
    obtain ⟨hfits, rfl⟩ := (hchecked.insertRecords_eq_ok hhost).mp hinsert
    subst hs
    obtain rfl := Option.some.inj (hfind.symm.trans hg)
    rw [hrows] at hcheck
    obtain ⟨hsource, hconfig, hbackend⟩ :=
      (hchecked.checkGraphGeneration_eq_ok hhost hcontent hid).mp hcheck
    exact ⟨hfits, hschema, hprevious, hsource, hconfig, hbackend⟩
  · intro h
    have hadmits := hchecked.admitsGeneration_empty.mpr ⟨h.schema, h.previous⟩
    have hinsert := (hchecked.insertRecords_eq_ok hhost).mpr ⟨h.toFitsTables, rfl⟩
    have hcheck := (hchecked.checkGraphGeneration_eq_ok hhost hcontent hid).mpr
      ⟨h.source, h.config, h.backend⟩
    refine ⟨_, _, ⟨hgeneration ▸ hstaged, _, rfl, hadmits, _, hinsert, rfl⟩,
      ⟨hfind, hrows.symm ▸ hcheck⟩, ?_, hid⟩
    exact (congrArg (streamGraphWithMode host · _ _) hrows).trans
      ((hchecked.stream_eq hhost).trans hcontent)

theorem sampleHost_lawful : sampleHost.Lawful where
  nfc_nfc _ := rfl
  trimSpace_nfc _ h := h
  control_nfc _ h := h

def sampleNode (n : ℕ) : GraphNodeRecord :=
  let identity : NodeKeyFields := ⟨"h/r", "go", "go", "m", "a.go", "file", "a"⟩
  let key := (identity.hash sampleHost).toOption.getD zeroDigest
  { generationID := sampleSource n
    nodeID := 0
    nodeKey := key
    identity
    identitySchema := nodeIdentitySchema
    displayName := "a"
    sourceDigest := sampleSource 0
    claimStatus := "exact"
    crossRID := nodeRID key
    sortKey := "a" }

def sampleEvidence (n : ℕ) (coordinate : Option ℤ) : GraphEvidence :=
  let digest := evidenceDigest sampleHost (sampleSource 0) (sampleSource 0) "a.go" "k" "go" "v"
    (coordinate.getD 0) (coordinate.getD 0) (coordinate.getD 0) (coordinate.getD 0)
  let key := evidenceKey sampleHost (sampleNode n).nodeKey digest 0
  { generationID := sampleSource n
    evidenceID := 0
    evidenceKey := key
    evidenceDigest := digest
    subjectKind := "node"
    nodeID := some 0
    edgeID := none
    sourceURI := "a.go"
    startLine := coordinate
    startColumn := coordinate
    endLine := coordinate
    endColumn := coordinate
    backend := "go"
    extractorVersion := "v"
    sourceDigest := sampleSource 0
    claimKind := "k"
    observedClaimDigest := sampleSource 0
    claimStatus := "exact"
    crossRID := evidenceRID key }

def sampleEdge : GraphEdgeRecord :=
  let key := edgeKey sampleHost (sampleNode 0).nodeKey (sampleNode 0).nodeKey "calls" "s"
  ⟨sampleSource 0, 0, key, 0, 0, "calls", "s", "exact", "a.go", "go", edgeRID key⟩

def sampleEdgeEvidence : GraphEvidence :=
  let e := sampleEvidence 0 none
  let key := evidenceKey sampleHost sampleEdge.edgeKey e.evidenceDigest 0
  { e with
    evidenceKey := key
    subjectKind := "edge"
    nodeID := none
    edgeID := some 0
    crossRID := evidenceRID key }

def sampleUnresolved (candidates : List String) : GraphUnresolved :=
  let u : GraphUnresolved :=
    { generationID := sampleSource 0
      unresolvedID := 0
      unresolvedKey := zeroDigest
      ownerPath := "a.go"
      subjectKind := "call"
      selectorDigest := sampleSource 0
      reasonCode := "AMBIGUOUS"
      candidates
      backend := "go"
      sourceDigest := none
      crossRID := ""
      recoveryHintCode := ""
      sourceDocument := ""
      sourceBlock := ""
      targetKind := ""
      targetValue := "" }
  let key := graphUnresolvedKey sampleHost u
  { u with unresolvedKey := key, crossRID := unresolvedRID key }

def sampleLinked (createdAt : Time) : GraphBundle :=
  sampleOf 0 createdAt [sampleNode 0] [sampleEdge] [sampleEdgeEvidence]
    [sampleUnresolved ["b", "c"]]

theorem sampleLinked_validate : (sampleLinked 1).validate sampleHost = .ok (sampleLinked 1) :=
  toOption_eq_some.mp (by decide +kernel)

theorem sampleLinked_accepted : StoreAccepts (sampleLinked 1) where
  candidates := by decide +kernel
  evidenceKeys := nodup_singleton _
  unresolvedKeys := nodup_singleton _
  schema := rfl
  previous := nofun
  source := sampleSource_ne_zero 0
  config := sampleSource_ne_zero 0
  backend := sampleSource_ne_zero 0

theorem sampleLinked_roundTrips : sampleHost.Lawful ∧ RoundTrips sampleHost (sampleLinked 1) :=
  ⟨sampleHost_lawful,
    (roundTrips_iff sampleHost_lawful rfl sampleLinked_validate).mpr sampleLinked_accepted⟩

def sampleOversized : GraphBundle :=
  sampleOf 0 1 [] [] [] [sampleUnresolved (List.replicate 64 "<<<<<<<<<<<")]

theorem sampleOversized_lost : sampleOversized.generation.status = .staged ∧
    (sampleOversized.validate sampleHost).toOption.isSome ∧
    ¬RoundTrips sampleHost sampleOversized := by
  have hvalid : (sampleOversized.validate sampleHost).toOption.isSome := by decide +kernel
  have hstage : (stageGraphGenerationConn sampleHost .empty sampleOversized).toOption = none := by
    decide +kernel
  refine ⟨rfl, hvalid, ?_⟩
  intro ⟨s, _, hs, _⟩
  rw [hs] at hstage
  cases hstage

end MiLsp.Graph
