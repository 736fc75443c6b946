import MiLsp.Graph.Store

namespace MiLsp.Graph

open Library.Attempt Commutes

section Rows

variable {α : Type} {generation : α → GraphDigest} {clash : α → α → Bool}

theorem insertRow_filter (rows : List α) (row : α) :
    insertRow generation clash (rows.filter (generation · = generation row)) row =
      (insertRow generation clash rows row).map
        (List.filter (generation · = generation row)) := by
  have hany : (rows.filter (generation · = generation row)).any
      (fun other ↦ generation other = generation row && clash row other) =
      rows.any fun other ↦ generation other = generation row && clash row other := by
    rw [List.any_filter]
    congr 1
    funext other
    cases decide (generation other = generation row) <;> rfl
  rw [insertRow, insertRow, hany]
  split
  · rfl
  · simp [Except.map]

theorem insertRow_filter_ne {rows rows' : List α} {row : α} {id : GraphDigest}
    (h : insertRow generation clash rows row = .ok rows') (hid : generation row ≠ id) :
    rows'.filter (generation · = id) = rows.filter (generation · = id) := by
  unfold insertRow at h
  split at h
  · cases h
  · cases h
    simp [hid]

end Rows

theorem map_guarded_insert {α : Type} {c : Prop} [Decidable c] {x y : Except GraphError (List α)}
    {set set' : List α → GraphRows} {f : GraphRows → GraphRows} {g : List α → List α}
    (hx : y = x.map g) (hset : ∀ l, set' (g l) = f (set l)) :
    (if c then .error .constraint else y.map set') =
      (if c then Except.error GraphError.constraint else x.map set).map f := by
  subst hx
  split
  · rfl
  · cases x <;> simp [Except.map, hset]

theorem guarded_insert_eq_ok {α : Type} {c : Prop} [Decidable c] {x : Except GraphError (List α)}
    {set : List α → GraphRows} {rows : GraphRows}
    (h : (if c then .error .constraint else x.map set) = .ok rows) :
    ∃ l, x = .ok l ∧ rows = set l := by
  split at h
  · cases h
  · cases x with
    | error e => cases h
    | ok l => exact ⟨l, rfl, (Except.ok.inj h).symm⟩

namespace GraphRows

variable (rows : GraphRows) (id : GraphDigest)

theorem hasNode_ofGeneration (k : ℤ) : (rows.ofGeneration id).hasNode id k = rows.hasNode id k := by
  simp [hasNode, ofGeneration, List.any_filter]

theorem hasEdge_ofGeneration (k : ℤ) : (rows.ofGeneration id).hasEdge id k = rows.hasEdge id k := by
  simp [hasEdge, ofGeneration, List.any_filter]

theorem hasSubject_ofGeneration (x : GraphEvidence) :
    (rows.ofGeneration id).hasSubject id x = rows.hasSubject id x := by
  unfold hasSubject
  split
  · rw [hasNode_ofGeneration]
  · rw [hasEdge_ofGeneration]
  · rfl

theorem insertNode_commutes (n : GraphNodeRecord) :
    Commutes (ofGeneration · id) (insertNode · id n) := fun rows ↦
  map_guarded_insert (insertRow_filter rows.nodes { n with generationID := id }) fun _ ↦ rfl

theorem insertEdge_commutes (x : GraphEdgeRecord) :
    Commutes (ofGeneration · id) (insertEdge · id x) := by
  intro rows
  dsimp only
  rw [insertEdge, hasNode_ofGeneration, hasNode_ofGeneration]
  exact map_guarded_insert (insertRow_filter rows.edges { x with generationID := id }) fun _ ↦ rfl

theorem insertEvidence_commutes (x : GraphEvidence) :
    Commutes (ofGeneration · id) (insertEvidence · id x) := by
  intro rows
  dsimp only
  rw [insertEvidence, hasSubject_ofGeneration]
  exact map_guarded_insert (insertRow_filter rows.evidence
    { x with generationID := id, evidenceDigest := zeroDigest }) fun _ ↦ rfl

theorem insertUnresolved_commutes (x : GraphUnresolved) :
    Commutes (ofGeneration · id) (insertUnresolved · id x) := by
  intro rows
  simp only [insertUnresolved]
  cases jsonBounded x.candidates with
  | error e => rfl
  | ok =>
    exact map_guarded_insert (insertRow_filter rows.unresolved (x.row id)) fun _ ↦ rfl

theorem insertRecords_commutes (b : GraphBundle) :
    Commutes (ofGeneration · b.generation.generationID) (insertRecords · b) := by
  have hnodes := foldlM (insertNode_commutes b.generation.generationID) b.nodes
  have hedges := foldlM (insertEdge_commutes b.generation.generationID) b.edges
  have hevidence := foldlM (insertEvidence_commutes b.generation.generationID) b.evidence
  have hunresolved :=
    foldlM (insertUnresolved_commutes b.generation.generationID) b.unresolved
  exact hnodes.bind (hedges.bind (hevidence.bind hunresolved))

variable {id} {other : GraphDigest} (hid : id ≠ other)

include hid

theorem insertNode_keeps (n : GraphNodeRecord) :
    Keeps (ofGeneration · other) (insertNode · id n) := by
  intro rows rows' h
  obtain ⟨nodes, hnodes, rfl⟩ := guarded_insert_eq_ok h
  simp only [ofGeneration, insertRow_filter_ne hnodes hid]

theorem insertEdge_keeps (x : GraphEdgeRecord) :
    Keeps (ofGeneration · other) (insertEdge · id x) := by
  intro rows rows' h
  obtain ⟨edges, hedges, rfl⟩ := guarded_insert_eq_ok h
  simp only [ofGeneration, insertRow_filter_ne hedges hid]

theorem insertEvidence_keeps (x : GraphEvidence) :
    Keeps (ofGeneration · other) (insertEvidence · id x) := by
  intro rows rows' h
  obtain ⟨evidence, hevidence, rfl⟩ := guarded_insert_eq_ok h
  simp only [ofGeneration, insertRow_filter_ne hevidence hid]

theorem insertUnresolved_keeps (x : GraphUnresolved) :
    Keeps (ofGeneration · other) (insertUnresolved · id x) := by
  intro rows rows' h
  obtain ⟨_, -, h⟩ := bind_eq_ok.mp h
  obtain ⟨unresolved, hunresolved, rfl⟩ := guarded_insert_eq_ok h
  simp only [ofGeneration, insertRow_filter_ne hunresolved hid]

omit hid

theorem insertRecords_keeps {b : GraphBundle} (hb : b.generation.generationID ≠ other) :
    Keeps (ofGeneration · other) (insertRecords · b) := by
  have hnodes := Keeps.foldlM (insertNode_keeps hb) b.nodes
  have hedges := Keeps.foldlM (insertEdge_keeps hb) b.edges
  have hevidence := Keeps.foldlM (insertEvidence_keeps hb) b.evidence
  have hunresolved := Keeps.foldlM (insertUnresolved_keeps hb) b.unresolved
  exact hnodes.bind (hedges.bind (hevidence.bind hunresolved))

end GraphRows

end MiLsp.Graph
