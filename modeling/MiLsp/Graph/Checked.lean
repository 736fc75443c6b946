import MiLsp.Graph.Store

namespace MiLsp.Graph

open Library Strings Attempt List

variable {host : GraphHost} {α : Type} {g : GraphGeneration}

/-- A validated bundle: ids are positions, keys are distinct, and every record passes its check. -/
structure Checked (host : GraphHost) (c : GraphBundle) : Prop where
  nodes : ∀ (i : ℕ) n, c.nodes[i]? = some n → n.nodeID = i ∧
    n.generationID = c.generation.generationID ∧ validateGraphNodeRecord host n = .ok ()
  nodeKeys : (c.nodes.map (·.nodeKey)).Nodup
  edges : ∀ (i : ℕ) x, c.edges[i]? = some x → x.edgeID = i ∧
    x.generationID = c.generation.generationID ∧
    ∃ source target, recordAt? c.nodes x.fromNodeID = some source ∧
      recordAt? c.nodes x.toNodeID = some target ∧
      validateGraphEdgeRecord host x source.nodeKey target.nodeKey = .ok ()
  edgeKeys : (c.edges.map (·.edgeKey)).Nodup
  evidence : ∀ (i : ℕ) e, c.evidence[i]? = some e → e.evidenceID = i ∧
    e.generationID = c.generation.generationID ∧
    ∃ subject, evidenceSubject c.nodes c.edges e = some (subject, e.subjectKind) ∧
      validateGraphEvidence host e subject = .ok ()
  evidenced : ∀ x ∈ c.edges, ∃ e ∈ c.evidence, e.edgeID = some x.edgeID
  unresolved : ∀ (i : ℕ) u, c.unresolved[i]? = some u → u.unresolvedID = i ∧
    u.generationID = c.generation.generationID ∧ validateGraphUnresolved host u = .ok () ∧
    ∃ given, normalizeGraphUnresolvedContext host given = .ok u
  nodeCount : c.generation.nodeCount = c.nodes.length
  edgeCount : c.generation.edgeCount = c.edges.length
  evidenceCount : c.generation.evidenceCount = c.evidence.length
  unresolvedCount : c.generation.unresolvedCount = c.unresolved.length

/-- Unicode normalisation is idempotent, and adds neither outer white space nor control characters.
-/
structure GraphHost.Lawful (host : GraphHost) : Prop where
  nfc_nfc : ∀ v, host.nfc (host.nfc v) = host.nfc v
  trimSpace_nfc : ∀ v, trimSpace v = v → trimSpace (host.nfc v) = host.nfc v
  control_nfc : ∀ v, v.toList.any isControl = false → (host.nfc v).toList.any isControl = false

theorem forall_zipIdx {l : List α} {P : α × ℕ → Prop} :
    (∀ entry ∈ l.zipIdx, P entry) ↔ ∀ i a, l[i]? = some a → P (a, i) := by
  constructor
  · intro h i a ha
    exact h (a, i) (mk_mem_zipIdx_iff_getElem?.mpr ha)
  · intro h ⟨a, i⟩ ha
    exact h i a (mk_mem_zipIdx_iff_getElem?.mp ha)

theorem forall₂_getElem? {β : Type} {R : α → β → Prop} {l : List α} {l' : List β}
    (h : List.Forall₂ R l l') {i : ℕ} {b : β} (hb : l'[i]? = some b) :
    ∃ a, l[i]? = some a ∧ R a b := by
  induction h generalizing i with
  | nil => cases hb
  | cons hab _ ih =>
    cases i with
    | zero => exact ⟨_, rfl, Option.some.inj hb ▸ hab⟩
    | succ i => exact ih hb

theorem not_mem_keys_of_lookup {β : Type} [BEq α] [LawfulBEq α] {l : List (α × β)} {a : α}
    (h : l.lookup a = none) : a ∉ l.map Prod.fst := by
  intro hmem
  obtain ⟨⟨a', b⟩, hp, rfl⟩ := mem_map.mp hmem
  exact absurd (lookup_eq_none_iff.mp h _ hp) (by simp)

theorem validateGraphNodeRecord_hash {n : GraphNodeRecord} {nk : NodeKeyFields} {d : GraphDigest}
    (h : validateGraphNodeRecord host n = .ok ()) (hnk : newNodeKey host n.identity = .ok nk)
    (hd : nk.hash host = .ok d) : d = n.nodeKey := by
  obtain ⟨-, h⟩ := guarded_eq_ok.mp h
  obtain ⟨nk', hnk', h⟩ := bind_eq_ok.mp h
  obtain rfl := Except.ok.inj (hnk.symm.trans hnk')
  obtain ⟨key, hkey, h⟩ := bind_eq_ok.mp h
  obtain rfl := Except.ok.inj (hd.symm.trans (mapError_eq_ok.mp hkey))
  rw [check_eq_ok] at h
  simp only [Bool.or_eq_true, decide_eq_true_eq, not_or, ne_eq, not_not] at h
  exact h.1

theorem validateBundleNode_eq_ok {keys keys' : List (GraphDigest × NodeKeyFields)}
    {entry : GraphNodeRecord × ℕ} (h : validateBundleNode host g keys entry = .ok keys') :
    (entry.1.nodeID = entry.2 ∧ entry.1.generationID = g.generationID ∧
      validateGraphNodeRecord host entry.1 = .ok ()) ∧
    entry.1.nodeKey ∉ keys.map Prod.fst ∧
    keys'.map Prod.fst = entry.1.nodeKey :: keys.map Prod.fst := by
  obtain ⟨n, i⟩ := entry
  obtain ⟨hmeta, h⟩ := guarded_eq_ok.mp h
  obtain ⟨hrecord, h⟩ := seq_eq_ok.mp h
  obtain ⟨nk, hnk, h⟩ := bind_eq_ok.mp h
  obtain ⟨d, hd, h⟩ := bind_eq_ok.mp h
  obtain rfl := validateGraphNodeRecord_hash hrecord hnk hd
  simp only [Bool.or_eq_true, decide_eq_true_eq, not_or, ne_eq, not_not] at hmeta
  refine ⟨⟨hmeta.1.1.1, hmeta.1.1.2, hrecord⟩, ?_⟩
  cases hlookup : keys.lookup n.nodeKey with
  | some old =>
    rw [hlookup] at h
    dsimp only at h
    split at h <;> cases h
  | none =>
    rw [hlookup] at h
    obtain ⟨-, h⟩ := guarded_eq_ok.mp h
    obtain rfl := pure_eq_ok.mp h
    exact ⟨not_mem_keys_of_lookup hlookup, rfl⟩

theorem validateGraphEdgeRecord_key {x : GraphEdgeRecord} {source target : GraphDigest}
    (h : validateGraphEdgeRecord host x source target = .ok ()) :
    x.edgeKey = edgeKey host source target x.relation x.claimScope := by
  obtain ⟨-, h⟩ := guarded_eq_ok.mp h
  obtain ⟨-, -, h⟩ := bind_eq_ok.mp h
  obtain ⟨-, -, h⟩ := bind_eq_ok.mp h
  obtain ⟨-, -, h⟩ := bind_eq_ok.mp h
  rw [check_eq_ok] at h
  simp only [Bool.or_eq_true, decide_eq_true_eq, not_or, ne_eq, not_not] at h
  exact h.1

section

variable {g : GraphGeneration} {nodes : List GraphNodeRecord}

theorem validateBundleEdge_eq_ok {keys keys' : List GraphDigest} {entry : GraphEdgeRecord × ℕ}
    (h : validateBundleEdge host g nodes keys entry = .ok keys') :
    (entry.1.edgeID = entry.2 ∧ entry.1.generationID = g.generationID ∧
      ∃ source target, recordAt? nodes entry.1.fromNodeID = some source ∧
        recordAt? nodes entry.1.toNodeID = some target ∧
        validateGraphEdgeRecord host entry.1 source.nodeKey target.nodeKey = .ok ()) ∧
    entry.1.edgeKey ∉ keys.map id ∧ keys'.map id = entry.1.edgeKey :: keys.map id := by
  obtain ⟨x, i⟩ := entry
  unfold validateBundleEdge at h
  dsimp only at h
  cases hsource : recordAt? nodes x.fromNodeID with
  | none =>
    rw [hsource] at h
    cases h
  | some source =>
    rw [hsource] at h
    cases htarget : recordAt? nodes x.toNodeID with
    | none =>
      rw [htarget] at h
      cases h
    | some target =>
      rw [htarget] at h
      obtain ⟨hmeta, h⟩ := guarded_eq_ok.mp h
      obtain ⟨hrecord, h⟩ := seq_eq_ok.mp h
      obtain ⟨hfresh, h⟩ := guarded_eq_ok.mp h
      obtain rfl := pure_eq_ok.mp h
      have hrecord := mapError_eq_ok.mp hrecord
      simp only [Bool.or_eq_true, decide_eq_true_eq, not_or, ne_eq, not_not] at hmeta
      rw [← validateGraphEdgeRecord_key hrecord] at hfresh ⊢
      refine ⟨⟨hmeta.1.1.1.1, hmeta.1.1.1.2, source, target, rfl, rfl, hrecord⟩, ?_, rfl⟩
      rwa [map_id]

theorem validateBundleEvidence_eq_ok {edges : List GraphEdgeRecord} {entry : GraphEvidence × ℕ}
    (h : validateBundleEvidence host g nodes edges entry = .ok ()) :
    entry.1.evidenceID = entry.2 ∧ entry.1.generationID = g.generationID ∧
      ∃ subject, evidenceSubject nodes edges entry.1 = some (subject, entry.1.subjectKind) ∧
        validateGraphEvidence host entry.1 subject = .ok () := by
  obtain ⟨x, i⟩ := entry
  obtain ⟨hmeta, h⟩ := guarded_eq_ok.mp h
  cases hsubject : evidenceSubject nodes edges x with
  | none =>
    rw [hsubject] at h
    cases h
  | some found =>
    obtain ⟨subject, kind⟩ := found
    rw [hsubject] at h
    obtain ⟨hkind, h⟩ := guarded_eq_ok.mp h
    rw [ne_eq, not_not] at hkind
    simp only [Bool.or_eq_true, decide_eq_true_eq, not_or, ne_eq, not_not] at hmeta
    obtain ⟨⟨⟨⟨⟨⟨⟨hid, hgeneration⟩, -⟩, -⟩, -⟩, -⟩, -⟩, -⟩ := hmeta
    exact ⟨hid, hgeneration, subject, by rw [hkind], h⟩

end

theorem validateBundleUnresolved_eq_ok {entry : GraphUnresolved × ℕ} {u : GraphUnresolved}
    (h : validateBundleUnresolved host g entry = .ok u) :
    u.unresolvedID = entry.2 ∧ u.generationID = g.generationID ∧
      validateGraphUnresolved host u = .ok () ∧
      normalizeGraphUnresolvedContext host entry.1 = .ok u := by
  obtain ⟨u', hu', h⟩ := bind_eq_ok.mp h
  obtain ⟨hmeta, h⟩ := guarded_eq_ok.mp h
  obtain ⟨hvalid, h⟩ := seq_eq_ok.mp h
  obtain rfl := pure_eq_ok.mp h
  simp only [Bool.or_eq_true, decide_eq_true_eq, not_or, ne_eq, not_not] at hmeta
  exact ⟨hmeta.1, hmeta.2, mapError_eq_ok.mp hvalid, mapError_eq_ok.mp hu'⟩

theorem GraphBundle.validateRecords_checked {b c : GraphBundle} {requireSealed : Bool}
    (h : b.validateRecords host requireSealed = .ok c) :
    Checked host c ∧ c = { b with unresolved := c.unresolved } := by
  obtain ⟨hcounts, h⟩ := guarded_eq_ok.mp h
  obtain ⟨-, h⟩ := seq_eq_ok.mp h
  obtain ⟨_, -, h⟩ := bind_eq_ok.mp h
  obtain ⟨-, h⟩ := guarded_eq_ok.mp h
  obtain ⟨-, h⟩ := guarded_eq_ok.mp h
  obtain ⟨_, hnodes, h⟩ := bind_eq_ok.mp h
  obtain ⟨_, hedges, h⟩ := bind_eq_ok.mp h
  obtain ⟨hevidence, h⟩ := seq_eq_ok.mp h
  obtain ⟨hevidenced, h⟩ := guarded_eq_ok.mp h
  obtain ⟨unresolved, hunresolved, h⟩ := bind_eq_ok.mp h
  obtain rfl := pure_eq_ok.mp h
  obtain ⟨hnodes, hnodeKeys⟩ := foldlM_distinct hnodes fun _ _ _ ↦ validateBundleNode_eq_ok
  obtain ⟨hedges, hedgeKeys⟩ := foldlM_distinct hedges fun _ _ _ ↦ validateBundleEdge_eq_ok
  simp only [Bool.or_eq_true, decide_eq_true_eq, not_or, ne_eq, not_not] at hcounts
  have hlength := (mapM_eq_ok.mp hunresolved).length_eq
  rw [length_zipIdx] at hlength
  refine ⟨⟨?_, ?_, ?_, ?_, ?_, ?_, ?_, hcounts.1.1.1.2, hcounts.1.1.2, hcounts.1.2, ?_⟩, rfl⟩
  · exact forall_zipIdx.mp fun entry hentry ↦ (hnodes entry hentry).1
  · simpa [← Function.comp_def, ← map_map] using hnodeKeys
  · exact forall_zipIdx.mp fun entry hentry ↦ (hedges entry hentry).1
  · simpa [← Function.comp_def, ← map_map] using hedgeKeys
  · exact forall_zipIdx.mp fun entry hentry ↦
      validateBundleEvidence_eq_ok (forM_eq_ok.mp hevidence entry hentry)
  · intro x hx
    simp only [Bool.not_eq_true, any_eq_false, Bool.not_eq_false'] at hevidenced
    simpa using hevidenced x hx
  · intro i u hu
    obtain ⟨entry, hentry, hvalid⟩ := forall₂_getElem? (mapM_eq_ok.mp hunresolved) hu
    obtain ⟨hid, hgeneration, hvalid, hgiven⟩ := validateBundleUnresolved_eq_ok hvalid
    have hindex : entry.2 = i := by
      rw [getElem?_zipIdx] at hentry
      obtain ⟨_, -, rfl⟩ := Option.map_eq_some_iff.mp hentry
      exact Nat.zero_add i
    exact ⟨hindex ▸ hid, hgeneration, hvalid, entry.1, hgiven⟩
  · rw [hcounts.2, hlength]

section Normalization

variable (hhost : host.Lawful)

include hhost

theorem normalizeText_normalized {v w : String} (h : normalizeText host v = .ok w) :
    normalizeText host w = .ok w ∧ trimSpace w = w := by
  unfold normalizeText at h
  split at h
  · cases h
  next hcontrol =>
    obtain rfl := Except.ok.inj h
    have htrim := hhost.trimSpace_nfc (trimSpace v) (trimSpace_trimSpace v)
    have hclean : (trimSpace v).toList.any isControl = false := by
      rw [Bool.not_eq_true, any_eq_false] at hcontrol
      exact any_eq_false.mpr fun c hc ↦ hcontrol c ((trimSpace_sublist _).mem hc)
    refine ⟨?_, htrim⟩
    rw [normalizeText, hhost.control_nfc _ hclean, htrim, hhost.nfc_nfc]
    rfl

theorem normalizeContextField_normalized {v w name : String}
    (h : normalizeContextField host v name = .ok w) :
    normalizeContextField host w name = .ok w ∧ trimSpace w = w := by
  obtain ⟨w', hw', h⟩ := bind_eq_ok.mp h
  obtain ⟨-, h⟩ := guarded_eq_ok.mp h
  obtain rfl := pure_eq_ok.mp h
  obtain ⟨hw, htrim⟩ := normalizeText_normalized hhost hw'
  refine ⟨bind_eq_ok.mpr ⟨w', hw, guarded_eq_ok.mpr ⟨?_, rfl⟩⟩, htrim⟩
  simp

theorem normalizeGraphUnresolvedContext_normalized {given u : GraphUnresolved}
    (h : normalizeGraphUnresolvedContext host given = .ok u) :
    normalizeGraphUnresolvedContext host u = .ok u ∧
      ∀ generation, u.row generation = { u with generationID := generation } := by
  obtain ⟨document, hdocument, h⟩ := bind_eq_ok.mp h
  obtain ⟨block, hblock, h⟩ := bind_eq_ok.mp h
  obtain ⟨kind, hkind, h⟩ := bind_eq_ok.mp h
  obtain ⟨value, hvalue, h⟩ := bind_eq_ok.mp h
  obtain rfl := pure_eq_ok.mp h
  obtain ⟨hdocument, tdocument⟩ := normalizeContextField_normalized hhost hdocument
  obtain ⟨hblock, tblock⟩ := normalizeContextField_normalized hhost hblock
  obtain ⟨hkind, tkind⟩ := normalizeContextField_normalized hhost hkind
  obtain ⟨hvalue, tvalue⟩ := normalizeContextField_normalized hhost hvalue
  refine ⟨?_, ?_⟩
  · simp only [normalizeGraphUnresolvedContext, hdocument, hblock, hkind, hvalue]
    rfl
  · intro generation
    simp only [GraphUnresolved.row, tdocument, tblock, tkind, tvalue]

end Normalization

section Validate

theorem insertionSort_of_positions {α : Type} {l : List α} {id : α → ℤ}
    (h : ∀ (i : ℕ) a, l[i]? = some a → id a = i) : l.insertionSort (fun a b ↦ id a ≤ id b) = l := by
  refine List.Pairwise.insertionSort_eq (pairwise_iff_getElem.mpr ?_)
  intro i j hi hj hij
  rw [h i l[i] (getElem?_eq_getElem hi), h j l[j] (getElem?_eq_getElem hj)]
  omega

theorem GraphBundle.validate_checked {b c : GraphBundle} (h : b.validate host = .ok c) :
    Checked host c ∧ c = { b with unresolved := c.unresolved } ∧
      graphContentHash host true c.nodes c.edges c.evidence c.unresolved =
        .ok b.generation.contentDigest ∧
      b.generation.derivedID host b.generation.contentDigest = b.generation.generationID := by
  obtain ⟨first, hfirst, h⟩ := bind_eq_ok.mp h
  obtain ⟨⟨digest, second⟩, hdigest, h⟩ := bind_eq_ok.mp h
  obtain ⟨hcontent, h⟩ := guarded_eq_ok.mp h
  obtain ⟨hid, h⟩ := guarded_eq_ok.mp h
  obtain rfl := pure_eq_ok.mp h
  rw [ne_eq, not_not] at hcontent hid
  obtain ⟨second', hsecond, hdigest⟩ := bind_eq_ok.mp (mapError_eq_ok.mp hdigest)
  obtain ⟨digest', hhash, hdigest⟩ := bind_eq_ok.mp hdigest
  obtain ⟨rfl, rfl⟩ := Prod.mk.inj (pure_eq_ok.mp hdigest)
  obtain ⟨-, hfirst⟩ := validateRecords_checked hfirst
  obtain ⟨hchecked, hsecond⟩ := validateRecords_checked hsecond
  rw [insertionSort_of_positions fun i n hn ↦ (hchecked.nodes i n hn).1,
    insertionSort_of_positions fun i x hx ↦ (hchecked.edges i x hx).1,
    insertionSort_of_positions fun i e he ↦ (hchecked.evidence i e he).1,
    insertionSort_of_positions fun i u hu ↦ (hchecked.unresolved i u hu).1] at hhash
  rw [hcontent] at hhash hid
  refine ⟨hchecked, ?_, hhash, hid⟩
  rw [hfirst] at hsecond
  exact hsecond

end Validate

end MiLsp.Graph
