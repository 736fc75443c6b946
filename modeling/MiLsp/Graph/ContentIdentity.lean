import MiLsp.Library.Frames
import MiLsp.Graph.RoundTrip

namespace MiLsp.Graph

open Library Strings Attempt Frames List GraphEvidence

section Codes

theorem bigEndian_length (width n : ℕ) : (bigEndian width n).length = width := by
  simp [bigEndian]

theorem bigEndian_succ (width n : ℕ) :
    bigEndian (width + 1) n = (n / 256 ^ width % 256).toUInt8 :: bigEndian width n := by
  simp [bigEndian, range_succ]

theorem bigEndian_mod_inj {width m n : ℕ} (h : bigEndian width m = bigEndian width n) :
    m % 256 ^ width = n % 256 ^ width := by
  induction width with
  | zero => simp [Nat.mod_one]
  | succ width ih =>
    rw [bigEndian_succ, bigEndian_succ, List.cons.injEq] at h
    have hdigit := congrArg UInt8.toNat h.1
    simp only [Nat.toUInt8, UInt8.toNat_ofNat', Nat.reducePow, Nat.mod_mod] at hdigit
    rw [Nat.pow_succ, Nat.mod_mul, Nat.mod_mul, ih h.2, hdigit]

theorem bigEndian_inj {width m n : ℕ} (hm : m < 256 ^ width) (hn : n < 256 ^ width)
    (h : bigEndian width m = bigEndian width n) : m = n := by
  have hmod := bigEndian_mod_inj h
  rwa [Nat.mod_eq_of_lt hm, Nat.mod_eq_of_lt hn] at hmod

def integerBytes (n : ℤ) : Bytes := bigEndian 8 (n % 2 ^ 64).toNat

theorem integerBytes_inj {m n : ℤ} (hm : 0 ≤ m ∧ m < 2 ^ 63) (hn : 0 ≤ n ∧ n < 2 ^ 63)
    (h : integerBytes m = integerBytes n) : m = n := by
  have hlt : ∀ k : ℤ, (k % 2 ^ 64).toNat < 256 ^ 8 := by
    intro k
    omega
  have hmn := bigEndian_inj (hlt m) (hlt n) h
  omega

end Codes

def fieldHeader (tag : UInt8) (length : ℕ) : Bytes := tag :: bigEndian 4 length

theorem fieldHeader_readable : Readable fieldHeader (2 ^ 32) where
  width := ⟨4, fun t n ↦ by simp [fieldHeader, bigEndian_length]⟩
  inj t t' n n' hn hn' h := by
    obtain ⟨htag, hlength⟩ := List.cons.inj h
    exact ⟨htag, bigEndian_inj hn hn' hlength⟩

section Frames

def GraphNodeRecord.frames (n : GraphNodeRecord) : List (UInt8 × Bytes) :=
  [(1, integerBytes n.nodeID), (2, n.nodeKey.toList), (3, utf8 n.identitySchema),
    (4, utf8 n.identity.repositoryIdentity), (5, utf8 n.identity.backendType),
    (6, utf8 n.identity.language), (7, utf8 n.identity.projectOrModule),
    (8, utf8 n.identity.ownerPath), (9, utf8 n.identity.symbolKind),
    (10, utf8 n.identity.semanticIdentity), (11, utf8 n.displayName),
    (12, n.sourceDigest.toList), (13, utf8 n.claimStatus), (14, utf8 n.crossRID),
    (15, utf8 n.sortKey)]

def GraphEdgeRecord.frames (x : GraphEdgeRecord) : List (UInt8 × Bytes) :=
  [(1, integerBytes x.edgeID), (2, x.edgeKey.toList), (3, integerBytes x.fromNodeID),
    (4, integerBytes x.toNodeID), (5, utf8 x.relation), (6, utf8 x.claimScope),
    (7, utf8 x.claimStatus), (8, utf8 x.ownerPath), (9, utf8 x.sourceBackend),
    (10, utf8 x.crossRID)]

variable (e : GraphEvidence)

def GraphEvidence.frames : List (UInt8 × Bytes) :=
  [(1, integerBytes e.evidenceID), (2, e.evidenceKey.toList), (3, e.evidenceDigest.toList),
    (4, utf8 e.subjectKind)] ++ e.nodeID.toList.map (fun k ↦ (5, integerBytes k)) ++
    e.edgeID.toList.map (fun k ↦ (6, integerBytes k)) ++
    [(7, utf8 e.sourceURI), (8, utf8 e.backend), (9, utf8 e.extractorVersion),
      (10, e.sourceDigest.toList), (11, utf8 e.claimKind), (12, e.observedClaimDigest.toList),
      (13, utf8 e.claimStatus), (14, utf8 e.crossRID)]

def GraphUnresolved.frames (u : GraphUnresolved) : List (UInt8 × Bytes) :=
  [(1, integerBytes u.unresolvedID), (2, u.unresolvedKey.toList), (3, utf8 u.ownerPath),
    (4, utf8 u.subjectKind), (5, u.selectorDigest.toList), (6, utf8 u.reasonCode)] ++
    u.candidates.map (fun v ↦ (7, utf8 v)) ++ [(8, utf8 u.backend)] ++
    u.sourceDigest.toList.map (fun d ↦ (9, d.toList)) ++
    [(10, utf8 u.crossRID), (11, utf8 u.recoveryHintCode), (12, utf8 u.sourceDocument),
      (13, utf8 u.sourceBlock), (14, utf8 u.targetKind), (15, utf8 u.targetValue)]

def sectionFrames {α : Type} (frames : α → List (UInt8 × Bytes)) (records : List α) :
    List (UInt8 × Bytes) :=
  (241, integerBytes records.length) :: records.flatMap fun r ↦ (242, []) :: frames r

def GraphBundle.frames (c : GraphBundle) : List (UInt8 × Bytes) :=
  (240, utf8 "MILSP-GRAPH-NODES/v2") :: (sectionFrames GraphNodeRecord.frames c.nodes ++
    (240, utf8 "MILSP-GRAPH-EDGES/v2") :: (sectionFrames GraphEdgeRecord.frames c.edges ++
      (240, utf8 "MILSP-GRAPH-EVIDENCE/v2") :: (sectionFrames GraphEvidence.frames c.evidence ++
        (240, utf8 "MILSP-GRAPH-UNRESOLVED/v2") ::
          sectionFrames GraphUnresolved.frames c.unresolved)))

def GraphEvidence.digestFrames : List (UInt8 × Bytes) :=
  [(1, e.sourceDigest.toList), (2, e.observedClaimDigest.toList), (3, utf8 e.sourceURI),
    (4, utf8 e.claimKind), (5, utf8 e.backend), (6, utf8 e.extractorVersion),
    (7, integerBytes (e.startLine.getD 0)), (8, integerBytes (e.startColumn.getD 0)),
    (9, integerBytes (e.endLine.getD 0)), (10, integerBytes (e.endColumn.getD 0))]

theorem encode_nil : encode fieldHeader [] = [] := rfl

variable (tag : UInt8)

theorem encode_cons (body : Bytes) (frames : List (UInt8 × Bytes)) :
    encode fieldHeader ((tag, body) :: frames) = field tag body ++ encode fieldHeader frames := rfl

variable {α : Type}

theorem encode_option (body : α → Bytes) (x : Option α) :
    encode fieldHeader (x.toList.map fun a ↦ (tag, body a)) =
      (x.map fun a ↦ field tag (body a)).getD [] := by
  cases x with
  | none => rfl
  | some a => exact append_nil _

theorem encode_map (body : α → Bytes) (l : List α) :
    encode fieldHeader (l.map fun a ↦ (tag, body a)) = l.flatMap fun a ↦ field tag (body a) := by
  induction l with
  | nil => rfl
  | cons a l ih => rw [map_cons, encode_cons, ih, flatMap_cons]

theorem GraphNodeRecord.encode_frames (n : GraphNodeRecord) :
    encode fieldHeader n.frames = n.content := by
  simp only [frames, content, encode_cons, encode_nil, append_nil, append_assoc]
  rfl

theorem GraphEdgeRecord.encode_frames (x : GraphEdgeRecord) :
    encode fieldHeader x.frames = x.content := by
  simp only [frames, content, encode_cons, encode_nil, append_nil, append_assoc]
  rfl

theorem GraphEvidence.encode_frames : encode fieldHeader e.frames = e.content := by
  simp only [frames, content, encode_append, encode_cons, encode_nil, encode_option,
    append_nil, append_assoc]
  rfl

theorem GraphUnresolved.encode_frames (u : GraphUnresolved) :
    encode fieldHeader u.frames = u.content true := by
  simp only [frames, content, encode_append, encode_cons, encode_nil, encode_option,
    append_nil, append_assoc, if_true]
  rw [encode_map]
  rfl

theorem encode_sectionFrames {frames : α → List (UInt8 × Bytes)} {content : α → Bytes}
    (hcontent : ∀ r, encode fieldHeader (frames r) = content r) (name : String) (records : List α) :
    encode fieldHeader ((240, utf8 name) :: sectionFrames frames records) =
      contentSection name content records := by
  have hrecords : encode fieldHeader (records.flatMap fun r ↦ (242, []) :: frames r) =
      records.flatMap fun r ↦ recordMark ++ content r := by
    induction records with
    | nil => rfl
    | cons r records ih =>
      rw [flatMap_cons, flatMap_cons, encode_append, encode_cons, hcontent, ih]
      rfl
  unfold sectionFrames contentSection
  rw [encode_cons, encode_cons, hrecords, append_assoc]
  rfl

end Frames

section Streams

variable {host : GraphHost} {c c' : GraphBundle}

def GraphBundle.contentBytes (c : GraphBundle) : Bytes :=
  utf8 "MILSP-GRAPH-CONTENT/v2" ++ encode fieldHeader c.frames

def GraphEvidence.digestBytes (e : GraphEvidence) : Bytes :=
  utf8 "MILSP-EVIDENCE-DIGEST/v1" ++ encode fieldHeader e.digestFrames

theorem GraphEvidence.digest_eq (e : GraphEvidence) :
    e.digest host = host.sha256 e.digestBytes := by
  unfold digest Graph.evidenceDigest digestBytes digestFrames
  simp only [encode_cons, encode_nil, append_nil, append_assoc]
  rfl

theorem graphContentHash_eq (hhost : host.Lawful) (hc : Checked host c) :
    graphContentHash host true c.nodes c.edges c.evidence c.unresolved =
      .ok (host.sha256 c.contentBytes) := by
  have hunresolved : c.unresolved.mapM (normalizeGraphUnresolvedContext host) =
      .ok c.unresolved := by
    refine mapM_eq_ok.mpr (forall₂_same.mpr fun u hu ↦ ?_)
    obtain ⟨i, hi⟩ := getElem?_of_mem hu
    obtain ⟨-, -, -, given, hgiven⟩ := hc.unresolved i u hi
    exact (normalizeGraphUnresolvedContext_normalized hhost hgiven).1
  have hbytes : c.contentBytes = utf8 "MILSP-GRAPH-CONTENT/v2" ++
      contentSection "MILSP-GRAPH-NODES/v2" GraphNodeRecord.content c.nodes ++
      contentSection "MILSP-GRAPH-EDGES/v2" GraphEdgeRecord.content c.edges ++
      contentSection "MILSP-GRAPH-EVIDENCE/v2" content c.evidence ++
      contentSection "MILSP-GRAPH-UNRESOLVED/v2" (GraphUnresolved.content true) c.unresolved := by
    unfold GraphBundle.contentBytes GraphBundle.frames
    simp only [← encode_sectionFrames GraphNodeRecord.encode_frames,
      ← encode_sectionFrames GraphEdgeRecord.encode_frames, ← encode_sectionFrames encode_frames,
      ← encode_sectionFrames GraphUnresolved.encode_frames, encode_cons, encode_append,
      append_assoc]
  unfold graphContentHash
  rw [if_pos rfl, hunresolved, hbytes]
  rfl

/-- Frames inside a record, which are neither the start of a section nor of a record. -/
def Inner (frames : List (UInt8 × Bytes)) : Prop := ∀ f ∈ frames, f.1 ≠ 240 ∧ f.1 ≠ 242

section

variable {α : Type} {frames : α → List (UInt8 × Bytes)} (hframes : ∀ r, Inner (frames r))
include hframes

theorem sectionFrames_inj {l l' : List α} (h : sectionFrames frames l = sectionFrames frames l') :
    l.map frames = l'.map frames := by
  have hmark : ∀ r, ((242, []) : UInt8 × Bytes) ∉ frames r := fun r hr ↦ (hframes r _ hr).2 rfl
  exact flatMap_mark_inj (fun r _ ↦ hmark r) (fun r _ ↦ hmark r) (List.cons.inj h).2

theorem sectionFrames_tag {l : List α} : ∀ f ∈ sectionFrames frames l, f.1 ≠ 240 := by
  intro f hf
  obtain rfl | hf := mem_cons.mp hf
  · simp
  · obtain ⟨r, -, hf⟩ := mem_flatMap.mp hf
    obtain rfl | hf := mem_cons.mp hf
    · simp
    · exact (hframes r f hf).1

theorem section_inj {l l' : List α} {mark : Bytes} {rest rest' : List (UInt8 × Bytes)}
    (h : sectionFrames frames l ++ (240, mark) :: rest =
      sectionFrames frames l' ++ (240, mark) :: rest') :
    l.map frames = l'.map frames ∧ rest = rest' := by
  obtain ⟨hsection, hrest⟩ := append_inj_of_delimited (P := fun f ↦ f.1 = 240)
    (sectionFrames_tag hframes) (sectionFrames_tag hframes) (delimited_cons rfl)
    (delimited_cons rfl) h
  exact ⟨sectionFrames_inj hframes hsection, (List.cons.inj hrest).2⟩

end

theorem GraphNodeRecord.frames_inner (n : GraphNodeRecord) : Inner n.frames := by
  simp [Inner, frames]

theorem GraphEdgeRecord.frames_inner (x : GraphEdgeRecord) : Inner x.frames := by
  simp [Inner, frames]

theorem GraphEvidence.frames_inner (e : GraphEvidence) : Inner e.frames := by
  simp only [Inner, frames, forall_mem_append, forall_mem_map]
  simp

theorem GraphUnresolved.frames_inner (u : GraphUnresolved) : Inner u.frames := by
  simp only [Inner, frames, forall_mem_append, forall_mem_map]
  simp

theorem GraphBundle.frames_inj (h : c.frames = c'.frames) :
    c.nodes.map GraphNodeRecord.frames = c'.nodes.map GraphNodeRecord.frames ∧
      c.edges.map GraphEdgeRecord.frames = c'.edges.map GraphEdgeRecord.frames ∧
      c.evidence.map GraphEvidence.frames = c'.evidence.map GraphEvidence.frames ∧
      c.unresolved.map GraphUnresolved.frames = c'.unresolved.map GraphUnresolved.frames := by
  obtain ⟨hnodes, h⟩ := section_inj GraphNodeRecord.frames_inner (List.cons.inj h).2
  obtain ⟨hedges, h⟩ := section_inj GraphEdgeRecord.frames_inner h
  obtain ⟨hevidence, h⟩ := section_inj GraphEvidence.frames_inner h
  exact ⟨hnodes, hedges, hevidence, sectionFrames_inj GraphUnresolved.frames_inner h⟩

end Streams

section Records

variable {host : GraphHost} {c c' : GraphBundle}

theorem GraphNodeRecord.frames_eq {n n' : GraphNodeRecord} (h : n.frames = n'.frames)
    (hid : n.nodeID = n'.nodeID) :
    { n with generationID := zeroDigest } = { n' with generationID := zeroDigest } := by
  obtain ⟨_, _, _, ⟨⟩, _⟩ := n
  obtain ⟨_, _, _, ⟨⟩, _⟩ := n'
  simp only [frames, List.cons.injEq, Prod.mk.injEq, utf8_inj, Vector.toList_inj] at h hid
  simp only [GraphNodeRecord.mk.injEq, NodeKeyFields.mk.injEq]
  simp only [h, hid, and_self]

theorem GraphEdgeRecord.frames_eq {x x' : GraphEdgeRecord} (h : x.frames = x'.frames)
    (hid : x.edgeID = x'.edgeID)
    (hfrom : integerBytes x.fromNodeID = integerBytes x'.fromNodeID → x.fromNodeID = x'.fromNodeID)
    (hto : integerBytes x.toNodeID = integerBytes x'.toNodeID → x.toNodeID = x'.toNodeID) :
    { x with generationID := zeroDigest } = { x' with generationID := zeroDigest } := by
  simp only [frames, List.cons.injEq, Prod.mk.injEq, utf8_inj, Vector.toList_inj, true_and] at h
  obtain ⟨-, hkey, hsource, htarget, h⟩ := h
  simp only [hid, hkey, hfrom hsource, hto htarget, h]

theorem toList_map_inj {α β : Type} {f : α → β} {x x' : Option α}
    (hf : ∀ a ∈ x, ∀ a' ∈ x', f a = f a' → a = a') (h : x.toList.map f = x'.toList.map f) :
    x = x' := by
  cases x with
  | none =>
    cases x' with
    | none => rfl
    | some a' => cases h
  | some a =>
    cases x' with
    | none => cases h
    | some a' => exact congrArg some (hf a rfl a' rfl (List.cons.inj h).1)

theorem GraphUnresolved.frames_eq {u u' : GraphUnresolved} (h : u.frames = u'.frames)
    (hid : u.unresolvedID = u'.unresolvedID) :
    { u with generationID := zeroDigest } = { u' with generationID := zeroDigest } := by
  have hbodies : ∀ t, bodies t u.frames = bodies t u'.frames := fun t ↦ congrArg (bodies t) h
  have hcandidates : u.candidates = u'.candidates := by
    have h7 := hbodies 7
    simp only [frames, bodies_append, bodies_cons, bodies_nil, bodies_map] at h7
    simpa [map_inj_right fun _ _ ↦ utf8_inj.mp] using h7
  have hsource : u.sourceDigest = u'.sourceDigest := by
    have h9 := hbodies 9
    simp only [frames, bodies_append, bodies_cons, bodies_nil, bodies_map] at h9
    exact toList_map_inj (fun _ _ _ _ ↦ Vector.toList_inj.mp) (by simpa using h9)
  have hrest : ∀ t ∈ ([2, 3, 4, 5, 6, 8, 10, 11, 12, 13, 14, 15] : List UInt8),
      bodies t u.frames = bodies t u'.frames := fun t _ ↦ hbodies t
  simp [frames, utf8_inj, Vector.toList_inj] at hrest
  simp only [hid, hcandidates, hsource, hrest]

variable {e e' : GraphEvidence}

theorem GraphEvidence.frames_eq (h : e.frames = e'.frames) (hid : e.evidenceID = e'.evidenceID)
    (hnode : ∀ k ∈ e.nodeID, ∀ k' ∈ e'.nodeID, integerBytes k = integerBytes k' → k = k')
    (hedge : ∀ k ∈ e.edgeID, ∀ k' ∈ e'.edgeID, integerBytes k = integerBytes k' → k = k') :
    e.evidenceDigest = e'.evidenceDigest ∧
      { e with
        generationID := zeroDigest, startLine := none, startColumn := none, endLine := none
        endColumn := none } =
      { e' with
        generationID := zeroDigest, startLine := none, startColumn := none, endLine := none
        endColumn := none } := by
  have hbodies : ∀ t, bodies t e.frames = bodies t e'.frames := fun t ↦ congrArg (bodies t) h
  have hnodeID : e.nodeID = e'.nodeID := by
    have h5 := hbodies 5
    simp only [frames, bodies_append, bodies_cons, bodies_nil, bodies_map] at h5
    exact toList_map_inj hnode (by simpa using h5)
  have hedgeID : e.edgeID = e'.edgeID := by
    have h6 := hbodies 6
    simp only [frames, bodies_append, bodies_cons, bodies_nil, bodies_map] at h6
    exact toList_map_inj hedge (by simpa using h6)
  have hrest : ∀ t ∈ ([2, 3, 4, 7, 8, 9, 10, 11, 12, 13, 14] : List UInt8),
      bodies t e.frames = bodies t e'.frames := fun t _ ↦ hbodies t
  simp [frames, utf8_inj, Vector.toList_inj] at hrest
  simp only [hid, hnodeID, hedgeID, hrest, and_self]

theorem GraphEvidence.digestFrames_eq (h : e.digestFrames = e'.digestFrames)
    (hsize : ∀ x ∈ [e.startLine, e.startColumn, e.endLine, e.endColumn],
      ∀ k ∈ x, 0 ≤ k ∧ k < 2 ^ 63)
    (hsize' : ∀ x ∈ [e'.startLine, e'.startColumn, e'.endLine, e'.endColumn],
      ∀ k ∈ x, 0 ≤ k ∧ k < 2 ^ 63) :
    e.startLine.getD 0 = e'.startLine.getD 0 ∧ e.startColumn.getD 0 = e'.startColumn.getD 0 ∧
      e.endLine.getD 0 = e'.endLine.getD 0 ∧ e.endColumn.getD 0 = e'.endColumn.getD 0 := by
  have hgetD : ∀ x : Option ℤ, (∀ k ∈ x, 0 ≤ k ∧ k < 2 ^ 63) →
      0 ≤ x.getD 0 ∧ x.getD 0 < 2 ^ 63 := by
    intro x hx
    cases x with
    | none => decide
    | some k => exact hx k rfl
  simp only [forall_mem_cons] at hsize hsize'
  obtain ⟨h1, h2, h3, h4, -⟩ := hsize
  obtain ⟨h1', h2', h3', h4', -⟩ := hsize'
  simp only [digestFrames, List.cons.injEq, Prod.mk.injEq, true_and] at h
  obtain ⟨-, -, -, -, -, -, hsl, hsc, hel, hec, -⟩ := h
  exact ⟨integerBytes_inj (hgetD _ h1) (hgetD _ h1') hsl,
    integerBytes_inj (hgetD _ h2) (hgetD _ h2') hsc,
    integerBytes_inj (hgetD _ h3) (hgetD _ h3') hel,
    integerBytes_inj (hgetD _ h4) (hgetD _ h4') hec⟩

theorem GraphEvidence.range_whole {range : Option (ℤ × ℤ × ℤ × ℤ)} (h : e.range = .ok range) :
    (e.startLine = none ∧ e.startColumn = none ∧ e.endLine = none ∧ e.endColumn = none) ∨
      ∃ sl sc el ec, e.startLine = some sl ∧ e.startColumn = some sc ∧ e.endLine = some el ∧
        e.endColumn = some ec := by
  unfold GraphEvidence.range at h
  split at h
  · cases h
  · split at h
    next sl sc el ec hsl hsc hel hec => exact .inr ⟨sl, sc, el, ec, hsl, hsc, hel, hec⟩
    next hsl hsc hel hec => exact .inl ⟨hsl, hsc, hel, hec⟩
    · cases h

def GraphEvidence.zeroRange (e : GraphEvidence) : Prop :=
  e.startLine = some 0 ∧ e.startColumn = some 0 ∧ e.endLine = some 0 ∧ e.endColumn = some 0

/-- Coordinates that agree with absent ones as 0 are the same, unless one range is absent and the
other all 0. -/
theorem GraphEvidence.range_eq {r r' : Option (ℤ × ℤ × ℤ × ℤ)}
    (hr : e.range = .ok r) (hr' : e'.range = .ok r')
    (h : e.startLine.getD 0 = e'.startLine.getD 0 ∧ e.startColumn.getD 0 = e'.startColumn.getD 0 ∧
      e.endLine.getD 0 = e'.endLine.getD 0 ∧ e.endColumn.getD 0 = e'.endColumn.getD 0)
    (hapart : ¬(e.startLine = none ∧ e'.zeroRange) ∧ ¬(e.zeroRange ∧ e'.startLine = none)) :
    e.startLine = e'.startLine ∧ e.startColumn = e'.startColumn ∧ e.endLine = e'.endLine ∧
      e.endColumn = e'.endColumn := by
  unfold zeroRange at hapart
  obtain ⟨h1, h2, h3, h4⟩ | ⟨sl, sc, el, ec, h1, h2, h3, h4⟩ := range_whole hr <;>
    obtain ⟨h1', h2', h3', h4'⟩ | ⟨sl', sc', el', ec', h1', h2', h3', h4'⟩ := range_whole hr' <;>
    rw [h1, h2, h3, h4, h1', h2', h3', h4'] at h hapart ⊢ <;>
    simp only [Option.getD_some, Option.getD_none] at h
  · exact ⟨rfl, rfl, rfl, rfl⟩
  · simp [← h.1, ← h.2.1, ← h.2.2.1, ← h.2.2.2] at hapart
  · simp [h.1, h.2.1, h.2.2.1, h.2.2.2] at hapart
  · simp [h.1, h.2.1, h.2.2.1, h.2.2.2]

end Records

section Identity

variable {host : GraphHost} {c c' : GraphBundle}

/-- What the machine's types hold: integers of 64 bits, lengths of 32 bits in the stream. -/
structure Sized (c : GraphBundle) : Prop where
  nodes : c.nodes.length < 2 ^ 63
  edges : c.edges.length < 2 ^ 63
  ranges : ∀ e ∈ c.evidence, ∀ x ∈ [e.startLine, e.startColumn, e.endLine, e.endColumn],
    ∀ k ∈ x, k < 2 ^ 63
  frames : ∀ f ∈ c.frames, f.2.length < 2 ^ 32

def GraphBundle.hashed (c : GraphBundle) : Set Bytes :=
  {raw | raw = c.contentBytes ∨ ∃ e ∈ c.evidence, raw = e.digestBytes}

structure SameRecords (c c' : GraphBundle) : Prop where
  nodes : c.nodes.map (fun n ↦ { n with generationID := zeroDigest }) =
    c'.nodes.map fun n ↦ { n with generationID := zeroDigest }
  edges : c.edges.map (fun x ↦ { x with generationID := zeroDigest }) =
    c'.edges.map fun x ↦ { x with generationID := zeroDigest }
  evidence : c.evidence.map (fun e ↦ { e with generationID := zeroDigest }) =
    c'.evidence.map fun e ↦ { e with generationID := zeroDigest }
  unresolved : c.unresolved.map (fun u ↦ { u with generationID := zeroDigest }) =
    c'.unresolved.map fun u ↦ { u with generationID := zeroDigest }

/-- At no place has the one bundle an evidence without a range and the other one at 0:0. -/
def RangesApart (c c' : GraphBundle) : Prop :=
  ∀ (i : ℕ) e e', c.evidence[i]? = some e → c'.evidence[i]? = some e' →
    ¬(e.startLine = none ∧ e'.zeroRange) ∧ ¬(e.zeroRange ∧ e'.startLine = none)

theorem map_eq_of_map_eq {α β γ : Type} {f : α → β} {g : α → γ} {l l' : List α}
    (h : l.map f = l'.map f)
    (hfg : ∀ (i : ℕ) a a', l[i]? = some a → l'[i]? = some a' → f a = f a' → g a = g a') :
    l.map g = l'.map g := by
  refine ext_getElem? fun i ↦ ?_
  have hi := congrArg (·[i]?) h
  simp only [getElem?_map] at hi ⊢
  cases ha : l[i]? with
  | none =>
    rw [ha] at hi
    rw [Option.map_eq_none_iff.mp hi.symm]
  | some a =>
    rw [ha] at hi
    obtain ⟨a', ha', heq⟩ := Option.map_eq_some_iff.mp hi.symm
    rw [ha', Option.map_some, Option.map_some, hfg i a a' ha ha' heq.symm]

theorem recordAt?_bounds {α : Type} {l : List α} {k : ℤ} {a : α} (h : recordAt? l k = some a) :
    0 ≤ k ∧ k < l.length := by
  unfold recordAt? at h
  split at h
  · cases h
  · obtain ⟨hlt, -⟩ := List.getElem?_eq_some_iff.mp h
    omega

variable {e : GraphEvidence} {i : ℕ}

theorem evidenceSubject_bounds {subject : GraphDigest × String}
    (h : evidenceSubject c.nodes c.edges e = some subject) :
    (∀ k ∈ e.nodeID, 0 ≤ k ∧ k < c.nodes.length) ∧
      ∀ k ∈ e.edgeID, 0 ≤ k ∧ k < c.edges.length := by
  unfold evidenceSubject at h
  split at h
  next k hnode hedge =>
    obtain ⟨n, hn, -⟩ := Option.map_eq_some_iff.mp h
    rw [hnode, hedge]
    refine ⟨fun _ hk ↦ ?_, nofun⟩
    obtain rfl := Option.some.inj hk
    exact recordAt?_bounds hn
  next k hnode hedge =>
    obtain ⟨x, hx, -⟩ := Option.map_eq_some_iff.mp h
    rw [hnode, hedge]
    refine ⟨nofun, fun _ hk ↦ ?_⟩
    obtain rfl := Option.some.inj hk
    exact recordAt?_bounds hx
  · cases h

theorem integerBytes_length (n : ℤ) : (integerBytes n).length = 8 := bigEndian_length 8 _

theorem Sized.digestFrames (h : Sized c) (he : e ∈ c.evidence) :
    ∀ f ∈ e.digestFrames, f.2.length < 2 ^ 32 := by
  have hframes : ∀ f ∈ e.frames, f.2.length < 2 ^ 32 := by
    intro f hf
    refine h.frames f ?_
    have hsection : f ∈ sectionFrames GraphEvidence.frames c.evidence :=
      mem_cons_of_mem _ (mem_flatMap.mpr ⟨e, he, mem_cons_of_mem _ hf⟩)
    simp [GraphBundle.frames, hsection]
  have htext : ∀ t v, (t, utf8 v) ∈ e.frames → (utf8 v).length < 2 ^ 32 := fun t v ↦ hframes _
  have huri := htext 7 e.sourceURI (by simp [GraphEvidence.frames])
  have hkind := htext 11 e.claimKind (by simp [GraphEvidence.frames])
  have hbackend := htext 8 e.backend (by simp [GraphEvidence.frames])
  have hextractor := htext 9 e.extractorVersion (by simp [GraphEvidence.frames])
  simp only [GraphEvidence.digestFrames, forall_mem_cons, integerBytes_length,
    Vector.length_toList, huri, hkind, hbackend, hextractor]
  simp

section

variable (hc : Checked host c)
include hc

theorem Checked.coordinates (hsized : Sized c) (he : c.evidence[i]? = some e) :
    ∀ x ∈ [e.startLine, e.startColumn, e.endLine, e.endColumn], ∀ k ∈ x, 0 ≤ k ∧ k < 2 ^ 63 := by
  intro x hx k hk
  obtain ⟨-, -, subject, -, hvalid⟩ := hc.evidence i e he
  have hneg := any_eq_false.mp (validateGraphEvidence_range hvalid).1 x hx
  rw [hk] at hneg
  simp only [Option.any_some, decide_eq_true_eq, not_lt] at hneg
  exact ⟨hneg, hsized.ranges e (mem_of_getElem? he) x hx k hk⟩

theorem Checked.ranges_eq (hc' : Checked host c') (hsized : Sized c) (hsized' : Sized c')
    (hsha : Set.InjOn host.sha256 (c.hashed ∪ c'.hashed)) {e' : GraphEvidence}
    (he : c.evidence[i]? = some e) (he' : c'.evidence[i]? = some e')
    (hdigest : e.evidenceDigest = e'.evidenceDigest)
    (hapart : ¬(e.startLine = none ∧ e'.zeroRange) ∧ ¬(e.zeroRange ∧ e'.startLine = none)) :
    e.startLine = e'.startLine ∧ e.startColumn = e'.startColumn ∧ e.endLine = e'.endLine ∧
      e.endColumn = e'.endColumn := by
  obtain ⟨-, -, _, -, hvalid⟩ := hc.evidence i e he
  obtain ⟨-, -, _, -, hvalid'⟩ := hc'.evidence i e' he'
  obtain ⟨⟨r, hr⟩, hd⟩ := validateGraphEvidence_digest hvalid
  obtain ⟨⟨r', hr'⟩, hd'⟩ := validateGraphEvidence_digest hvalid'
  have hmem := mem_of_getElem? he
  have hmem' := mem_of_getElem? he'
  rw [hd, hd', e.digest_eq, e'.digest_eq] at hdigest
  have hbytes : e.digestBytes = e'.digestBytes :=
    hsha (.inl (.inr ⟨e, hmem, rfl⟩)) (.inr (.inr ⟨e', hmem', rfl⟩)) hdigest
  have hframes : e.digestFrames = e'.digestFrames :=
    encode_injective fieldHeader_readable (hsized.digestFrames hmem) (hsized'.digestFrames hmem')
      (append_cancel_left hbytes)
  exact range_eq hr hr' (digestFrames_eq hframes
    (hc.coordinates hsized he) (hc'.coordinates hsized' he')) hapart

theorem Checked.edge_bounds (hsized : Sized c) {x : GraphEdgeRecord} (hx : c.edges[i]? = some x) :
    (0 ≤ x.fromNodeID ∧ x.fromNodeID < 2 ^ 63) ∧ 0 ≤ x.toNodeID ∧ x.toNodeID < 2 ^ 63 := by
  obtain ⟨-, -, _, _, hsource, htarget, -⟩ := hc.edges i x hx
  have hnodes := hsized.nodes
  have h1 := recordAt?_bounds hsource
  have h2 := recordAt?_bounds htarget
  omega

theorem Checked.evidence_bounds (hsized : Sized c) (he : c.evidence[i]? = some e) :
    (∀ k ∈ e.nodeID, 0 ≤ k ∧ k < 2 ^ 63) ∧ ∀ k ∈ e.edgeID, 0 ≤ k ∧ k < 2 ^ 63 := by
  obtain ⟨-, -, _, hsubject, -⟩ := hc.evidence i e he
  obtain ⟨hnode, hedge⟩ := evidenceSubject_bounds hsubject
  have hnodes := hsized.nodes
  have hedges := hsized.edges
  constructor
  · intro k hk
    have := hnode k hk
    omega
  · intro k hk
    have := hedge k hk
    omega

theorem sameRecords_of_frames (hc' : Checked host c') (hsized : Sized c) (hsized' : Sized c')
    (hsha : Set.InjOn host.sha256 (c.hashed ∪ c'.hashed)) (hframes : c.frames = c'.frames)
    (hapart : RangesApart c c') : SameRecords c c' := by
  obtain ⟨hnodes, hedges, hevidence, hunresolved⟩ := GraphBundle.frames_inj hframes
  refine ⟨map_eq_of_map_eq hnodes ?_, map_eq_of_map_eq hedges ?_, map_eq_of_map_eq hevidence ?_,
    map_eq_of_map_eq hunresolved ?_⟩
  · intro i n n' hn hn' h
    exact GraphNodeRecord.frames_eq h ((hc.nodeIDs i n hn).trans (hc'.nodeIDs i n' hn').symm)
  · intro i x x' hx hx' h
    obtain ⟨hsource, htarget⟩ := hc.edge_bounds hsized hx
    obtain ⟨hsource', htarget'⟩ := hc'.edge_bounds hsized' hx'
    exact GraphEdgeRecord.frames_eq h ((hc.edgeIDs i x hx).trans (hc'.edgeIDs i x' hx').symm)
      (integerBytes_inj hsource hsource') (integerBytes_inj htarget htarget')
  · intro i e e' he he' h
    obtain ⟨hnode, hedge⟩ := hc.evidence_bounds hsized he
    obtain ⟨hnode', hedge'⟩ := hc'.evidence_bounds hsized' he'
    obtain ⟨hdigest, heq⟩ := GraphEvidence.frames_eq h
      ((hc.evidenceIDs i e he).trans (hc'.evidenceIDs i e' he').symm)
      (fun k hk k' hk' ↦ integerBytes_inj (hnode k hk) (hnode' k' hk'))
      (fun k hk k' hk' ↦ integerBytes_inj (hedge k hk) (hedge' k' hk'))
    obtain ⟨hsl, hsc, hel, hec⟩ := hc.ranges_eq hc' hsized hsized' hsha he he' hdigest
      (hapart i e e' he he')
    simp only [GraphEvidence.mk.injEq] at heq ⊢
    simp only [heq, hsl, hsc, hel, hec, and_self]
  · intro i u u' hu hu' h
    exact GraphUnresolved.frames_eq h
      ((hc.unresolvedIDs i u hu).trans (hc'.unresolvedIDs i u' hu').symm)

end

theorem SameRecords.rangesApart (h : SameRecords c c') : RangesApart c c' := by
  intro i e e' he he'
  have hi := congrArg (·[i]?) h.evidence
  simp only [getElem?_map, he, he', Option.map_some, Option.some.injEq,
    GraphEvidence.mk.injEq] at hi
  have hline : e.startLine = e'.startLine := by simp only [hi]
  constructor
  · intro ⟨hnone, hzero, _⟩
    rw [← hline, hnone] at hzero
    cases hzero
  · intro ⟨⟨hzero, _⟩, hnone⟩
    rw [hline, hnone] at hzero
    cases hzero

end Identity

section Sample

def sampleRanged (n : ℕ) (coordinate : Option ℤ) : GraphBundle :=
  sampleOf n 1 [sampleNode n] [] [sampleEvidence n coordinate] []

variable {b : GraphBundle} {x y : Option ℤ}

section

variable (m n : ℕ) (h : x.getD 0 = y.getD 0)
include m n h

theorem sampleRanged_frames_eq : (sampleRanged m x).frames = (sampleRanged n y).frames := by
  simp only [GraphBundle.frames, sampleRanged, sampleOf, sectionFrames, flatMap_cons, flatMap_nil,
    length_singleton, GraphNodeRecord.frames, frames, sampleNode, sampleEvidence, h]

theorem sampleEvidence_digestBytes_eq :
    (sampleEvidence m x).digestBytes = (sampleEvidence n y).digestBytes := by
  simp only [digestBytes, digestFrames, sampleEvidence, h]

theorem sampleRanged_injOn
    (hne : (sampleRanged n y).contentBytes.getD 45 0 ≠ (sampleEvidence n y).digestBytes.getD 45 0) :
    Set.InjOn sampleHost.sha256 ((sampleRanged m x).hashed ∪ (sampleRanged n y).hashed) := by
  have hhashed : ∀ n y, (sampleRanged n y).hashed =
      {(sampleRanged n y).contentBytes, (sampleEvidence n y).digestBytes} := by
    intro n y
    ext raw
    simp [GraphBundle.hashed, sampleRanged, sampleOf]
  have hcontent : (sampleRanged m x).contentBytes = (sampleRanged n y).contentBytes := by
    rw [GraphBundle.contentBytes, GraphBundle.contentBytes, sampleRanged_frames_eq m n h]
  rw [hhashed, hhashed, hcontent, sampleEvidence_digestBytes_eq m n h, Set.union_self,
    Set.injOn_pair]
  intro h
  have hbyte : ∀ raw, (sampleHost.sha256 raw)[0] = raw.getD 45 0 := by
    intro raw
    simp [sampleHost, sampleDigest]
  rw [← hbyte, ← hbyte, h] at hne
  exact absurd rfl hne

end

theorem sampleRanged_frames : ∀ f ∈ (sampleRanged 0 (some 0)).frames, f.2.length < 2 ^ 32 := by
  decide +kernel

theorem sampleRanged_sized (n : ℕ) (hx : x.getD 0 = 0) :
    Sized (sampleRanged n x) where
  nodes := by simp [sampleRanged, sampleOf]
  edges := by simp [sampleRanged, sampleOf]
  ranges := by
    have hk : ∀ k ∈ x, k < 2 ^ 63 := by
      intro k hk
      rw [hk, Option.getD_some] at hx
      omega
    simpa [sampleRanged, sampleOf, sampleEvidence] using hk
  frames := by
    rw [sampleRanged_frames_eq n 0 (x := x) (y := some 0) hx]
    exact sampleRanged_frames

theorem sampleRanged_rangesApart (m n : ℕ) (k k' : ℤ) :
    RangesApart (sampleRanged m (some k)) (sampleRanged n (some k')) := by
  intro i e e' he he'
  have hline : e.startLine = some k := by
    obtain rfl := mem_singleton.mp (mem_of_getElem? he)
    rfl
  have hline' : e'.startLine = some k' := by
    obtain rfl := mem_singleton.mp (mem_of_getElem? he')
    rfl
  simp [hline, hline']

theorem sampleRanged_validate :
    (sampleRanged 0 (some 0)).validate sampleHost = .ok (sampleRanged 0 (some 0)) :=
  toOption_eq_some.mp (by decide +kernel)

theorem sampleRanged_bytes :
    (sampleRanged 0 (some 0)).contentBytes.getD 45 0 ≠
      (sampleEvidence 0 (some 0)).digestBytes.getD 45 0 := by
  decide +kernel

theorem validate_contentDigest {host : GraphHost} (hhost : host.Lawful)
    (h : b.validate host = .ok b) : b.generation.contentDigest = host.sha256 b.contentBytes := by
  obtain ⟨hchecked, -, hcontent, -⟩ := GraphBundle.validate_sealed h
  rw [graphContentHash_eq hhost hchecked] at hcontent
  exact (Except.ok.inj hcontent).symm

theorem sampleRanged_contentDigest_eq (m n : ℕ) (h : x.getD 0 = y.getD 0)
    (hm : (sampleRanged m x).validate sampleHost = .ok (sampleRanged m x))
    (hn : (sampleRanged n y).validate sampleHost = .ok (sampleRanged n y)) :
    (sampleRanged m x).generation.contentDigest = (sampleRanged n y).generation.contentDigest := by
  rw [validate_contentDigest sampleHost_lawful hm, validate_contentDigest sampleHost_lawful hn,
    GraphBundle.contentBytes, GraphBundle.contentBytes, sampleRanged_frames_eq m n h]

theorem sampleRanged_validate_none :
    (sampleRanged 0 none).validate sampleHost = .ok (sampleRanged 0 none) :=
  toOption_eq_some.mp (by decide +kernel)

end Sample

end MiLsp.Graph
