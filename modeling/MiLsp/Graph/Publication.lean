import MiLsp.Graph.History
import MiLsp.Graph.Locality

namespace MiLsp.Graph

open Library Strings Attempt List GraphBundle Except GraphGeneration GraphStore
open GraphRows

variable {host : GraphHost} {s s' : GraphStore} {ws : String} {b b' : GraphBundle}

def publishGraph (host : GraphHost) (s : GraphStore) (b : GraphBundle) (publishedAt : Time) :
    Except GraphError GraphStore := do
  let s ← stageGraphGenerationConn host s b
  activateGraphGenerationAt host s b.generation.generationID s.active publishedAt

structure Storable (host : GraphHost) (b : GraphBundle) : Prop where
  staged : b.generation.status = .staged
  schema : b.generation.schemaVersion = 1
  canonical : identityCanonical host b.generation.workspaceIdentity = true
  stored : ∃ checked, b.validate host = .ok checked ∧ ∃ rows,
    GraphRows.empty.insertRecords checked = .ok rows ∧
    checkGraphGeneration host rows b.generation .current = .ok ()

theorem GraphBundle.validateRecords_eq_ok {requireSealed : Bool}
    (h : b.validateRecords host requireSealed = .ok b') : b'.generation = b.generation ∧
      (requireSealed = true → b.generation.generationID ≠ zeroDigest) := by
  unfold validateRecords at h
  simp only [guarded_eq_ok, seq_eq_ok] at h
  obtain ⟨-, -, h⟩ := h
  obtain ⟨_, -, h⟩ := bind_eq_ok.mp h
  simp only [guarded_eq_ok] at h
  obtain ⟨-, hsealed, h⟩ := h
  obtain ⟨_, -, h⟩ := bind_eq_ok.mp h
  obtain ⟨_, -, h⟩ := bind_eq_ok.mp h
  simp only [guarded_eq_ok, seq_eq_ok] at h
  obtain ⟨-, -, h⟩ := h
  obtain ⟨unresolved, -, h⟩ := bind_eq_ok.mp h
  obtain rfl := pure_eq_ok.mp h
  exact ⟨rfl, fun hs hzero ↦ hsealed (by simp [hs, hzero])⟩

theorem GraphBundle.validate_eq_ok (h : b.validate host = .ok b') :
    b'.generation = b.generation ∧ b.generation.generationID ≠ zeroDigest := by
  obtain ⟨checked, hchecked, h⟩ := bind_eq_ok.mp h
  obtain ⟨hgeneration, hzero⟩ := validateRecords_eq_ok hchecked
  obtain ⟨⟨digest, checked'⟩, hdigest, h⟩ := bind_eq_ok.mp h
  simp only [guarded_eq_ok] at h
  obtain ⟨-, -, h⟩ := h
  obtain rfl := pure_eq_ok.mp h
  obtain ⟨again, hagain, hdigest⟩ := bind_eq_ok.mp (mapError_eq_ok.mp hdigest)
  obtain ⟨_, -, hdigest⟩ := bind_eq_ok.mp hdigest
  cases hdigest
  exact ⟨(validateRecords_eq_ok hagain).1.trans hgeneration, hzero rfl⟩

theorem stageGraphGenerationConn_eq_ok
    (hfresh : s.generations.find? b.generation.generationID = none) :
    stageGraphGenerationConn host s b = .ok s' ↔ b.generation.status = .staged ∧
      ∃ checked, b.validate host = .ok checked ∧ s.admitsGeneration b.generation = true ∧
      ∃ rows, s.rows.insertRecords checked = .ok rows ∧
        s' = s.staged b.generation rows := by
  unfold stageGraphGenerationConn
  rw [guarded_eq_ok, bind_eq_ok, ne_eq, not_not]
  refine and_congr_right fun _ ↦ exists_congr fun checked ↦ and_congr_right fun hchecked ↦ ?_
  rw [(validate_eq_ok hchecked).1]
  cases s.admitsGeneration b.generation with
  | true =>
    simp only [if_true, bind_eq_ok, pure_eq_ok, true_and]
    exact exists_congr fun rows ↦ and_congr_right fun _ ↦ eq_comm
  | false =>
    simp [restageGeneration, loadGeneration, hfresh, orElse, orInvalid, Except.mapError, bind,
      Except.bind]

variable {rows : GraphRows} {publishedAt : Time} {ids : List GraphDigest}

theorem insertRecords_isolated {id : GraphDigest} (hid : b.generation.generationID = id)
    (hrows : rows.ofGeneration id = .empty) :
    empty.insertRecords b = (rows.insertRecords b).map (·.ofGeneration id) := by
  subst hid
  have hcommutes := insertRecords_commutes b rows
  dsimp only at hcommutes
  rw [← hrows, hcommutes]

theorem GraphStore.find?_staged (s : GraphStore) (g : GraphGeneration) (rows : GraphRows) :
    (s.staged g rows).generations.find? g.stagedRow.generationID = some g.stagedRow := by
  simp [staged]

structure Publications (host : GraphHost) (s : GraphStore) (ws : String) (ids : List GraphDigest) :
    Prop extends Chain host s ws ids where
  known : ∀ id ∉ ids, s.generations.find? id = none
  separate : ∀ id ∉ ids, s.rows.ofGeneration id = .empty

theorem publications_empty : Publications host .empty ws [] where
  linked := .nil
  nodup := nodup_nil
  nonzero := not_mem_nil
  active := rfl
  status := fun _ hrow ↦ absurd hrow not_mem_nil
  canonical := fun hids ↦ absurd rfl hids
  known := fun _ _ ↦ rfl
  separate := fun _ _ ↦ rfl

theorem Chain.stage (h : Chain host s ws ids) {checked : GraphBundle}
    (hid : b.generation.generationID ∉ ids) (hchecked : checked.generation = b.generation)
    (hrows : s.rows.insertRecords checked = .ok rows) :
    Chain host (s.staged b.generation rows) ws ids := by
  have hlinked : Linked host (s.staged b.generation rows) ws ids := by
    refine h.linked.transfer (fun id hmem ↦ ?_) fun id hmem g hfind hg ↦ ?_
    · have hne : checked.generation.generationID ≠ id := fun heq ↦ hid (hchecked ▸ heq ▸ hmem)
      exact insertRecords_keeps hne s.rows rows hrows
    · have hne : b.generation.stagedRow.generationID ≠ id := fun heq ↦ hid (heq ▸ hmem)
      exact ⟨g.status, hg.status, by rw [staged, Table.find?_put, if_neg hne, hfind]⟩
  refine ⟨hlinked, h.nodup, h.nonzero, h.active, fun row hrow ↦ ?_, h.canonical⟩
  obtain ⟨hrow, -⟩ | rfl := Table.mem_put.mp hrow
  · exact h.status row hrow
  · constructor
    · intro hstatus
      cases hstatus
    · intro hactive
      exact absurd (mem_of_head? (h.active ▸ hactive)) hid

theorem checkGraphGeneration_counts {g : GraphGeneration}
    {mode : GraphContentValidationMode} (h : checkGraphGeneration host rows g mode = .ok ()) :
    0 ≤ g.nodeCount ∧ 0 ≤ g.edgeCount ∧ 0 ≤ g.evidenceCount ∧ 0 ≤ g.unresolvedCount := by
  unfold checkGraphGeneration at h
  rw [guarded_eq_ok, bind_eq_ok] at h
  simp only [guarded_eq_ok, Bool.or_eq_true, decide_eq_true_eq, not_or, ne_eq, not_not] at h
  omega

namespace Publications

variable {ids : List GraphDigest} (h : Publications host s ws ids) {b : GraphBundle}

include h

theorem admitsGeneration_iff (hid : b.generation.generationID ∉ ids) :
    s.admitsGeneration b.generation = true ↔ b.generation.schemaVersion = 1 ∧
      (0 ≤ b.generation.nodeCount ∧ 0 ≤ b.generation.edgeCount ∧ 0 ≤ b.generation.evidenceCount ∧
        0 ≤ b.generation.unresolvedCount) ∧
      ∀ p ∈ b.generation.previousGenerationID, p = b.generation.generationID ∨ p ∈ ids := by
  have hknown : ∀ p, (s.generations.find? p).isSome = true ↔ p ∈ ids := by
    intro p
    by_cases hp : p ∈ ids
    · obtain ⟨g, hfind, -⟩ := h.linked.published hp
      simp [hfind, hp]
    · simp [h.known p hp, hp]
  unfold admitsGeneration
  cases b.generation.previousGenerationID with
  | none => simp [h.known _ hid, and_assoc]
  | some p => simp [h.known _ hid, hknown, and_assoc]

section

variable (hid : b.generation.generationID ∉ ids) (hws : b.generation.workspaceIdentity = ws)
include hid hws

theorem publishGraph_eq_ok :
    publishGraph host s b publishedAt = .ok s' ↔
      (publishedAt ≠ 0 ∧ Storable host b ∧ (∀ p ∈ b.generation.previousGenerationID, p ∈ ids) ∧
        ids.length < graphGenerationAncestryMaxDepth) ∧
      ∃ checked rows, b.validate host = .ok checked ∧ s.rows.insertRecords checked = .ok rows ∧
        (s.staged b.generation rows).switchActive b.generation.stagedRow s.active publishedAt =
          .ok s' := by
  unfold publishGraph
  rw [bind_eq_ok]
  simp only [stageGraphGenerationConn_eq_ok (h.known _ hid), h.admitsGeneration_iff hid]
  constructor
  · rintro ⟨_, ⟨hstaged, checked, hchecked, ⟨hschema, -, hprevious⟩, rows, hrows, rfl⟩, hactivate⟩
    have hgeneration := (validate_eq_ok hchecked).1
    have hchain := h.toChain.stage hid hgeneration hrows
    have hisolated := insertRecords_isolated (congrArg _ hgeneration) (h.separate _ hid)
    rw [hrows] at hisolated
    obtain ⟨htime, hvalid, hcanonical, hknown, hlength, hswitch⟩ :=
      (hchain.activate_eq_ok (s.find?_staged _ rows) hid rfl hws hprevious).mp hactivate
    have hstorable : Storable host b :=
      ⟨hstaged, hschema, hws ▸ hcanonical, checked, hchecked, _, hisolated, hvalid⟩
    exact ⟨⟨htime, hstorable, hknown, hlength⟩, checked, rows, hchecked, hrows, hswitch⟩
  · rintro ⟨⟨htime, hstorable, hknown, hlength⟩, checked, rows, hchecked, hrows, hswitch⟩
    have hgeneration := (validate_eq_ok hchecked).1
    have hchain := h.toChain.stage hid hgeneration hrows
    have hisolated := insertRecords_isolated (congrArg _ hgeneration) (h.separate _ hid)
    rw [hrows] at hisolated
    obtain ⟨checked', hchecked', alone, halone, hvalid⟩ := hstorable.stored
    obtain rfl : checked = checked' := ok.inj (hchecked.symm.trans hchecked')
    obtain rfl : rows.ofGeneration _ = alone := ok.inj (hisolated.symm.trans halone)
    have hprevious : ∀ p ∈ b.generation.previousGenerationID,
        p = b.generation.generationID ∨ p ∈ ids := fun p hp ↦ .inr (hknown p hp)
    refine ⟨s.staged b.generation rows, ⟨hstorable.staged, checked, hchecked,
      ⟨hstorable.schema, checkGraphGeneration_counts hvalid, hprevious⟩, rows, hrows, rfl⟩, ?_⟩
    exact (hchain.activate_eq_ok (s.find?_staged _ rows) hid rfl hws hprevious).mpr
      ⟨htime, hvalid, hws ▸ hstorable.canonical, hknown, hlength, hswitch⟩

theorem publishGraph_succeeds_iff :
    (∃ s', publishGraph host s b publishedAt = .ok s') ↔
      publishedAt ≠ 0 ∧ Storable host b ∧ (∀ p ∈ b.generation.previousGenerationID, p ∈ ids) ∧
        ids.length < graphGenerationAncestryMaxDepth := by
  simp only [h.publishGraph_eq_ok hid hws, exists_and_left, and_iff_left_iff_imp]
  rintro ⟨-, hstorable, -, -⟩
  obtain ⟨checked, hchecked, alone, halone, -⟩ := hstorable.stored
  have hgeneration := (validate_eq_ok hchecked).1
  rw [insertRecords_isolated (congrArg _ hgeneration) (h.separate _ hid)] at halone
  cases hrows : s.rows.insertRecords checked with
  | error e => simp [hrows, Except.map] at halone
  | ok rows =>
    have hchain := h.toChain.stage hid hgeneration hrows
    obtain ⟨s', hs'⟩ := hchain.pointed.switchActive_succeeds
      (s.find?_staged b.generation rows) (by simp [stagedRow])
    exact ⟨s', checked, hchecked, rows, hrows, hs'⟩

theorem step (hpublish : publishGraph host s b publishedAt = .ok s') :
    Publications host s' ws (b.generation.generationID :: ids) := by
  obtain ⟨⟨-, hstorable, -, -⟩, checked, rows, hchecked, hrows, hswitch⟩ :=
    (h.publishGraph_eq_ok hid hws).mp hpublish
  obtain ⟨hgeneration, hzero⟩ := validate_eq_ok hchecked
  have hchain := h.toChain.stage hid hgeneration hrows
  have hfind := s.find?_staged b.generation rows
  obtain ⟨checked', hchecked', alone, halone, hvalid⟩ := hstorable.stored
  obtain rfl : checked = checked' := ok.inj (hchecked.symm.trans hchecked')
  rw [insertRecords_isolated (congrArg _ hgeneration) (h.separate _ hid), hrows] at halone
  obtain rfl := ok.inj halone
  obtain ⟨hrows', -, hgenerations⟩ :=
    hchain.pointed.switchActive_find? hfind (by simp [stagedRow]) hswitch
  refine ⟨hchain.extend (g := b.generation.stagedRow) hfind hid hzero rfl hws
    (hws ▸ hstorable.canonical) hstorable.schema rfl hvalid hswitch, fun k hk ↦ ?_, fun k hk ↦ ?_⟩
  · obtain ⟨hne, hk⟩ := not_or.mp (mem_cons.not.mp hk)
    have hput : (s.staged b.generation rows).generations.find? k = none := by
      simp [staged, stagedRow, Ne.symm hne, h.known k hk]
    have hne' : k ≠ b.generation.stagedRow.generationID := hne
    rw [hgenerations, if_neg hne', hput, Option.map_none]
  · obtain ⟨hne, hk⟩ := not_or.mp (mem_cons.not.mp hk)
    have hne' : checked.generation.generationID ≠ k := hgeneration ▸ Ne.symm hne
    have hkeeps := insertRecords_keeps hne' s.rows rows hrows
    rw [hrows']
    exact hkeeps.trans (h.separate k hk)

end

end Publications

def publishGraphs (host : GraphHost) (s : GraphStore) (run : List (GraphBundle × Time)) :
    Except GraphError GraphStore :=
  run.foldlM (fun s (b, publishedAt) ↦ publishGraph host s b publishedAt) s

theorem publications_run {run : List (GraphBundle × Time)} (h : Publications host s ws ids)
    (hws : ∀ p ∈ run, p.1.generation.workspaceIdentity = ws)
    (hdistinct : ((run.map fun p ↦ p.1.generation.generationID).reverse ++ ids).Nodup)
    (hrun : publishGraphs host s run = .ok s') :
    Publications host s' ws ((run.map fun p ↦ p.1.generation.generationID).reverse ++ ids) := by
  induction run generalizing s ids with
  | nil =>
    obtain rfl := ok.inj hrun
    exact h
  | cons p run ih =>
    obtain ⟨s₁, hs₁, hrun⟩ := bind_eq_ok.mp hrun
    simp only [map_cons, reverse_cons, append_assoc, singleton_append]
      at hdistinct ⊢
    have hid : p.1.generation.generationID ∉ ids := hdistinct.of_append_right.notMem
    exact ih (h.step hid (hws p (by simp)) hs₁) (fun q hq ↦ hws q (by simp [hq])) hdistinct hrun

section Sample

def sampleDigest (raw : Bytes) : GraphDigest :=
  Vector.ofFn fun i : Fin 32 ↦ raw.getD (45 + i) 0

def sampleHost : GraphHost where
  sha256 := sampleDigest
  nfc := id
  toLower := id
  parseURL _ := some ⟨"https", "h", "h", false, "", "", "/r"⟩

variable (n : ℕ)

def sampleSource : GraphDigest :=
  Vector.ofFn fun i : Fin 32 ↦
    if i = 0 then (n / 256).toUInt8 else if i = 1 then (n % 256).toUInt8 else 1

def sampleOf (createdAt : Time) (nodes : List GraphNodeRecord) (edges : List GraphEdgeRecord)
    (evidence : List GraphEvidence) (unresolved : List GraphUnresolved) : GraphBundle where
  generation :=
    { generationID := sampleSource n
      schemaVersion := 1
      workspaceIdentity := "h/r"
      repositoryIdentity := "h/r"
      sourceFingerprint := sampleSource n
      configFingerprint := sampleSource 0
      backendManifestDigest := sampleSource 0
      contentDigest := (graphContentHash sampleHost true nodes edges evidence
        unresolved).toOption.getD zeroDigest
      status := .staged
      errorCode := ""
      nodeCount := nodes.length
      edgeCount := edges.length
      evidenceCount := evidence.length
      unresolvedCount := unresolved.length
      previousGenerationID := none
      createdAt
      publishedAt := none }
  nodes
  edges
  evidence
  unresolved

def sampleBundle : GraphBundle := sampleOf n 1 [] [] [] []

theorem sampleSource_ne_zero : sampleSource n ≠ zeroDigest := by
  intro h
  have h2 := congrArg (·[2]) h
  simp [sampleSource, zeroDigest] at h2

theorem sampleSource_injective {m n : ℕ} (hm : m < 65536) (hn : n < 65536)
    (h : sampleSource m = sampleSource n) : m = n := by
  have h0 : (m / 256).toUInt8 = (n / 256).toUInt8 := by simpa [sampleSource] using congrArg (·[0]) h
  have h1 : (m % 256).toUInt8 = (n % 256).toUInt8 := by simpa [sampleSource] using congrArg (·[1]) h
  have hquot := congrArg UInt8.toNat h0
  have hrem := congrArg UInt8.toNat h1
  simp only [Nat.toUInt8, UInt8.toNat_ofNat'] at hquot hrem
  omega

theorem sampleDigest_append {front back : Bytes} {d : GraphDigest}
    (hfront : front.length = 45) : sampleDigest (front ++ d.toList ++ back) = d := by
  ext i hi
  have hi' : ¬45 + i < 45 := by omega
  simp [sampleDigest, getElem?_append, hfront, hi']

theorem sampleHost_repository : normalizeRepositoryIdentity sampleHost "h/r" = .ok "h/r" := by
  decide +kernel

theorem sampleBundle_derivedID (content : GraphDigest) :
    (sampleBundle n).generation.derivedID sampleHost content = sampleSource n := by
  have hbytes : generationBytes sampleHost 1 "h/r" (sampleSource n) (sampleSource 0)
      (sampleSource 0) content = .ok ((utf8 "MILSP-GENERATION/v2" ++ integerField 1 1 ++
        textField 2 "h/r" ++ [3, 0, 0, 0, 32]) ++ (sampleSource n).toList ++
        (digestField 4 (sampleSource 0) ++ digestField 5 (sampleSource 0) ++
          digestField 6 content)) := by
    have hlength : bigEndian 4 32 = [0, 0, 0, 32] := by decide
    simp only [generationBytes, sampleHost_repository]
    simp [digestField, field, hlength, bind, Except.bind, pure, Except.pure]
  rw [derivedID, deriveGenerationID]
  simp only [sampleBundle, sampleOf, hbytes]
  exact sampleDigest_append (by decide)

theorem sampleBundle_content : graphContentHash sampleHost true [] [] [] [] =
    .ok (sampleBundle n).generation.contentDigest := rfl

theorem sampleBundle_validate : (sampleBundle n).validate sampleHost = .ok (sampleBundle n) := by
  have hws : validateWorkspaceIdentity sampleHost "h/r" = .ok () := by decide +kernel
  have hcontent : (sampleBundle n).generation.contentDigest ≠ zeroDigest := by
    have hzero : (sampleBundle 0).generation.contentDigest ≠ zeroDigest := by decide +kernel
    exact hzero
  have hrecords : ∀ requireSealed, (sampleBundle n).validateRecords sampleHost requireSealed =
      .ok (sampleBundle n) := by
    intro requireSealed
    unfold validateRecords
    refine guarded_eq_ok.mpr ⟨by simp [sampleBundle, sampleOf], seq_eq_ok.mpr ⟨hws, ?_⟩⟩
    refine bind_eq_ok.mpr ⟨_, sampleHost_repository, ?_⟩
    refine guarded_eq_ok.mpr
      ⟨by simp [sampleBundle, sampleOf], guarded_eq_ok.mpr ⟨?_, rfl⟩⟩
    have hid : (sampleBundle n).generation.generationID ≠ zeroDigest := sampleSource_ne_zero n
    simp [hid, hcontent]
  have hdigest : (sampleBundle n).contentDigest sampleHost =
      .ok ((sampleBundle n).generation.contentDigest, sampleBundle n) :=
    bind_eq_ok.mpr ⟨_, hrecords false, bind_eq_ok.mpr ⟨_, sampleBundle_content n, rfl⟩⟩
  have hid : (sampleBundle n).generation.derivedID sampleHost
      (sampleBundle n).generation.contentDigest = (sampleBundle n).generation.generationID :=
    sampleBundle_derivedID n _
  unfold validate
  simp [hrecords, hdigest, hid, orInvalid, Except.mapError, bind, Except.bind]

theorem sampleBundle_storable : Storable sampleHost (sampleBundle n) where
  staged := rfl
  schema := rfl
  canonical := by
    have hcanonical : identityCanonical sampleHost "h/r" = true := by decide +kernel
    exact hcanonical
  stored := by
    refine ⟨_, sampleBundle_validate n, .empty, rfl, ?_⟩
    have hstream : streamGraphWithMode sampleHost .empty (sampleBundle n).generation .current =
        .ok (sampleBundle n).generation.contentDigest := by
      exact sampleBundle_content n
    unfold checkGraphGeneration
    refine guarded_eq_ok.mpr ⟨by simp [sampleBundle, sampleOf, sampleSource_ne_zero], ?_⟩
    refine bind_eq_ok.mpr ⟨_, mapError_eq_ok.mpr hstream, ?_⟩
    refine guarded_eq_ok.mpr ⟨by simp, guarded_eq_ok.mpr ⟨?_, rfl⟩⟩
    exact not_not.mpr (sampleBundle_derivedID n _)

def sampleRun : List (GraphBundle × Time) := (List.range n).map fun i ↦ (sampleBundle i, 1)

theorem sampleRun_distinct {n : ℕ} (hn : n < 65536) :
    ((sampleBundle n).generation.generationID ::
      (sampleRun n).map fun p ↦ p.1.generation.generationID).Nodup := by
  have hmap : ((sampleRun n).map fun p ↦ p.1.generation.generationID) =
      (List.range n).map sampleSource := by simp [sampleRun, sampleBundle, sampleOf]
  rw [hmap]
  refine nodup_cons.mpr ⟨fun hmem ↦ ?_, ?_⟩
  · obtain ⟨i, hi, heq⟩ := mem_map.mp hmem
    rw [mem_range] at hi
    have := sampleSource_injective (by omega) hn heq
    omega
  · refine List.Nodup.map_on (fun i hi j hj heq ↦ ?_) nodup_range
    rw [mem_range] at hi hj
    exact sampleSource_injective (by omega) (by omega) heq

theorem sampleRun_publications {n : ℕ} (hn : n ≤ graphGenerationAncestryMaxDepth) :
    ∃ s, publishGraphs sampleHost .empty (sampleRun n) = .ok s ∧
      Publications sampleHost s "h/r" ((List.range n).map sampleSource).reverse := by
  induction n with
  | zero => exact ⟨_, rfl, publications_empty⟩
  | succ n ih =>
    obtain ⟨s, hs, hhistory⟩ := ih (Nat.le_of_succ_le hn)
    have hsmall : n < 65536 := by
      unfold graphGenerationAncestryMaxDepth at hn
      omega
    have hid : (sampleBundle n).generation.generationID ∉
        ((List.range n).map sampleSource).reverse := by
      have hfresh := (nodup_cons.mp (sampleRun_distinct hsmall)).1
      simpa [sampleRun, sampleBundle, sampleOf] using hfresh
    obtain ⟨s', hs'⟩ : ∃ s', publishGraph sampleHost s (sampleBundle n) 1 = .ok s' :=
      (hhistory.publishGraph_succeeds_iff hid rfl).mpr
      ⟨by decide, sampleBundle_storable n, by simp [sampleBundle, sampleOf],
        by simpa [Nat.succ_le_iff] using hn⟩
    have hstep : Publications sampleHost s' "h/r"
        (sampleSource n :: ((List.range n).map sampleSource).reverse) :=
      hhistory.step (b := sampleBundle n) hid rfl hs'
    refine ⟨s', ?_, by simpa [range_succ] using hstep⟩
    rw [sampleRun, range_succ, map_append, publishGraphs, foldlM_append]
    refine bind_eq_ok.mpr ⟨s, hs, ?_⟩
    exact bind_eq_ok.mpr ⟨s', hs', rfl⟩

end Sample

theorem publishGraph_iff_of_run {run : List (GraphBundle × Time)} {b : GraphBundle}
    {publishedAt : Time} (hrun : publishGraphs host .empty run = .ok s)
    (hws : ∀ p ∈ run, p.1.generation.workspaceIdentity = b.generation.workspaceIdentity)
    (hdistinct : (b.generation.generationID :: run.map fun p ↦ p.1.generation.generationID).Nodup) :
    (∃ s', publishGraph host s b publishedAt = .ok s') ↔
      publishedAt ≠ 0 ∧ Storable host b ∧
      (∀ previous ∈ b.generation.previousGenerationID,
        previous ∈ run.map fun p ↦ p.1.generation.generationID) ∧
      run.length < graphGenerationAncestryMaxDepth := by
  obtain ⟨hid, hnodup⟩ := nodup_cons.mp hdistinct
  have hhistory := publications_run publications_empty hws
    (by simpa only [append_nil, nodup_reverse] using hnodup) hrun
  rw [hhistory.publishGraph_succeeds_iff (by simpa using hid) rfl]
  simp only [append_nil, mem_reverse, length_reverse, length_map]

theorem publishGraph_third : ∃ s, publishGraphs sampleHost .empty (sampleRun 2) = .ok s ∧
    ∃ s', publishGraph sampleHost s (sampleBundle 2) 1 = .ok s' := by
  obtain ⟨s, hs, -⟩ := sampleRun_publications (n := 2) (by decide)
  refine ⟨s, hs, (publishGraph_iff_of_run hs ?_ (sampleRun_distinct (by decide))).mpr ?_⟩
  · intro p hp
    obtain ⟨i, -, rfl⟩ := mem_map.mp hp
    rfl
  · exact ⟨by decide, sampleBundle_storable 2, by simp [sampleBundle, sampleOf], by decide⟩

theorem publishGraph_wears_out : ∃ s, publishGraphs sampleHost .empty (sampleRun 1024) = .ok s ∧
    (∀ p ∈ sampleRun 1024, p.1.generation.workspaceIdentity =
      (sampleBundle 1024).generation.workspaceIdentity) ∧
    ((sampleBundle 1024).generation.generationID ::
      (sampleRun 1024).map fun p ↦ p.1.generation.generationID).Nodup ∧
    (sampleBundle 1024).validate sampleHost = .ok (sampleBundle 1024) ∧
    ¬∃ s', publishGraph sampleHost s (sampleBundle 1024) 1 = .ok s' := by
  obtain ⟨s, hs, hhistory⟩ := sampleRun_publications (n := 1024) le_rfl
  have hdistinct := sampleRun_distinct (n := 1024) (by decide)
  refine ⟨s, hs, fun p hp ↦ ?_, hdistinct, sampleBundle_validate 1024, fun hsucceeds ↦ ?_⟩
  · obtain ⟨i, -, rfl⟩ := mem_map.mp hp
    rfl
  · have hid := (nodup_cons.mp hdistinct).1
    rw [hhistory.publishGraph_succeeds_iff
      (by simpa [sampleRun, sampleBundle, sampleOf] using hid) rfl]
      at hsucceeds
    simp [graphGenerationAncestryMaxDepth] at hsucceeds

end MiLsp.Graph
