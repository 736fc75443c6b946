import MiLsp.Graph.Pointer
import MiLsp.Graph.RoundTrip

namespace MiLsp.Graph

open Library.Attempt List GraphCall GraphGeneration ActivePointer GraphRows

variable {host : GraphHost} {driver : GraphDriver} {s s' s'' : GraphStore} {id : GraphDigest}

def GraphGeneration.core (g : GraphGeneration) : GraphGeneration :=
  { g with status := .staged, publishedAt := none, previousGenerationID := none }

theorem GraphGeneration.retire_core (g : GraphGeneration) : g.retire.core = g.core := by
  unfold retire
  split <;> rfl

variable {g g' : GraphGeneration} {rows : GraphRows} {mode : GraphContentValidationMode}

theorem checkGraphGeneration_core (h : g.core = g'.core) :
    checkGraphGeneration host rows g mode = checkGraphGeneration host rows g' mode := by
  change checkGraphGeneration host rows g.core mode = checkGraphGeneration host rows g'.core mode
  rw [h]

theorem streamGraphWithMode_core (h : g.core = g'.core) :
    streamGraphWithMode host rows g mode = streamGraphWithMode host rows g' mode := by
  change streamGraphWithMode host rows g.core mode = streamGraphWithMode host rows g'.core mode
  rw [h]

inductive Change (host : GraphHost) (s s' : GraphStore) (id : GraphDigest) : Prop
  /-- Its records stay, and it is published only after it was validated. -/
  | kept (g g' : GraphGeneration) (hg : s.generations.find? id = some g)
      (hg' : s'.generations.find? id = some g') (hcore : g'.core = g.core)
      (hpublished : g'.isPublished = true → g.isPublished = true ∨
        checkGraphGeneration host (s.rows.ofGeneration id) g .current = .ok ())
      (hrows : s'.rows.ofGeneration id = s.rows.ofGeneration id)
  /-- It is absent or deleted, its records with it. -/
  | gone (hs' : s'.generations.find? id = none)
      (hrows : (s.generations.find? id = none → s.rows.ofGeneration id = .empty) →
        s'.rows.ofGeneration id = .empty)

namespace Change

theorem refl (s : GraphStore) (id : GraphDigest) : Change host s s id := by
  cases hg : s.generations.find? id with
  | none => exact .gone hg fun h ↦ h hg
  | some g => exact .kept g g hg hg rfl .inl rfl

theorem trans (h : Change host s s' id) (h' : Change host s' s'' id) : Change host s s'' id := by
  cases h with
  | kept g g₁ hg hg₁ hcore hpublished hrows =>
    cases h' with
    | kept _ g₂ hg₁' hg₂ hcore' hpublished' hrows' =>
      obtain rfl := Option.some.inj (hg₁.symm.trans hg₁')
      refine .kept g g₂ hg hg₂ (hcore'.trans hcore) ?_ (hrows'.trans hrows)
      intro h₂
      obtain h₁ | hcheck := hpublished' h₂
      · exact hpublished h₁
      · rw [hrows, checkGraphGeneration_core hcore] at hcheck
        exact .inr hcheck
    | gone hs'' hrows' =>
      refine .gone hs'' fun _ ↦ hrows' fun hs' ↦ ?_
      rw [hg₁] at hs'
      cases hs'
  | gone hs' hrows =>
    cases h' with
    | kept _ _ hg₁ =>
      rw [hs'] at hg₁
      cases hg₁
    | gone hs'' hrows' => exact .gone hs'' fun h ↦ hrows' fun _ ↦ hrows h

theorem of_map {f : GraphGeneration → GraphGeneration}
    (hrows : s'.rows.ofGeneration id = s.rows.ofGeneration id)
    (hfind : s'.generations.find? id = (s.generations.find? id).map f)
    (hcore : ∀ g, (f g).core = g.core)
    (hpublished : ∀ g, s.generations.find? id = some g → (f g).isPublished = true →
      g.isPublished = true ∨
        checkGraphGeneration host (s.rows.ofGeneration id) g .current = .ok ()) :
    Change host s s' id := by
  cases hg : s.generations.find? id with
  | none =>
    rw [hg] at hfind
    exact .gone hfind fun h ↦ hrows.trans (h hg)
  | some g =>
    rw [hg] at hfind
    exact .kept g (f g) hg hfind (hcore g) (hpublished g hg) hrows

theorem of_eq (hrows : s'.rows.ofGeneration id = s.rows.ofGeneration id)
    (hfind : s'.generations.find? id = s.generations.find? id) : Change host s s' id :=
  .of_map hrows (hfind.trans Option.map_id'.symm) (fun _ ↦ rfl) fun _ _ ↦ .inl

theorem retire (hrows : s'.rows = s.rows)
    (hfind : s'.generations.find? id = (s.generations.find? id).map retire) : Change host s s' id :=
  .of_map (hrows ▸ rfl) hfind retire_core fun g _ h ↦
    .inl (g.retire_isPublished ▸ h)

variable {target : GraphDigest}

theorem switch (hrows : s'.rows = s.rows) (hg : validateGraphGenerationConn host s target = .ok g)
    (hfind : ∀ k, s'.generations.find? k = if k = target then some g'
      else (s.generations.find? k).map GraphGeneration.retire) (hcore : g'.core = g.core)
    (id : GraphDigest) : Change host s s' id := by
  obtain ⟨hg, hcheck⟩ := validateGraphGenerationConn_eq_ok.mp hg
  by_cases hid : id = target
  · subst hid
    exact .kept g g' hg ((hfind id).trans (if_pos rfl)) hcore (fun _ ↦ .inr hcheck) (hrows ▸ rfl)
  · exact retire hrows ((hfind id).trans (if_neg hid))

theorem switchActive {publishedAt : Time} (h : ActivePointer s)
    (hg : validateGraphGenerationConn host s target = .ok g)
    (hstatus : g.status = .staged ∨ g.status = .retired)
    (hs' : s.switchActive g s.active publishedAt = .ok s') (id : GraphDigest) :
    Change host s s' id := by
  have hne : g.status ≠ .active := by
    obtain hstatus | hstatus := hstatus <;> simp [hstatus]
  obtain ⟨hfind, -⟩ := validateGraphGenerationConn_eq_ok.mp hg
  obtain ⟨hrows, -, hfind⟩ := h.pointed.switchActive_find? hfind hne hs'
  exact .switch hrows hg hfind rfl id

theorem stage {c : GraphBundle} (hrows : s.rows.insertRecords c = .ok rows)
    (hid : c.generation.generationID ≠ id) : Change host s (s.staged c.generation rows) id :=
  .of_eq (insertRecords_keeps hid _ _ hrows)
    ((s.generations.find?_put c.generation.stagedRow id).trans (if_neg hid))

section

variable {migrations : List GraphMigration} {p : GraphGeneration → Bool}

theorem cleanupOne (target : GraphDigest) :
    Change host s (s.cleanupOne migrations p target) id := by
  unfold GraphStore.cleanupOne GraphStore.deleteGeneration
  split
  · exact .refl s id
  · split
    · have hfind := s.generations.find?_delete_key target id
      by_cases hid : id = target
      · subst hid
        refine .gone (hfind.trans (if_pos rfl)) fun _ ↦ ?_
        simp [ofGeneration, empty]
      · have hrows : ∀ {α : Type} (generation : α → GraphDigest) (l : List α),
            (l.filter (generation · ≠ target)).filter (generation · = id) =
              l.filter (generation · = id) := by
          intro α generation l
          rw [filter_filter]
          refine filter_congr fun a _ ↦ ?_
          by_cases ha : generation a = id <;> simp [ha, hid]
        refine .of_eq ?_ (hfind.trans (if_neg hid))
        simp only [ofGeneration, hrows]
    · exact .refl s id

theorem cleanup (candidates : List GraphDigest) :
    Change host s (candidates.foldl (fun s id ↦ s.cleanupOne migrations p id) s) id := by
  induction candidates generalizing s with
  | nil => exact .refl s id
  | cons target candidates ih => exact (cleanupOne target).trans ih

end

end Change

section Runs

variable {w w' : GraphWorkspace} {calls : List GraphCall} {call : GraphCall}

theorem GraphCall.eval_change (h : ActivePointer w.graph) (hw' : call.eval host driver w = .ok w')
    (id : GraphDigest) :
    Change host w.graph w'.graph id ∨ ∃ b c rows, call = .stage b ∧ b.validate host = .ok c ∧
      c.generation.generationID = id ∧ w.graph.generations.find? id = none ∧
      w.graph.rows.insertRecords c = .ok rows ∧ w'.graph = w.graph.staged c.generation rows := by
  cases call with
  | stage b =>
    obtain ⟨graph, hgraph, rfl⟩ := map_eq_ok.mp hw'
    obtain ⟨c, hc, ⟨rfl, -⟩ | ⟨hfresh, rows, hrows, rfl⟩⟩ := stage_cases hgraph
    · exact .inl (.refl _ id)
    · by_cases hid : c.generation.generationID = id
      · exact .inr ⟨b, c, rows, rfl, hc, hid, hid ▸ hfresh, hrows, rfl⟩
      · exact .inl (.stage hrows hid)
  | activateAt target expectedPrior publishedAt =>
    obtain ⟨graph, hgraph, rfl⟩ := map_eq_ok.mp hw'
    obtain rfl | ⟨g, hg, hstatus, hgraph⟩ := activateAt_cases hgraph
    · exact .inl (.refl _ id)
    · exact .inl (.switchActive h hg hstatus hgraph id)
  | activateTx target expectedPrior publishedAt =>
    obtain ⟨graph, hgraph, rfl⟩ := map_eq_ok.mp hw'
    obtain rfl | ⟨g, hg, hstatus, hgraph⟩ := h.activateTx_cases hgraph
    · exact .inl (.refl _ id)
    · exact .inl (.switchActive h hg hstatus hgraph id)
  | rollbackAt target expectedCurrent publishedAt =>
    obtain ⟨graph, hgraph, rfl⟩ := map_eq_ok.mp hw'
    obtain rfl | ⟨g, hg, hstatus, hgraph⟩ := rollbackAt_cases hgraph
    · exact .inl (.refl _ id)
    · obtain ⟨hfind, -⟩ := validateGraphGenerationConn_eq_ok.mp hg
      obtain ⟨hrows, -, hfind⟩ := h.switchBack_find? hfind hstatus hgraph
      exact .inl (.switch hrows hg hfind rfl id)
  | transition expected next =>
    obtain hgraph | hgraph := transition_cases hw'
    · exact .inl (hgraph ▸ .refl _ id)
    · obtain ⟨hrows, -, hfind⟩ := retireActive_find? hgraph
      exact .inl (.retire hrows (hfind id))
  | cleanup workspaceIdentity cutoff =>
    obtain ⟨-, hw'⟩ := guarded_eq_ok.mp hw'
    obtain ⟨-, hw'⟩ := guarded_eq_ok.mp hw'
    obtain rfl := pure_eq_ok.mp hw'
    exact .inl (.cleanup _)

def Tidy (s : GraphStore) : Prop :=
  ∀ id, s.generations.find? id = none → s.rows.ofGeneration id = .empty

theorem tidy_empty : Tidy .empty := fun _ _ ↦ rfl

theorem GraphCall.eval_tidy (h : ActivePointer w.graph) (ht : Tidy w.graph)
    (hw' : call.eval host driver w = .ok w') : Tidy w'.graph := by
  intro id hid
  obtain hchange | ⟨b, c, rows, -, -, rfl, -, -, hgraph⟩ := eval_change h hw' id
  · cases hchange with
    | kept _ _ _ hg' =>
      rw [hid] at hg'
      cases hg'
    | gone _ hrows => exact hrows (ht id)
  · have hfind := w.graph.find?_staged c.generation rows
    rw [hgraph] at hid
    exact absurd (hid.symm.trans hfind) (Option.some_ne_none _).symm

theorem GraphCall.runAll_tidy (h : ActivePointer w.graph) (ht : Tidy w.graph) :
    Tidy (runAll host driver w calls).graph := by
  induction calls generalizing w with
  | nil => exact ht
  | cons call calls ih =>
    change Tidy (runAll host driver (call.run host driver w).2 calls).graph
    unfold run
    split
    next w' hw' => exact ih (eval_activePointer h hw') (eval_tidy h ht hw')
    next => exact ih h ht

/-- The store holds a bundle: its row apart from what publication sets, and its records. -/
structure Recorded (host : GraphHost) (s : GraphStore) (c : GraphBundle) : Prop where
  row : ∃ g, s.generations.find? c.generation.generationID = some g ∧
    g.core = c.generation.stagedRow.core ∧ (g.isPublished = true →
      checkGraphGeneration host c.storedRows c.generation.stagedRow .current = .ok ())
  rows : s.rows.ofGeneration c.generation.generationID = c.storedRows

variable {c : GraphBundle}

theorem recorded_staged (hhost : host.Lawful) (ht : Tidy s) (hc : Checked host c)
    (hfresh : s.generations.find? c.generation.generationID = none) {rows : GraphRows}
    (hrows : s.rows.insertRecords c = .ok rows) : Recorded host (s.staged c.generation rows) c := by
  have hisolated := insertRecords_isolated (b := c) rfl (ht _ hfresh)
  rw [hrows] at hisolated
  obtain ⟨-, hstored⟩ := (hc.insertRecords_eq_ok hhost).mp hisolated
  exact ⟨⟨_, s.find?_staged c.generation rows, rfl, nofun⟩, hstored⟩

theorem Recorded.change (h : Recorded host s c)
    (hchange : Change host s s' c.generation.generationID)
    (hs' : s'.generations.find? c.generation.generationID ≠ none) : Recorded host s' c := by
  obtain ⟨g, hg, hcore, hcheck⟩ := h.row
  cases hchange with
  | kept g₁ g' hg₁ hg' hcore' hpublished hrows =>
    obtain rfl := Option.some.inj (hg.symm.trans hg₁)
    refine ⟨⟨g', hg', hcore'.trans hcore, fun h' ↦ ?_⟩, hrows.trans h.rows⟩
    obtain hg'' | hvalid := hpublished h'
    · exact hcheck hg''
    · rwa [h.rows, checkGraphGeneration_core hcore] at hvalid
  | gone hnone => exact absurd hnone hs'

theorem Recorded.runAll (hw : ActivePointer w.graph) (h : Recorded host w.graph c)
    (hthere : ∀ done, done <+: calls → (runAll host driver w done).graph.generations.find?
      c.generation.generationID ≠ none) :
    Recorded host (runAll host driver w calls).graph c := by
  induction calls generalizing w with
  | nil => exact h
  | cons call calls ih =>
    have hthere' : ∀ done, done <+: calls → (runAll host driver
        (call.run host driver w).2 done).graph.generations.find?
          c.generation.generationID ≠ none :=
      fun done ⟨rest, hrest⟩ ↦ hthere (call :: done) ⟨rest, congrArg (call :: ·) hrest⟩
    change Recorded host (runAll host driver (call.run host driver w).2 calls).graph c
    have hnow := hthere' [] ⟨calls, rfl⟩
    cases hw' : call.eval host driver w with
    | error e =>
      have hrun : (call.run host driver w).2 = w := by simp [run, hw']
      rw [hrun] at hthere' ⊢
      exact ih hw h hthere'
    | ok w' =>
      have hrun : (call.run host driver w).2 = w' := by simp [run, hw']
      rw [hrun] at hthere' hnow ⊢
      refine ih (eval_activePointer hw hw') ?_ hthere'
      obtain hchange | ⟨_, _, _, -, -, -, hfresh, -⟩ :=
        eval_change hw hw' c.generation.generationID
      · exact h.change hchange hnow
      · obtain ⟨g, hg, -⟩ := h.row
        rw [hfresh] at hg
        cases hg

/-- Every generation holds what one of the calls staged, and there are no other records. -/
def Accounted (host : GraphHost) (calls : List GraphCall) (s : GraphStore) : Prop :=
  Tidy s ∧ ∀ id, s.generations.find? id ≠ none → ∃ b c, .stage b ∈ calls ∧
    b.validate host = .ok c ∧ c.generation.generationID = id ∧ Recorded host s c

theorem Accounted.eval (hhost : host.Lawful) (hw : ActivePointer w.graph)
    (h : Accounted host calls w.graph) (hw' : call.eval host driver w = .ok w') :
    Accounted host (calls ++ [call]) w'.graph := by
  refine ⟨eval_tidy hw h.1 hw', ?_⟩
  intro id hid
  obtain hchange | ⟨b, c, rows, rfl, hc, rfl, hfresh, hrows, hgraph⟩ := eval_change hw hw' id
  · have hbefore : w.graph.generations.find? id ≠ none := by
      cases hchange with
      | kept g _ hg => exact hg ▸ Option.some_ne_none g
      | gone hnone => exact absurd hnone hid
    obtain ⟨b, c, hb, hc, rfl, hrecorded⟩ := h.2 id hbefore
    exact ⟨b, c, mem_append_left _ hb, hc, rfl, hrecorded.change hchange hid⟩
  · refine ⟨b, c, mem_append_right _ mem_cons_self, hc, rfl, ?_⟩
    rw [hgraph]
    exact recorded_staged hhost h.1 (GraphBundle.validate_sealed hc).1 hfresh hrows

theorem runAll_accounted (hhost : host.Lawful) (driver : GraphDriver)
    (migrations : List GraphMigration) (calls : List GraphCall) :
    Accounted host calls (GraphCall.runAll host driver (.empty migrations) calls).graph := by
  induction calls using reverseRecOn with
  | nil => exact ⟨tidy_empty, fun id hid ↦ absurd rfl hid⟩
  | append_singleton calls call ih =>
    have hrun : runAll host driver (.empty migrations) (calls ++ [call]) =
        (call.run host driver (runAll host driver (.empty migrations) calls)).2 := foldl_append
    rw [hrun, run]
    split
    next w' hw' => exact ih.eval hhost (runAll_activePointer activePointer_empty) hw'
    next =>
      refine ⟨ih.1, fun id hid ↦ ?_⟩
      obtain ⟨b, c, hb, hc⟩ := ih.2 id hid
      exact ⟨b, c, mem_append_left _ hb, hc⟩

end Runs

/-- Some call of the run created the generation by staging `b`, and it has been there since. -/
def CreatedBy (host : GraphHost) (driver : GraphDriver) (w : GraphWorkspace)
    (calls : List GraphCall) (b : GraphBundle) : Prop :=
  ∃ before after, calls = before ++ .stage b :: after ∧
    (GraphCall.runAll host driver w before).graph.generations.find?
      b.generation.generationID = none ∧
    ∀ done, done <+: after →
      (GraphCall.runAll host driver w (before ++ .stage b :: done)).graph.generations.find?
        b.generation.generationID ≠ none

structure SameContent (c₀ c : GraphBundle) : Prop where
  nodes : c₀.nodes = c.nodes
  edges : c₀.edges = c.edges
  evidence : c₀.evidence = c.evidence
  unresolved : c₀.unresolved = c.unresolved
  schema : c₀.generation.schemaVersion = c.generation.schemaVersion
  workspace : c₀.generation.workspaceIdentity = c.generation.workspaceIdentity
  source : c₀.generation.sourceFingerprint = c.generation.sourceFingerprint
  config : c₀.generation.configFingerprint = c.generation.configFingerprint
  backend : c₀.generation.backendManifestDigest = c.generation.backendManifestDigest

section Restaging

variable {b₀ b c₀ c : GraphBundle}

theorem CreatedBy.recorded {migrations : List GraphMigration} {calls : List GraphCall}
    (h : CreatedBy host driver (.empty migrations) calls b₀) (hhost : host.Lawful)
    (hc₀ : b₀.validate host = .ok c₀) :
    Recorded host (runAll host driver (.empty migrations) calls).graph c₀ := by
  obtain ⟨before, after, rfl, hfresh, hthere⟩ := h
  obtain ⟨hchecked, hgeneration, -⟩ := GraphBundle.validate_sealed hc₀
  have hpointer : ActivePointer
      (runAll host driver (.empty migrations) before).graph :=
    runAll_activePointer activePointer_empty
  have htidy : Tidy (runAll host driver (.empty migrations) before).graph :=
    runAll_tidy activePointer_empty tidy_empty
  have hrun : ∀ done, runAll host driver (.empty migrations)
      (before ++ .stage b₀ :: done) = runAll host driver
        (run host driver (runAll host driver (.empty migrations) before)
          (.stage b₀)).2 done := by
    intro done
    exact foldl_append
  simp only [hrun] at hthere ⊢
  generalize runAll host driver (.empty migrations) before = w at *
  have hnow := hthere [] ⟨after, rfl⟩
  cases hw' : (stage b₀).eval host driver w with
  | error e =>
    have hsame : ((stage b₀).run host driver w).2 = w := by simp [run, hw']
    rw [hsame] at hnow
    exact absurd hfresh hnow
  | ok w' =>
    have hrun' : ((stage b₀).run host driver w).2 = w' := by
      simp [run, hw']
    rw [hrun'] at hthere hnow ⊢
    rw [← hgeneration] at hthere hnow hfresh
    refine Recorded.runAll (eval_activePointer hpointer hw') ?_ hthere
    obtain ⟨graph, hgraph, rfl⟩ := map_eq_ok.mp hw'
    obtain ⟨c, hc, ⟨rfl, -⟩ | ⟨-, rows, hrows, rfl⟩⟩ := stage_cases hgraph
    · exact absurd hfresh hnow
    · obtain rfl := Except.ok.inj (hc₀.symm.trans hc)
      exact recorded_staged hhost htidy hchecked hfresh hrows

theorem SameContent.immutable (h : SameContent c₀ c) (hc₀ : b₀.validate host = .ok c₀)
    (hc : b.validate host = .ok c) :
    c₀.generation.generationID = c.generation.generationID ∧
      graphGenerationImmutableMetadataEqual c₀.generation.stagedRow c.generation =
        decide ("" = c.generation.errorCode) := by
  obtain ⟨hchecked₀, -, hcontent₀, hid₀⟩ := GraphBundle.validate_sealed hc₀
  obtain ⟨hchecked, -, hcontent, hid⟩ := GraphBundle.validate_sealed hc
  rw [h.nodes, h.edges, h.evidence, h.unresolved, hcontent, Except.ok.injEq] at hcontent₀
  have hgeneration : c₀.generation.generationID = c.generation.generationID := by
    rw [← hid₀, ← hid, ← hcontent₀]
    unfold derivedID
    rw [h.schema, h.workspace, h.source, h.config, h.backend]
  refine ⟨hgeneration, ?_⟩
  simp [graphGenerationImmutableMetadataEqual, stagedRow, hgeneration, h.schema, h.workspace,
    h.source, h.config, h.backend, hcontent₀, hchecked₀.nodeCount, hchecked₀.edgeCount,
    hchecked₀.evidenceCount, hchecked₀.unresolvedCount, hchecked.nodeCount, hchecked.edgeCount,
    hchecked.evidenceCount, hchecked.unresolvedCount, h.nodes, h.edges, h.evidence, h.unresolved]

variable {g g' : GraphGeneration}

theorem graphGenerationImmutableMetadataEqual_core {g₀ : GraphGeneration}
    (h : g.core = g₀.core) : graphGenerationImmutableMetadataEqual g g' =
      graphGenerationImmutableMetadataEqual g₀ g' := by
  change graphGenerationImmutableMetadataEqual g.core g' =
    graphGenerationImmutableMetadataEqual g₀.core g'
  rw [h]

theorem stageGraphGenerationConn_known (hstaged : b.generation.status = .staged)
    (hc : b.validate host = .ok c) (hg : s.generations.find? c.generation.generationID = some g) :
    stageGraphGenerationConn host s b = restageGeneration host s c.generation := by
  have hadmits : s.admitsGeneration c.generation = false := by
    simp [GraphStore.admitsGeneration, hg]
  unfold stageGraphGenerationConn
  simp [hstaged, hc, hadmits, bind, Except.bind]

theorem restaged_eq_ok {α : Type} {same : Bool} {check : Except GraphError α} :
    (do
      if !same then throw GraphError.generationCorrupt
      let _ ← orInvalid .generationCorrupt check
      return s) = .ok s' ↔ same = true ∧ (∃ a, check = .ok a) ∧ s' = s := by
  rw [guarded_eq_ok, bind_eq_ok]
  simp only [orInvalid, mapError_eq_ok, pure_eq_ok, Bool.not_eq_true', Bool.not_eq_false,
    exists_and_right, eq_comm (a := s)]

theorem restageGeneration_published
    (hg : s.generations.find? g.generationID = some g') (hstatus : g'.isPublished = true) :
    restageGeneration host s g = .ok s' ↔
      graphGenerationImmutableMetadataEqual g' g = true ∧
        checkGraphGeneration host (s.rows.ofGeneration g.generationID) g' .current = .ok () ∧
        s' = s := by
  have hchecked := @restaged_eq_ok s s' _ (graphGenerationImmutableMetadataEqual g' g)
    (validateGraphGenerationConn host s g.generationID)
  simp only [validateGraphGenerationConn_eq_ok, hg, Option.some.injEq, exists_eq_left'] at hchecked
  rw [← hchecked]
  unfold restageGeneration loadGeneration
  rw [hg]
  cases h : g'.status <;>
    simp [isPublished, h] at hstatus <;>
    simp [orElse, orInvalid, Except.mapError, bind, Except.bind, h]

theorem restageGeneration_staged
    (hg : s.generations.find? g.generationID = some g') (hstatus : g'.status = .staged) :
    restageGeneration host s g = .ok s' ↔ generationMetadataEqual g' g = true ∧
      (∃ d, streamGraphWithMode host (s.rows.ofGeneration g.generationID) g' .current = .ok d) ∧
      s' = s := by
  rw [← restaged_eq_ok]
  unfold restageGeneration loadGeneration
  rw [hg]
  simp [orElse, orInvalid, Except.mapError, bind, Except.bind, hstatus]

theorem restage_iff {migrations : List GraphMigration} {calls : List GraphCall}
    {g : GraphGeneration} (hhost : host.Lawful)
    (hcreated : CreatedBy host driver (.empty migrations) calls b₀)
    (hc₀ : b₀.validate host = .ok c₀) (hstaged : b.generation.status = .staged)
    (hc : b.validate host = .ok c) (hsame : SameContent c₀ c)
    (hg : (GraphCall.runAll host driver (.empty migrations) calls).graph.generations.find?
      b.generation.generationID = some g)
    (hstatus : g.status = .staged ∨ g.status = .active ∨ g.status = .retired) :
    (∃ s', stageGraphGenerationConn host
        (GraphCall.runAll host driver (.empty migrations) calls).graph b = .ok s' ∧
      s'.rows = (GraphCall.runAll host driver (.empty migrations) calls).graph.rows) ↔
      b.generation.errorCode = "" ∧ (g.status = .staged →
        b.generation.createdAt = g.createdAt ∧
          b.generation.previousGenerationID = g.previousGenerationID) := by
  have hrecorded := hcreated.recorded hhost hc₀
  generalize (GraphCall.runAll host driver (.empty migrations) calls).graph = s at *
  obtain ⟨hid, himmutable⟩ := hsame.immutable hc₀ hc
  obtain ⟨hchecked₀, -, hcontent₀, -⟩ := GraphBundle.validate_sealed hc₀
  obtain ⟨-, hgeneration, -⟩ := GraphBundle.validate_sealed hc
  obtain ⟨g', hg', hcore, hcheck⟩ := hrecorded.row
  have hrows := hrecorded.rows
  rw [← hgeneration] at hg hstaged ⊢
  rw [hid] at hg' hrows
  obtain rfl := Option.some.inj (hg'.symm.trans hg)
  rw [← graphGenerationImmutableMetadataEqual_core hcore] at himmutable
  rw [stageGraphGenerationConn_known (hgeneration ▸ hstaged) hc hg]
  by_cases hnew : g'.status = .staged
  · constructor
    · intro ⟨s', hs', _⟩
      obtain ⟨hmetadata, -⟩ := (restageGeneration_staged hg hnew).mp hs'
      simp only [generationMetadataEqual, himmutable, Bool.and_eq_true, decide_eq_true_eq]
        at hmetadata
      obtain ⟨⟨⟨herror, -⟩, hprevious⟩, hcreatedAt⟩ := hmetadata
      exact ⟨herror.symm, fun _ ↦ ⟨hcreatedAt.symm, hprevious.symm⟩⟩
    · intro ⟨herror, hretry⟩
      obtain ⟨hcreatedAt, hprevious⟩ := hretry hnew
      refine ⟨s, (restageGeneration_staged hg hnew).mpr
        ⟨?_, ⟨c₀.generation.contentDigest, ?_⟩, rfl⟩, rfl⟩
      · simp [generationMetadataEqual, himmutable, herror, hnew, hstaged, hcreatedAt, hprevious]
      · rw [hrows, streamGraphWithMode_core hcore, hchecked₀.stream_eq hhost]
        exact hcontent₀
  · have hpublished : g'.isPublished = true := by
      simpa [GraphGeneration.isPublished, hnew] using hstatus
    constructor
    · intro ⟨s', hs', _⟩
      obtain ⟨himmutable', -⟩ := (restageGeneration_published hg hpublished).mp hs'
      rw [himmutable, decide_eq_true_eq] at himmutable'
      exact ⟨himmutable'.symm, fun h ↦ absurd h hnew⟩
    · intro ⟨herror, _⟩
      refine ⟨s, (restageGeneration_published hg hpublished).mpr ⟨?_, ?_, rfl⟩, rfl⟩
      · rw [himmutable, herror]
        rfl
      · rw [hrows, checkGraphGeneration_core hcore]
        exact hcheck hpublished

end Restaging

section Sample

def sampleDriver : GraphDriver := ⟨fun _ ↦ "", fun ids ↦ ids⟩

def sampleCalls : List GraphCall := [.stage (sampleLinked 1), .stage (sampleBundle 1)]

def sampleFirst : GraphStore :=
  GraphStore.empty.staged (sampleLinked 1).generation (sampleLinked 1).storedRows

def sampleInterrupted : GraphStore :=
  sampleFirst.staged (sampleBundle 1).generation sampleFirst.rows

theorem sampleFirst_stage :
    stageGraphGenerationConn sampleHost .empty (sampleLinked 1) = .ok sampleFirst := by
  have hchecked := (GraphBundle.validate_sealed sampleLinked_validate).1
  have hinsert := (hchecked.insertRecords_eq_ok sampleHost_lawful).mpr
    ⟨sampleLinked_accepted.toFitsTables, rfl⟩
  exact (stageGraphGenerationConn_eq_ok rfl).mpr
    ⟨rfl, _, sampleLinked_validate, rfl, _, hinsert, rfl⟩

theorem sampleInterrupted_stage :
    stageGraphGenerationConn sampleHost sampleFirst (sampleBundle 1) = .ok sampleInterrupted := by
  have hfresh : sampleFirst.generations.find? (sampleSource 1) = none := by decide +kernel
  exact (stageGraphGenerationConn_eq_ok hfresh).mpr
    ⟨rfl, _, sampleBundle_validate 1, rfl, _, rfl, rfl⟩

theorem runAll_stage {w : GraphWorkspace} {b : GraphBundle} {s : GraphStore}
    (h : stageGraphGenerationConn host w.graph b = .ok s) (calls : List GraphCall) :
    runAll host driver w (.stage b :: calls) = runAll host driver { w with graph := s } calls := by
  simp [runAll, run, eval, onGraph, h, Except.map]

theorem sampleFirst_run : (runAll sampleHost sampleDriver (.empty [])
    [.stage (sampleLinked 1)]).graph = sampleFirst := by
  rw [runAll_stage (w := .empty []) sampleFirst_stage]
  rfl

theorem sampleInterrupted_run :
    (runAll sampleHost sampleDriver (.empty []) sampleCalls).graph = sampleInterrupted := by
  rw [sampleCalls, runAll_stage (w := .empty []) sampleFirst_stage,
    runAll_stage (w := { GraphWorkspace.empty [] with graph := sampleFirst })
      sampleInterrupted_stage]
  rfl

theorem sampleInterrupted_find? :
    sampleInterrupted.generations.find? (sampleLinked 1).generation.generationID =
      some (sampleLinked 1).generation.stagedRow := by
  have hne : (sampleBundle 1).generation.stagedRow.generationID ≠
    (sampleLinked 1).generation.generationID := by decide
  exact (Library.Table.find?_put _ _ _).trans ((if_neg hne).trans (GraphStore.find?_staged _ _ _))

theorem sampleInterrupted_created :
    CreatedBy sampleHost sampleDriver (.empty []) sampleCalls (sampleLinked 1) := by
  refine ⟨[], [.stage (sampleBundle 1)], rfl, rfl, ?_⟩
  intro done hdone
  rcases prefix_cons_iff.mp hdone with rfl | ⟨done, rfl, hnil⟩
  · have hfind : sampleFirst.generations.find? (sampleLinked 1).generation.generationID = _ :=
      GraphStore.find?_staged _ _ _
    rw [nil_append, sampleFirst_run, hfind]
    exact Option.some_ne_none _
  · have hrun := sampleInterrupted_run
    rw [sampleCalls] at hrun
    rw [prefix_nil.mp hnil, nil_append, hrun, sampleInterrupted_find?]
    exact Option.some_ne_none _

theorem sampleInterrupted_accounted : sampleInterrupted.rows.edges ≠ [] ∧
    Accounted sampleHost sampleCalls sampleInterrupted := by
  have h := runAll_accounted sampleHost_lawful sampleDriver [] sampleCalls
  rw [sampleInterrupted_run] at h
  exact ⟨cons_ne_nil _ _, h⟩

theorem restage_same_time :
    ∃ s', stageGraphGenerationConn sampleHost
        (runAll sampleHost sampleDriver (.empty []) sampleCalls).graph (sampleLinked 1) = .ok s' ∧
      s'.rows = (runAll sampleHost sampleDriver (.empty []) sampleCalls).graph.rows := by
  refine (restage_iff sampleHost_lawful sampleInterrupted_created sampleLinked_validate rfl
    sampleLinked_validate ⟨rfl, rfl, rfl, rfl, rfl, rfl, rfl, rfl, rfl⟩
    (sampleInterrupted_run ▸ sampleInterrupted_find?) (.inl rfl)).mpr ?_
  exact ⟨rfl, fun _ ↦ ⟨rfl, rfl⟩⟩

theorem restage_later_fails :
    CreatedBy sampleHost sampleDriver (.empty []) sampleCalls (sampleLinked 1) ∧
      (sampleLinked 2).validate sampleHost = .ok (sampleLinked 2) ∧
      SameContent (sampleLinked 1) (sampleLinked 2) ∧
      ¬∃ s', stageGraphGenerationConn sampleHost (runAll sampleHost sampleDriver (.empty [])
        sampleCalls).graph (sampleLinked 2) = .ok s' ∧
        s'.rows = (runAll sampleHost sampleDriver (.empty []) sampleCalls).graph.rows := by
  have hvalid : (sampleLinked 2).validate sampleHost = .ok (sampleLinked 2) :=
    toOption_eq_some.mp (by decide +kernel)
  refine ⟨sampleInterrupted_created, hvalid, ⟨rfl, rfl, rfl, rfl, rfl, rfl, rfl, rfl, rfl⟩, ?_⟩
  rw [sampleInterrupted_run]
  intro ⟨s', hs', _⟩
  have hfind : sampleInterrupted.generations.find? (sampleLinked 2).generation.generationID =
      some (sampleLinked 1).generation.stagedRow := sampleInterrupted_find?
  rw [stageGraphGenerationConn_known rfl hvalid hfind, restageGeneration_staged hfind rfl] at hs'
  have hmetadata : generationMetadataEqual (sampleLinked 1).generation.stagedRow
      (sampleLinked 2).generation = false := by
    simp [generationMetadataEqual, GraphGeneration.stagedRow, sampleLinked, sampleOf]
  rw [hmetadata] at hs'
  cases hs'.1

end Sample

end MiLsp.Graph
