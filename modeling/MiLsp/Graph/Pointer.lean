import MiLsp.Library.Links
import MiLsp.Graph.History
import MiLsp.Graph.Operations

namespace MiLsp.Graph

open Library Attempt Option GraphGeneration GraphStore Bool

variable {host : GraphHost} {driver : GraphDriver} {s s' : GraphStore}

def GraphGeneration.isPublished (g : GraphGeneration) : Bool :=
  g.status = .active || g.status = .retired

def GraphStore.Links (s : GraphStore) (a b : GraphDigest) : Prop :=
  ∃ g, s.generations.find? a = some g ∧ g.isPublished = true ∧ g.previousGenerationID = some b

/-- The pointer names the active generation; predecessors of published ones neither go round nor
leave them. -/
structure ActivePointer (s : GraphStore) : Prop where
  pointer : ∀ id, s.active = some id ↔ ∃ g, s.generations.find? id = some g ∧ g.status = .active
  acyclic : Acyclic s.Links
  target : ∀ a b, s.Links a b → ∃ g, s.generations.find? b = some g ∧ g.isPublished = true

theorem activePointer_empty : ActivePointer .empty where
  pointer id := by simp [empty]
  acyclic a ha := by
    obtain ⟨_, -, _, hfind, -⟩ := Relation.TransGen.tail'_iff.mp ha
    cases hfind
  target a b hab := by
    obtain ⟨_, hfind, -⟩ := hab
    cases hfind

namespace GraphGeneration

variable (g : GraphGeneration)

@[simp]
theorem retire_previous : g.retire.previousGenerationID = g.previousGenerationID := by
  unfold retire
  split <;> rfl

@[simp]
theorem retire_isPublished : g.retire.isPublished = g.isPublished := by
  unfold retire isPublished
  split
  next h => simp [h]
  · rfl

end GraphGeneration

namespace ActivePointer

variable (h : ActivePointer s) {id : GraphDigest}

include h

theorem pointed : Pointed s := h.pointer

theorem repairedPointer_eq (expectedPrior : Option GraphDigest) :
    repairedPointer s expectedPrior = s.active := by
  unfold repairedPointer
  rw [if_neg]
  rintro ⟨hactive, hrows, -⟩
  rw [h.pointed.activeRows_eq, hactive] at hrows
  cases hrows

theorem of_links_le (hpointer : ∀ id, s'.active = some id ↔
      ∃ g, s'.generations.find? id = some g ∧ g.status = .active)
    (hlinks : ∀ a b, s'.Links a b → s.Links a b)
    (htarget : ∀ b g, (∃ a, s'.Links a b) → s.generations.find? b = some g → g.isPublished = true →
      ∃ g', s'.generations.find? b = some g' ∧ g'.isPublished = true) : ActivePointer s' where
  pointer := hpointer
  acyclic := h.acyclic.mono hlinks
  target a b hab := by
    obtain ⟨g, hfind, hg⟩ := h.target a b (hlinks a b hab)
    exact htarget b g ⟨a, hab⟩ hfind hg

omit h in
theorem stage_cases {b : GraphBundle} (hs' : stageGraphGenerationConn host s b = .ok s') :
    ∃ checked, b.validate host = .ok checked ∧
      (s' = s ∧ s.admitsGeneration checked.generation = false ∨
        s.generations.find? checked.generation.generationID = none ∧
        ∃ rows, s.rows.insertRecords checked = .ok rows ∧
          s' = s.staged checked.generation rows) := by
  obtain ⟨-, hs'⟩ := guarded_eq_ok.mp hs'
  obtain ⟨checked, hchecked, hs'⟩ := bind_eq_ok.mp hs'
  refine ⟨checked, hchecked, ?_⟩
  split at hs'
  next hadmits =>
    obtain ⟨rows, hrows, hs'⟩ := bind_eq_ok.mp hs'
    have hfresh : s.generations.find? checked.generation.generationID = none := by
      simp only [admitsGeneration, and_eq_true, isNone_iff_eq_none]
        at hadmits
      exact hadmits.1.1.1.1.1.1
    exact .inr ⟨hfresh, rows, hrows, (pure_eq_ok.mp hs').symm⟩
  next hadmits =>
    obtain ⟨existing, -, hs'⟩ := bind_eq_ok.mp hs'
    refine .inl ⟨?_, not_eq_true _ ▸ hadmits⟩
    split at hs' <;>
    · obtain ⟨-, hs'⟩ := guarded_eq_ok.mp hs'
      obtain ⟨_, -, hs'⟩ := bind_eq_ok.mp hs'
      exact (pure_eq_ok.mp hs').symm

theorem stage {b : GraphBundle} (hs' : stageGraphGenerationConn host s b = .ok s') :
    ActivePointer s' := by
  obtain ⟨checked, -, ⟨rfl, -⟩ | ⟨hfresh, rows, -, rfl⟩⟩ := stage_cases hs'
  · exact h
  · have hfind : ∀ k, (s.staged checked.generation rows).generations.find? k =
        if checked.generation.generationID = k then some checked.generation.stagedRow
        else s.generations.find? k := s.generations.find?_put checked.generation.stagedRow
    refine h.of_links_le ?_ ?_ ?_
    · intro id
      rw [hfind]
      refine (h.pointer id).trans ?_
      split
      next hid =>
        subst hid
        simp [hfresh, stagedRow]
      · rfl
    · rintro a b' ⟨g, hg, hpublished, hprevious⟩
      rw [hfind] at hg
      split at hg
      · rw [← some.inj hg] at hpublished
        cases hpublished
      · exact ⟨g, hg, hpublished, hprevious⟩
    · intro b' g _ hg hpublished
      refine ⟨g, ?_, hpublished⟩
      rw [hfind, if_neg, hg]
      intro heq
      rw [← heq, hfresh] at hg
      cases hg

/-- The pointer moves to a generation that keeps its predecessor, loses it or, when new, gets the
active one. -/
theorem switch {g g' : GraphGeneration} (hg : s.generations.find? id = some g)
    (hstatus : g'.status = .active) (hactive : s'.active = some id)
    (hfind : ∀ k, s'.generations.find? k =
      if k = id then some g' else (s.generations.find? k).map retire)
    (hlink : g'.previousGenerationID = none ∨
      g.isPublished = true ∧ g'.previousGenerationID = g.previousGenerationID ∨
      g.isPublished = false ∧ g'.previousGenerationID = s.active) : ActivePointer s' := by
  have hother : ∀ a b, a ≠ id → s'.Links a b → s.Links a b := by
    rintro a b ha ⟨row, hrow, hpublished, hprevious⟩
    rw [hfind, if_neg ha] at hrow
    obtain ⟨before, hbefore, rfl⟩ := map_eq_some_iff.mp hrow
    rw [retire_isPublished] at hpublished
    rw [retire_previous] at hprevious
    exact ⟨before, hbefore, hpublished, hprevious⟩
  have hself : ∀ b, s'.Links id b → g'.previousGenerationID = some b := by
    rintro b ⟨row, hrow, -, hprevious⟩
    rw [hfind, if_pos rfl] at hrow
    exact some.inj hrow ▸ hprevious
  have hpublished : ∀ b row, s.generations.find? b = some row → row.isPublished = true →
      ∃ row', s'.generations.find? b = some row' ∧ row'.isPublished = true := by
    intro b row hrow hrow'
    rw [hfind]
    split
    · exact ⟨g', rfl, by simp [isPublished, hstatus]⟩
    · exact ⟨row.retire, by rw [hrow, map_some], by simpa using hrow'⟩
  have hpointer : ∀ k, s'.active = some k ↔
      ∃ row, s'.generations.find? k = some row ∧ row.status = .active := by
    intro k
    rw [hactive, some.injEq, hfind]
    split
    next hk => simp [hk, hstatus]
    next hk =>
      refine ⟨fun heq ↦ absurd heq.symm hk, ?_⟩
      rintro ⟨row, hrow, hrow'⟩
      obtain ⟨before, -, rfl⟩ := map_eq_some_iff.mp hrow
      exact absurd hrow' before.retire_status_ne
  obtain hlink | ⟨hg', hlink⟩ | ⟨hg', hlink⟩ := hlink
  · refine h.of_links_le hpointer ?_ fun b row _ ↦ hpublished b row
    intro a b hab
    by_cases ha : a = id
    · subst ha
      have hprevious := hself b hab
      rw [hlink] at hprevious
      cases hprevious
    · exact hother a b ha hab
  · refine h.of_links_le hpointer ?_ fun b row _ ↦ hpublished b row
    intro a b hab
    by_cases ha : a = id
    · subst ha
      exact ⟨g, hg, hg', hlink ▸ hself b hab⟩
    · exact hother a b ha hab
  · have hunpublished : ∀ x, ¬s.Links x id := by
      intro x hx
      obtain ⟨row, hrow, hrow'⟩ := h.target x id hx
      obtain rfl := some.inj (hg.symm.trans hrow)
      rw [hg'] at hrow'
      cases hrow'
    have hsource : ∀ x, ¬s'.Links x id := by
      intro x hx
      by_cases hxid : x = id
      · subst hxid
        obtain ⟨row, hrow, hrow'⟩ := (h.pointer x).mp (hlink ▸ hself x hx)
        obtain rfl := some.inj (hg.symm.trans hrow)
        simp [isPublished, hrow'] at hg'
      · exact hunpublished x (hother x id hxid hx)
    refine ⟨hpointer, h.acyclic.add_source (fun x y hxy hx ↦ hother x y hx hxy) hsource, ?_⟩
    · intro a b hab
      by_cases ha : a = id
      · subst ha
        obtain ⟨row, hrow, hrow'⟩ := (h.pointer b).mp (hlink ▸ hself b hab)
        exact hpublished b row hrow (by simp [isPublished, hrow'])
      · obtain ⟨row, hrow, hrow'⟩ := h.target a b (hother a b ha hab)
        exact hpublished b row hrow hrow'

variable {expectedPrior : Option GraphDigest} {publishedAt : Time}

section

variable {id : GraphDigest} {g : GraphGeneration} (hg : s.generations.find? id = some g)
include hg

theorem switchActive (hstatus : g.status = .staged ∨ g.status = .retired)
    (hs' : s.switchActive g s.active publishedAt = .ok s') : ActivePointer s' := by
  have hne : g.status ≠ .active := by
    obtain hstatus | hstatus := hstatus <;> simp [hstatus]
  obtain ⟨-, hactive, hfind⟩ := h.pointed.switchActive_find? hg hne hs'
  refine h.switch hg rfl hactive hfind (.inr ?_)
  obtain hstatus | hstatus := hstatus
  · exact .inr ⟨by simp [isPublished, hstatus],
      by simp [activated, hstatus]⟩
  · exact .inl ⟨by simp [isPublished, hstatus],
      by simp [activated, hstatus]⟩

theorem switchBack_find? (hstatus : g.status = .retired)
    (hs' : s.switchBack g publishedAt = .ok s') :
    s'.rows = s.rows ∧ s'.active = some id ∧ ∀ k, s'.generations.find? k =
      if k = id then some (g.restored publishedAt)
      else (s.generations.find? k).map retire := by
  obtain rfl := Table.key_of_find? hg
  obtain ⟨t, ht, hs'⟩ := bind_eq_ok.mp hs'
  obtain ⟨-, hs'⟩ := guarded_eq_ok.mp hs'
  obtain ⟨t', ht', hs'⟩ := bind_eq_ok.mp hs'
  obtain ⟨-, hs'⟩ := guarded_eq_ok.mp hs'
  obtain rfl := pure_eq_ok.mp hs'
  rw [orElse_eq_ok, ← hstatus] at ht'
  have hne : g.status ≠ .active := by simp [hstatus]
  exact ⟨rfl, rfl, h.pointed.switch_find? hg hne (orElse_eq_ok.mp ht) ht'⟩

end

omit h in
theorem activateAt_cases {id : GraphDigest}
    (hs' : activateGraphGenerationAt host s id expectedPrior publishedAt = .ok s') :
    s' = s ∨ ∃ g, validateGraphGenerationConn host s id = .ok g ∧
      (g.status = .staged ∨ g.status = .retired) ∧
      s.switchActive g s.active publishedAt = .ok s' := by
  obtain ⟨-, hs'⟩ := guarded_eq_ok.mp hs'
  obtain ⟨g, hg, hs'⟩ := bind_eq_ok.mp hs'
  obtain ⟨-, hs'⟩ := guarded_eq_ok.mp hs'
  obtain ⟨-, hs'⟩ := seq_eq_ok.mp hs'
  cases hstatus : g.status with
  | active =>
    rw [hstatus] at hs'
    obtain ⟨-, hs'⟩ := guarded_eq_ok.mp hs'
    obtain ⟨-, hs'⟩ := seq_eq_ok.mp hs'
    exact .inl (pure_eq_ok.mp hs').symm
  | invalid =>
    rw [hstatus] at hs'
    cases hs'
  | staged =>
    rw [hstatus] at hs'
    exact .inr ⟨g, hg, .inl hstatus, (seq_eq_ok.mp hs').2⟩
  | retired =>
    rw [hstatus] at hs'
    exact .inr ⟨g, hg, .inr hstatus, (seq_eq_ok.mp hs').2⟩

theorem activateTx_cases
    (hs' : activateGraphGenerationTx host s id expectedPrior publishedAt = .ok s') :
    s' = s ∨ ∃ g, validateGraphGenerationConn host s id = .ok g ∧
      (g.status = .staged ∨ g.status = .retired) ∧
      s.switchActive g s.active publishedAt = .ok s' := by
  obtain ⟨-, hs'⟩ := guarded_eq_ok.mp hs'
  obtain ⟨g, hg, hs'⟩ := bind_eq_ok.mp hs'
  rw [h.repairedPointer_eq] at hs'
  split at hs'
  · obtain ⟨-, hs'⟩ := seq_eq_ok.mp hs'
    obtain ⟨-, hs'⟩ := seq_eq_ok.mp hs'
    exact .inl (pure_eq_ok.mp hs').symm
  · obtain ⟨-, hs'⟩ := guarded_eq_ok.mp hs'
    obtain ⟨-, hs'⟩ := seq_eq_ok.mp hs'
    obtain ⟨hstatus, hs'⟩ := guarded_eq_ok.mp hs'
    refine .inr ⟨g, hg, ?_, (seq_eq_ok.mp hs').2⟩
    cases hstatus' : g.status <;> simp_all

omit h in
theorem rollbackAt_cases {id : GraphDigest} {expectedCurrent : Option GraphDigest}
    (hs' : rollbackGraphGenerationAt host s id expectedCurrent publishedAt = .ok s') :
    s' = s ∨ ∃ g, validateGraphGenerationConn host s id = .ok g ∧ g.status = .retired ∧
      s.switchBack g publishedAt = .ok s' := by
  obtain ⟨-, hs'⟩ := guarded_eq_ok.mp hs'
  obtain ⟨g, hg, hs'⟩ := bind_eq_ok.mp hs'
  obtain ⟨hpublished, hs'⟩ := guarded_eq_ok.mp hs'
  split at hs'
  · cases hs'
  · split at hs'
    · obtain ⟨current, -, hs'⟩ := bind_eq_ok.mp hs'
      obtain ⟨-, hs'⟩ := guarded_eq_ok.mp hs'
      obtain ⟨hne, hs'⟩ := guarded_eq_ok.mp hs'
      obtain ⟨-, hs'⟩ := guarded_eq_ok.mp hs'
      refine .inr ⟨g, hg, ?_, hs'⟩
      cases hstatus : g.status <;> simp_all
    · split at hs'
      · exact .inl (pure_eq_ok.mp hs').symm
      · cases hs'

theorem activateAt (hs' : activateGraphGenerationAt host s id expectedPrior publishedAt = .ok s') :
    ActivePointer s' := by
  obtain rfl | ⟨g, hg, hstatus, hs'⟩ := activateAt_cases hs'
  · exact h
  · exact h.switchActive (validateGraphGenerationConn_eq_ok.mp hg).1 hstatus hs'

theorem activateTx (hs' : activateGraphGenerationTx host s id expectedPrior publishedAt = .ok s') :
    ActivePointer s' := by
  obtain rfl | ⟨g, hg, hstatus, hs'⟩ := h.activateTx_cases hs'
  · exact h
  · exact h.switchActive (validateGraphGenerationConn_eq_ok.mp hg).1 hstatus hs'

theorem rollbackAt {expectedCurrent : Option GraphDigest}
    (hs' : rollbackGraphGenerationAt host s id expectedCurrent publishedAt = .ok s') :
    ActivePointer s' := by
  obtain rfl | ⟨g, hg, hstatus, hs'⟩ := rollbackAt_cases hs'
  · exact h
  · obtain ⟨hg, -⟩ := validateGraphGenerationConn_eq_ok.mp hg
    obtain ⟨-, hactive, hfind⟩ := h.switchBack_find? hg hstatus hs'
    exact h.switch hg rfl hactive hfind (.inl rfl)

omit h in
theorem retireActive_find? (hs' : s.retireActive = .ok s') :
    s'.rows = s.rows ∧ s'.active = none ∧ ∀ k, s'.generations.find? k =
      (s.generations.find? k).map retire := by
  obtain ⟨-, hs'⟩ := guarded_eq_ok.mp hs'
  obtain rfl := pure_eq_ok.mp hs'
  refine ⟨rfl, rfl, fun k ↦ ?_⟩
  rw [Table.find?_update]
  refine map_congr fun row _ ↦ ?_
  simp only [retire, decide_eq_true_eq]

theorem retireActive (hs' : s.retireActive = .ok s') : ActivePointer s' := by
  obtain ⟨-, hactive, hfind⟩ := retireActive_find? hs'
  refine h.of_links_le ?_ ?_ ?_
  · intro id
    rw [hfind, hactive]
    refine ⟨(nomatch ·), ?_⟩
    intro ⟨row, hrow, hstatus⟩
    obtain ⟨before, -, rfl⟩ := map_eq_some_iff.mp hrow
    exact absurd hstatus before.retire_status_ne
  · intro a b ⟨row, hrow, hpublished, hprevious⟩
    rw [hfind] at hrow
    obtain ⟨before, hbefore, rfl⟩ := map_eq_some_iff.mp hrow
    exact ⟨before, hbefore, by simpa using hpublished, by simpa using hprevious⟩
  · intro b row _ hrow hpublished
    exact ⟨row.retire, by rw [hfind, hrow, map_some], by simpa using hpublished⟩

section

variable {migrations : List GraphMigration} {p : GraphGeneration → Bool}
  (hp : ∀ row, p row = true → row.status ≠ .active)
include hp

theorem cleanupOne (id : GraphDigest) : ActivePointer (s.cleanupOne migrations p id) := by
  unfold GraphStore.cleanupOne GraphStore.deleteGeneration
  split
  · exact h
  next hneeds =>
    split
    next hid =>
      have hfind : ∀ k, (s.generations.delete fun row ↦ row.generationID = id).find? k =
          if k = id then none else s.generations.find? k := s.generations.find?_delete_key id
      refine h.of_links_le ?_ ?_ ?_
      · intro k
        rw [hfind]
        refine (h.pointer k).trans ?_
        split
        next hk =>
          subst hk
          obtain ⟨g, hg, hpg⟩ := (any_eq_true _ _).mp hid
          simp [hg, hp g hpg]
        · rfl
      · rintro a b ⟨row, hrow, hpublished, hprevious⟩
        rw [hfind] at hrow
        split at hrow
        · cases hrow
        · exact ⟨row, hrow, hpublished, hprevious⟩
      · rintro b row ⟨a, row', hrow', -, hprevious⟩ hrow hpublished
        refine ⟨row, ?_, hpublished⟩
        rw [hfind, if_neg, hrow]
        rintro rfl
        rw [hfind] at hrow'
        split at hrow'
        · cases hrow'
        · refine hneeds ?_
          simp only [GraphStore.needs, or_eq_true, List.any_eq_true, decide_eq_true_eq]
          exact .inl (.inr ⟨row', Table.mem_of_find? hrow', hprevious⟩)
    · exact h

theorem cleanup (candidates : List GraphDigest) :
    ActivePointer (candidates.foldl (fun s id ↦ s.cleanupOne migrations p id) s) := by
  induction candidates generalizing s with
  | nil => exact h
  | cons id candidates ih => exact ih (h.cleanupOne hp id)

end

end ActivePointer

theorem GraphGeneration.eligible_status {workspaceIdentity : String} {cutoff : Time}
    {row : GraphGeneration} (h : row.eligible driver workspaceIdentity cutoff = true) :
    row.status ≠ .active := by
  simp only [eligible, and_eq_true, or_eq_true, decide_eq_true_eq] at h
  obtain ⟨⟨-, hstatus | hstatus⟩, -⟩ := h <;> simp [hstatus]

theorem transition_cases {w w' : GraphWorkspace} {expected next : String}
    (hw' : transitionGraphCompatibilityState w expected next = .ok w') :
    w'.graph = w.graph ∨ w.graph.retireActive = .ok w'.graph := by
  unfold transitionGraphCompatibilityState at hw'
  split at hw'
  next expected' _ =>
    split at hw'
    next next' _ =>
      obtain ⟨-, hw'⟩ := guarded_eq_ok.mp hw'
      obtain ⟨-, hw'⟩ := guarded_eq_ok.mp hw'
      obtain ⟨-, hw'⟩ := guarded_eq_ok.mp hw'
      obtain ⟨graph, hgraph, hw'⟩ := bind_eq_ok.mp hw'
      obtain rfl := pure_eq_ok.mp hw'
      unfold enter at hgraph
      split at hgraph
      · exact .inr hgraph
      · exact .inl (Except.ok.inj hgraph).symm
    · cases hw'
  · cases hw'

namespace GraphCall

variable {w w' : GraphWorkspace}

theorem eval_activePointer {call : GraphCall} (h : ActivePointer w.graph)
    (hw' : call.eval host driver w = .ok w') : ActivePointer w'.graph := by
  cases call with
  | stage b =>
    obtain ⟨graph, hgraph, rfl⟩ := map_eq_ok.mp hw'
    exact h.stage hgraph
  | activateAt id expectedPrior publishedAt =>
    obtain ⟨graph, hgraph, rfl⟩ := map_eq_ok.mp hw'
    exact h.activateAt hgraph
  | activateTx id expectedPrior publishedAt =>
    obtain ⟨graph, hgraph, rfl⟩ := map_eq_ok.mp hw'
    exact h.activateTx hgraph
  | rollbackAt id expectedCurrent publishedAt =>
    obtain ⟨graph, hgraph, rfl⟩ := map_eq_ok.mp hw'
    exact h.rollbackAt hgraph
  | transition expected next =>
    obtain hgraph | hgraph := transition_cases hw'
    · exact hgraph ▸ h
    · exact h.retireActive hgraph
  | cleanup workspaceIdentity cutoff =>
    obtain ⟨-, hw'⟩ := guarded_eq_ok.mp hw'
    obtain ⟨-, hw'⟩ := guarded_eq_ok.mp hw'
    obtain rfl := pure_eq_ok.mp hw'
    exact h.cleanup (fun _ ↦ eligible_status) _

theorem runAll_activePointer {calls : List GraphCall} (h : ActivePointer w.graph) :
    ActivePointer (runAll host driver w calls).graph := by
  induction calls generalizing w with
  | nil => exact h
  | cons call calls ih =>
    refine ih ?_
    dsimp only [run]
    split
    next w' hw' => exact eval_activePointer h hw'
    next => exact h

end GraphCall

/-- After any calls at most one generation is active, the pointer names it, predecessor links
neither go round nor dangle, and a failed call changes nothing. -/
theorem active_pointer_of_calls (host : GraphHost) (driver : GraphDriver)
    (migrations : List GraphMigration) (calls : List GraphCall) :
    let w := GraphCall.runAll host driver (.empty migrations) calls
    w.graph.activeRows ≤ 1 ∧ ActivePointer w.graph ∧
      ∀ (call : GraphCall) (e : GraphError), (call.run host driver w).1 = some e →
        (call.run host driver w).2 = w := by
  have h : ActivePointer (GraphCall.runAll host driver (.empty migrations) calls).graph :=
    GraphCall.runAll_activePointer activePointer_empty
  have hrows := h.pointed.activeRows_eq
  refine ⟨by split at hrows <;> omega, h, ?_⟩
  intro call e he
  unfold GraphCall.run at he ⊢
  split
  next hw' => simp [hw'] at he
  next => rfl

end MiLsp.Graph
