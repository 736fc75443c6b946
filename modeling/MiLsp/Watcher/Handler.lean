import MiLsp.Incremental.Pass
import MiLsp.Watcher.Model

namespace MiLsp.Watcher

open Library Incremental Store List

def Ops.gone (op : Ops) : Bool := op.remove || op.rename

def Ops.present (op : Ops) : Bool := op.write || op.create || !op.gone

def watcherEventPaths (e : WatcherEvent) : List String × List String :=
  (if e.op.present then [e.path] else [], if e.op.gone then [e.path] else [])

variable (w : Incremental.World) (root : String)

def domain (e : WatcherEvent) : Option WatchDomain :=
  classifyWatchPath w.toLower w.cwd root e.path

variable (events : List WatcherEvent)

def domainChanged (d : WatchDomain) : List String :=
  (events.filter (domain w root · = some d)).flatMap fun e ↦ (watcherEventPaths e).1

def domainDeleted (d : WatchDomain) : List String :=
  (events.filter (domain w root · = some d)).flatMap fun e ↦ (watcherEventPaths e).2

def reindexWatchBatch : Except PassError (List IncrementalFileChange) :=
  let changed := domainChanged w root events
  let deleted := domainDeleted w root events
  if events.any (domain w root · = some .authorityConfig) then
    incrementalIndexWithPaths w root
      (changed .authorityConfig ++ changed .docs ++ changed .code)
      (deleted .authorityConfig ++ deleted .docs ++ deleted .code)
  else
    let allChanged := changed .docs ++ changed .code
    let allDeleted := deleted .docs ++ deleted .code
    if allChanged = [] ∧ allDeleted = [] then .ok []
    else incrementalIndexWithPaths w root allChanged allDeleted

/-- What a flush hears from the handler when nobody else holds the index lock. -/
def batchOutcome : Outcome :=
  match reindexWatchBatch w root events with
  | .ok _ => .succeeded
  | .error cause => .failed cause.message

variable {w root} {events : List WatcherEvent} {relPath path : String} {d : WatchDomain}

theorem mem_domainChanged :
    path ∈ domainChanged w root events d ↔
      ∃ e ∈ events, domain w root e = some d ∧ e.op.present ∧ e.path = path := by
  simp only [domainChanged, watcherEventPaths, mem_flatMap, mem_filter, decide_eq_true_eq,
    mem_ite_nil_right, mem_singleton, and_assoc, @eq_comm _ path]

theorem mem_domainDeleted :
    path ∈ domainDeleted w root events d ↔
      ∃ e ∈ events, domain w root e = some d ∧ e.op.gone ∧ e.path = path := by
  simp only [domainDeleted, watcherEventPaths, mem_flatMap, mem_filter, decide_eq_true_eq,
    mem_ite_nil_right, mem_singleton, and_assoc, @eq_comm _ path]

theorem Ops.present_or_gone (op : Ops) : op.present ∨ op.gone := by
  cases h : op.gone <;> simp [present, h]

def watchedChanged (w : Incremental.World) (root : String) (events : List WatcherEvent) :
    List String :=
  domainChanged w root events .authorityConfig ++ domainChanged w root events .docs ++
    domainChanged w root events .code

def watchedDeleted (w : Incremental.World) (root : String) (events : List WatcherEvent) :
    List String :=
  domainDeleted w root events .authorityConfig ++ domainDeleted w root events .docs ++
    domainDeleted w root events .code

theorem exists_domain {P : WatcherEvent → Prop} :
    ((∃ e ∈ events, domain w root e = some .authorityConfig ∧ P e) ∨
        ∃ e ∈ events, domain w root e = some .docs ∧ P e) ∨
      (∃ e ∈ events, domain w root e = some .code ∧ P e) ↔
      ∃ e ∈ events, (domain w root e).isSome ∧ P e := by
  constructor
  · rintro ((⟨e, he, hd, hp⟩ | ⟨e, he, hd, hp⟩) | ⟨e, he, hd, hp⟩) <;>
      exact ⟨e, he, by rw [hd]; rfl, hp⟩
  · rintro ⟨e, he, hd, hp⟩
    obtain ⟨d, hd⟩ := Option.isSome_iff_exists.mp hd
    cases d with
    | authorityConfig => exact .inl (.inl ⟨e, he, hd, hp⟩)
    | docs => exact .inl (.inr ⟨e, he, hd, hp⟩)
    | code => exact .inr ⟨e, he, hd, hp⟩

theorem mem_watchedChanged : path ∈ watchedChanged w root events ↔
    ∃ e ∈ events, (domain w root e).isSome ∧ e.op.present ∧ e.path = path := by
  rw [watchedChanged, mem_append, mem_append, mem_domainChanged, mem_domainChanged,
    mem_domainChanged, exists_domain]

theorem mem_watchedDeleted : path ∈ watchedDeleted w root events ↔
    ∃ e ∈ events, (domain w root e).isSome ∧ e.op.gone ∧ e.path = path := by
  rw [watchedDeleted, mem_append, mem_append, mem_domainDeleted, mem_domainDeleted,
    mem_domainDeleted, exists_domain]

theorem unwatched (h : watchedChanged w root events = [] ∧ watchedDeleted w root events = [])
    {e : WatcherEvent} (he : e ∈ events) : ¬(domain w root e).isSome := by
  intro hd
  rcases e.op.present_or_gone with hop | hop
  · exact ne_nil_of_mem (mem_watchedChanged.mpr ⟨e, he, hd, hop, rfl⟩) h.1
  · exact ne_nil_of_mem (mem_watchedDeleted.mpr ⟨e, he, hd, hop, rfl⟩) h.2

theorem reindexWatchBatch_eq : reindexWatchBatch w root events =
    if watchedChanged w root events = [] ∧ watchedDeleted w root events = [] then .ok []
    else incrementalIndexWithPaths w root (watchedChanged w root events)
      (watchedDeleted w root events) := by
  rw [reindexWatchBatch]
  by_cases hauthority : events.any (domain w root · = some .authorityConfig) = true
  · rw [if_pos hauthority, if_neg]
    · rfl
    · -- the authority file is among the paths
      obtain ⟨e, he, hd⟩ := any_eq_true.mp hauthority
      rw [decide_eq_true_eq] at hd
      exact fun hnone ↦ unwatched hnone he (by rw [hd]; rfl)
  · have hnone : events.filter (domain w root · = some .authorityConfig) = [] := by
      rw [filter_eq_nil_iff]
      exact fun e he hd ↦ hauthority (any_eq_true.mpr ⟨e, he, hd⟩)
    have hchanged : domainChanged w root events .authorityConfig = [] := by
      rw [domainChanged, hnone, flatMap_nil]
    have hdeleted : domainDeleted w root events .authorityConfig = [] := by
      rw [domainDeleted, hnone, flatMap_nil]
    rw [if_neg hauthority, watchedChanged, watchedDeleted, hchanged, hdeleted, nil_append,
      nil_append]

/-- The workspace path that a pass makes of an event, if it looks at the event at all. -/
def Names (w : Incremental.World) (root : String) (e : WatcherEvent) (relPath : String) : Prop :=
  (domain w root e).isSome ∧ incrementalPath? w.toLower w.cwd root e.path = some relPath

def batchPaths (w : Incremental.World) (root : String) (events : List WatcherEvent) :
    List String × List String :=
  (normalizeIncrementalPaths w.toLower w.cwd root (watchedChanged w root events),
    normalizeIncrementalPaths w.toLower w.cwd root (watchedDeleted w root events))

theorem mem_normalized {P : WatcherEvent → Prop} {paths : List String}
    (h : ∀ path, path ∈ paths ↔ ∃ e ∈ events, (domain w root e).isSome ∧ P e ∧ e.path = path) :
    relPath ∈ normalizeIncrementalPaths w.toLower w.cwd root paths ↔
      ∃ e ∈ events, P e ∧ Names w root e relPath := by
  rw [mem_normalizeIncrementalPaths]
  constructor
  · rintro ⟨path, hpath, hnames⟩
    obtain ⟨e, he, hd, hop, rfl⟩ := (h path).mp hpath
    exact ⟨e, he, hop, hd, hnames⟩
  · rintro ⟨e, he, hop, hd, hnames⟩
    exact ⟨e.path, (h _).mpr ⟨e, he, hd, hop, rfl⟩, hnames⟩

theorem mem_changed_iff : relPath ∈ (batchPaths w root events).1 ↔
    ∃ e ∈ events, e.op.present ∧ Names w root e relPath :=
  mem_normalized fun _ ↦ mem_watchedChanged

theorem mem_deleted_iff : relPath ∈ (batchPaths w root events).2 ↔
    ∃ e ∈ events, e.op.gone ∧ Names w root e relPath :=
  mem_normalized fun _ ↦ mem_watchedDeleted

theorem mem_batchPaths_iff :
    relPath ∈ (batchPaths w root events).1 ++ (batchPaths w root events).2 ↔
      ∃ e ∈ events, Names w root e relPath := by
  rw [mem_append, mem_changed_iff, mem_deleted_iff]
  constructor
  · rintro (⟨e, he, -, hnames⟩ | ⟨e, he, -, hnames⟩) <;> exact ⟨e, he, hnames⟩
  · rintro ⟨e, he, hnames⟩
    exact e.op.present_or_gone.imp (fun hop ↦ ⟨e, he, hop, hnames⟩)
      fun hop ↦ ⟨e, he, hop, hnames⟩

def batchChanges (w : Incremental.World) (root : String) (events : List WatcherEvent) : ChangeSet :=
  splitChanges w (batchPaths w root events).1 (batchPaths w root events).2

theorem hasDocChanges_batchChanges : (batchChanges w root events).hasDocChanges ↔
    ∃ e ∈ events, ∃ relPath, Names w root e relPath ∧ isDocPath w.toLower relPath := by
  rw [batchChanges, hasDocChanges_splitChanges]
  constructor
  · rintro ⟨relPath, hrel, -, hdoc⟩
    obtain ⟨e, he, hnames⟩ := mem_batchPaths_iff.mp hrel
    exact ⟨e, he, relPath, hnames, hdoc⟩
  · rintro ⟨e, he, relPath, hnames, hdoc⟩
    exact ⟨relPath, mem_batchPaths_iff.mpr ⟨e, he, hnames⟩,
      (incrementalPath?_kind w.toLower hnames.2).1, hdoc⟩

theorem hasCodeChanges_batchChanges : (batchChanges w root events).hasCodeChanges = false ↔
    ∀ e ∈ events, ∀ relPath, Names w root e relPath → isDocPath w.toLower relPath := by
  rw [← Bool.not_eq_true, batchChanges, hasCodeChanges_splitChanges]
  constructor
  · intro h e he relPath hnames
    by_contra hdoc
    exact h ⟨relPath, mem_batchPaths_iff.mpr ⟨e, he, hnames⟩,
      (incrementalPath?_kind w.toLower hnames.2).1, by simpa using hdoc⟩
  · rintro h ⟨relPath, hrel, -, hcode⟩
    obtain ⟨e, he, hnames⟩ := mem_batchPaths_iff.mp hrel
    simp [h e he relPath hnames] at hcode

theorem named_code_iff {P : WatcherEvent → Prop} {Q : Prop} :
    (∃ e ∈ events, P e ∧ Names w root e relPath) ∧
        isExcludedIncrementalPath w.toLower relPath = false ∧ Q ↔
      (∃ e ∈ events, P e ∧ Names w root e relPath) ∧ Q := by
  refine and_congr_right ?_
  rintro ⟨e, -, -, hnames⟩
  exact and_iff_right (incrementalPath?_kind w.toLower hnames.2).1

theorem mem_codeChanged_batchChanges :
    relPath ∈ (batchChanges w root events).codeChanged ↔
      (∃ e ∈ events, e.op.present ∧ Names w root e relPath) ∧
        isDocPath w.toLower relPath = false := by
  rw [batchChanges, mem_codeChanged, mem_changed_iff, named_code_iff]

theorem mem_codeDeleted_batchChanges :
    relPath ∈ (batchChanges w root events).codeDeleted ↔
      (∃ e ∈ events, e.op.gone ∧ Names w root e relPath) ∧
        isDocPath w.toLower relPath = false := by
  rw [batchChanges, mem_codeDeleted, mem_deleted_iff, named_code_iff]

theorem reindexWatchBatch_changes {changes : List IncrementalFileChange}
    (h : reindexWatchBatch w root events = .ok changes) :
    ∃ changed, (batchChanges w root events).codeChanged.mapM (changedFile w root) = .ok changed ∧
      changes = changed.filterMap id ++
        (batchChanges w root events).codeDeleted.filterMap (deletedFile w) := by
  rw [reindexWatchBatch_eq] at h
  split_ifs at h with hnone
  · cases h
    have hnothing : (batchChanges w root events).codeChanged = [] ∧
        (batchChanges w root events).codeDeleted = [] := by
      constructor <;> rw [eq_nil_iff_forall_not_mem] <;> intro relPath hrel
      · obtain ⟨⟨e, he, -, hnames⟩, -⟩ := mem_codeChanged_batchChanges.mp hrel
        exact unwatched hnone he hnames.1
      · obtain ⟨⟨e, he, -, hnames⟩, -⟩ := mem_codeDeleted_batchChanges.mp hrel
        exact unwatched hnone he hnames.1
    rw [hnothing.1, hnothing.2]
    exact ⟨[], rfl, rfl⟩
  · exact incrementalIndex_changes h

/-- No event names an authority file, every code file said to be there can be taken, no document
meets a graph to be repaired. -/
structure PoisonFree (w : Incremental.World) (root : String) (events : List WatcherEvent) :
    Prop where
  authority : ∀ e ∈ events, ∀ relPath, Names w root e relPath →
    isAuthorityConfigPath w.toLower relPath = false
  acceptable : ∀ e ∈ events, e.op.present → ∀ relPath, Names w root e relPath →
    isDocPath w.toLower relPath = false → Acceptable w root relPath
  documents : ∀ e ∈ events, ∀ relPath, Names w root e relPath → isDocPath w.toLower relPath →
    (∃ documents, w.reconcileDocs = .ok documents) ∧
      (w.explicitlyNonGraph ∨ w.graphStale = false ∧ ∀ e' ∈ events, ∀ relPath',
        Names w root e' relPath' → isDocPath w.toLower relPath')

theorem batchOutcome_eq_succeeded :
    batchOutcome w root events = .succeeded ↔
      ∃ changes, reindexWatchBatch w root events = .ok changes := by
  unfold batchOutcome
  cases reindexWatchBatch w root events <;> simp

theorem batchOutcome_succeeded_iff (hw : w.Healthy) :
    batchOutcome w root events = .succeeded ↔ PoisonFree w root events := by
  rw [batchOutcome_eq_succeeded, reindexWatchBatch_eq]
  split_ifs with hnone
  · refine iff_of_true ⟨[], rfl⟩ ⟨?_, ?_, ?_⟩
    · exact fun e he relPath hnames ↦ absurd hnames.1 (unwatched hnone he)
    · exact fun e he _ relPath hnames ↦ absurd hnames.1 (unwatched hnone he)
    · exact fun e he relPath hnames ↦ absurd hnames.1 (unwatched hnone he)
  refine (@exists_incrementalIndex_iff w root (batchPaths w root events).1
    (batchPaths w root events).2 hw).trans ?_
  rw [← batchChanges]
  constructor
  · rintro ⟨hauthority, hrepair, hacceptable, documents, hdocuments⟩
    refine ⟨fun e he relPath hnames ↦ hauthority relPath ?_,
      fun e he hop relPath hnames hcode ↦ ?_, fun e he relPath hnames hdoc ↦ ?_⟩
    · exact mem_batchPaths_iff.mpr ⟨e, he, hnames⟩
    · exact hacceptable relPath (mem_codeChanged_batchChanges.mpr ⟨⟨e, he, hop, hnames⟩, hcode⟩)
    · have hhas := hasDocChanges_batchChanges.mpr ⟨e, he, relPath, hnames, hdoc⟩
      rw [reconcile, if_pos hhas, Attempt.mapError_eq_ok] at hdocuments
      refine ⟨⟨documents, hdocuments⟩, ?_⟩
      simp only [repairBlocked, graphRepair, hhas, Bool.and_true, Bool.and_eq_false_iff,
        Bool.or_eq_false_iff, Bool.not_eq_false', hasCodeChanges_batchChanges] at hrepair
      exact hrepair.symm.imp_right And.symm
  · intro hfree
    refine ⟨fun relPath hrel ↦ ?_, ?_, fun relPath hrel ↦ ?_, ?_⟩
    · obtain ⟨e, he, hnames⟩ := mem_batchPaths_iff.mp hrel
      exact hfree.authority e he relPath hnames
    · by_cases hhas : (batchChanges w root events).hasDocChanges = true
      · obtain ⟨e, he, relPath, hnames, hdoc⟩ := hasDocChanges_batchChanges.mp hhas
        simp only [repairBlocked, graphRepair, hhas, Bool.and_true, Bool.and_eq_false_iff,
          Bool.or_eq_false_iff, Bool.not_eq_false', hasCodeChanges_batchChanges]
        exact (hfree.documents e he relPath hnames hdoc).2.symm.imp_left And.symm
      · simp [repairBlocked, hhas]
    · obtain ⟨⟨e, he, hop, hnames⟩, hcode⟩ := mem_codeChanged_batchChanges.mp hrel
      exact hfree.acceptable e he hop relPath hnames hcode
    · by_cases hhas : (batchChanges w root events).hasDocChanges = true
      · obtain ⟨e, he, relPath, hnames, hdoc⟩ := hasDocChanges_batchChanges.mp hhas
        obtain ⟨documents, hdocuments⟩ := (hfree.documents e he relPath hnames hdoc).1
        exact ⟨documents, by rw [reconcile, if_pos hhas, hdocuments]; rfl⟩
      · exact ⟨false, by rw [reconcile, if_neg hhas]⟩

def sampleWorld : Incremental.World :=
  { toLower := id
    cwd := "/"
    index := none
    detect := none
    project := none
    shouldIgnore := fun _ ↦ false
    readFile := fun path ↦ if path = "/ws/b.go" then .ok [] else .error "no such file"
    extractCatalog := fun _ _ ↦ []
    resolveRepo := fun _ ↦ ("", "")
    md5Hex := fun _ ↦ ""
    graphStale := false
    explicitlyNonGraph := false
    graph := .ok true
    reconcileDocs := .ok false
    publish := none }

def sampleSaved : WatcherEvent := ⟨"/ws/b.go", .onlyWrite, by decide⟩

theorem sampleWorld_healthy : sampleWorld.Healthy := ⟨rfl, rfl, rfl, ⟨true, rfl⟩, rfl⟩

end MiLsp.Watcher
