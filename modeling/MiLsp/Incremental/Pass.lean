import MiLsp.Incremental.Paths
import MiLsp.Store.Catalog

namespace MiLsp.Incremental

open Library Strings Attempt Store List

/-- What a pass finds outside its lists. The disk does not change during the pass. -/
structure World where
  toLower : String → String
  cwd : String
  /-- There is no index, or its documents have to be indexed from scratch. -/
  index : Option String
  detect : Option String
  /-- The project, its ignore rules or the state of the graph cannot be loaded. -/
  project : Option String
  shouldIgnore : String → Bool
  readFile : String → Except String Bytes
  extractCatalog : String → Bytes → List SymbolRecord
  resolveRepo : String → String × String
  md5Hex : Bytes → String
  graphStale : Bool
  explicitlyNonGraph : Bool
  /-- Whether observing the graph leads to one that can be published. -/
  graph : Except String Bool
  /-- Whether some document is to be replaced or deleted. -/
  reconcileDocs : Except String Bool
  publish : Option String

structure World.Healthy (w : World) : Prop where
  index : w.index = none
  detect : w.detect = none
  project : w.project = none
  graph : ∃ published, w.graph = .ok published
  publish : w.publish = none

inductive PassError
  | index (cause : String)
  | authority
  | detect (cause : String)
  | project (cause : String)
  | graph (cause : String)
  | graphRepairIncomplete
  | ignored (relPath : String)
  | readFailed (relPath cause : String)
  | reconcile (cause : String)
  | publish (cause : String)
deriving DecidableEq

def PassError.message : PassError → String
  | index cause => cause
  | authority => "governance/read-model/config changed; fallback to full index"
  | detect cause => "detect workspace: " ++ cause
  | project cause => cause
  | graph cause => cause
  | graphRepairIncomplete =>
    "graph observation graph_repair_incomplete graph_generation: document changes require a full "
      ++ "index pass before graph freshness can be restored"
  | ignored relPath => "code path ignored for " ++ relPath
  | readFailed relPath cause => "code read failed for " ++ relPath ++ ": " ++ cause
  | reconcile cause => "reconcile docs: " ++ cause
  | publish cause => cause

def report (error : String → PassError) : Option String → Except PassError Unit
  | none => .ok ()
  | some cause => .error (error cause)

@[simp]
theorem report_eq_ok {error : String → PassError} {cause : Option String} {u : Unit} :
    report error cause = .ok u ↔ cause = none := by
  cases cause <;> simp [report]

structure ChangeSet where
  docChanged : List String
  docDeleted : List String
  codeChanged : List String
  codeDeleted : List String

namespace ChangeSet

def hasDocChanges (set : ChangeSet) : Bool := set.docChanged ≠ [] || set.docDeleted ≠ []

def hasCodeChanges (set : ChangeSet) : Bool := set.codeChanged ≠ [] || set.codeDeleted ≠ []

end ChangeSet

variable (w : World) (root : String) (changed deleted : List String)

def splitChanges : ChangeSet :=
  let changed := changed.filter fun path ↦ !isExcludedIncrementalPath w.toLower path
  let deleted := deleted.filter fun path ↦ !isExcludedIncrementalPath w.toLower path
  { docChanged := changed.filter (isDocPath w.toLower)
    docDeleted := deleted.filter (isDocPath w.toLower)
    codeChanged := changed.filter fun path ↦ !isDocPath w.toLower path
    codeDeleted := deleted.filter fun path ↦ !isDocPath w.toLower path }

variable (relPath : String)

def extractFileSymbols (content : Bytes) : List SymbolRecord :=
  (w.extractCatalog relPath content).map fun x ↦ { x with filePath := relPath }

def changedFile : Except PassError (Option IncrementalFileChange) :=
  let absPath := joinPath root relPath
  if w.shouldIgnore absPath then .error (.ignored relPath)
  else match languageFromExt w.toLower relPath with
    | none => .ok none
    | some language =>
      match w.readFile absPath with
      | .error cause => .error (.readFailed relPath cause)
      | .ok content => .ok (some
        { filePath := relPath
          repoID := (w.resolveRepo relPath).1
          repoName := (w.resolveRepo relPath).2
          language
          contentHash := w.md5Hex content
          symbols := extractFileSymbols w relPath content
          deleted := false })

def deletedFile : Option IncrementalFileChange :=
  (languageFromExt w.toLower relPath).map fun _ ↦ ⟨relPath, "", "", "", "", [], true⟩

variable (set : ChangeSet)

def graphRepair : Bool := set.hasCodeChanges || w.graphStale

def observeGraph : Except PassError Bool :=
  if graphRepair w set && !set.hasDocChanges then w.graph.mapError .graph else .ok false

/-- A graph that has to be repaired cannot be when documents change as well. -/
def repairBlocked : Bool :=
  graphRepair w set && set.hasDocChanges && !w.explicitlyNonGraph

def reconcile (set : ChangeSet) : Except PassError Bool :=
  if set.hasDocChanges then w.reconcileDocs.mapError .reconcile else .ok false

def publishChanges : Except PassError (List IncrementalFileChange) := do
  report .project w.project
  let graph ← observeGraph w set
  if repairBlocked w set then throw .graphRepairIncomplete
  let changed ← set.codeChanged.mapM (changedFile w root)
  let fileChanges := changed.filterMap id ++ set.codeDeleted.filterMap (deletedFile w)
  let documents ← reconcile w set
  report .publish (if fileChanges ≠ [] ∨ documents ∨ graph then w.publish else none)
  return fileChanges

def incrementalIndex : Except PassError (List IncrementalFileChange) := do
  report .index w.index
  if changed.any (isAuthorityConfigPath w.toLower) ∨
      deleted.any (isAuthorityConfigPath w.toLower) then
    throw .authority
  let set := splitChanges w changed deleted
  if w.detect.isSome && !set.hasDocChanges && !set.hasCodeChanges then return []
  report .detect w.detect
  publishChanges w root set

def incrementalIndexWithPaths (changedFiles deletedFiles : List String) :
    Except PassError (List IncrementalFileChange) :=
  incrementalIndex w root (normalizeIncrementalPaths w.toLower w.cwd root changedFiles)
    (normalizeIncrementalPaths w.toLower w.cwd root deletedFiles)

variable {w root}

theorem filtered_ne_nil {p q : String → Bool} {a b : List String} :
    ((a.filter p).filter q ≠ [] || (b.filter p).filter q ≠ []) ↔
      ∃ x ∈ a ++ b, p x ∧ q x := by
  simp only [Bool.or_eq_true, decide_eq_true_eq, filter_filter, ne_eq,
    filter_eq_nil_iff, not_forall, not_not, Bool.and_eq_true, exists_prop, mem_append,
    and_comm, and_or_left, exists_or]

variable {changed deleted : List String} {relPath : String} {changes : List IncrementalFileChange}

theorem hasDocChanges_splitChanges :
    (splitChanges w changed deleted).hasDocChanges ↔ ∃ relPath ∈ changed ++ deleted,
      isExcludedIncrementalPath w.toLower relPath = false ∧ isDocPath w.toLower relPath := by
  rw [ChangeSet.hasDocChanges, splitChanges]
  rw [filtered_ne_nil]
  simp only [Bool.not_eq_true']

theorem hasCodeChanges_splitChanges :
    (splitChanges w changed deleted).hasCodeChanges ↔ ∃ relPath ∈ changed ++ deleted,
      isExcludedIncrementalPath w.toLower relPath = false ∧
        isDocPath w.toLower relPath = false := by
  rw [ChangeSet.hasCodeChanges, splitChanges]
  rw [filtered_ne_nil]
  simp only [Bool.not_eq_true']

theorem mem_codeChanged :
    relPath ∈ (splitChanges w changed deleted).codeChanged ↔ relPath ∈ changed ∧
      isExcludedIncrementalPath w.toLower relPath = false ∧
        isDocPath w.toLower relPath = false := by
  simp only [splitChanges, mem_filter, Bool.not_eq_true', and_assoc]

theorem mem_codeDeleted :
    relPath ∈ (splitChanges w changed deleted).codeDeleted ↔ relPath ∈ deleted ∧
      isExcludedIncrementalPath w.toLower relPath = false ∧
        isDocPath w.toLower relPath = false := by
  simp only [splitChanges, mem_filter, Bool.not_eq_true', and_assoc]

def Acceptable (w : World) (root relPath : String) : Prop :=
  w.shouldIgnore (joinPath root relPath) = false ∧
    ((languageFromExt w.toLower relPath).isSome →
      ∃ content, w.readFile (joinPath root relPath) = .ok content)

theorem exists_changedFile_iff :
    (∃ change, changedFile w root relPath = .ok change) ↔ Acceptable w root relPath := by
  unfold changedFile Acceptable
  by_cases hignored : w.shouldIgnore (joinPath root relPath) = true
  · simp [hignored]
  · cases hlanguage : languageFromExt w.toLower relPath with
    | none => simp [hignored]
    | some language =>
      cases hread : w.readFile (joinPath root relPath) with
      | error cause => simp [hignored, hread]
      | ok content => simp [hignored, hread]

theorem exists_mapM_iff {ε α β : Type} {f : α → Except ε β} {l : List α} :
    (∃ l', l.mapM f = .ok l') ↔ ∀ a ∈ l, ∃ b, f a = .ok b := by
  constructor
  · rintro ⟨l', h⟩ a ha
    obtain ⟨b, -, hb⟩ := exists_of_mem_left (mapM_eq_ok.mp h) ha
    exact ⟨b, hb⟩
  · intro h
    induction l with
    | nil => exact ⟨[], rfl⟩
    | cons a l ih =>
      obtain ⟨b, hb⟩ := h a mem_cons_self
      obtain ⟨l', hl'⟩ := ih fun a' ha' ↦ h a' (mem_cons_of_mem a ha')
      exact ⟨b :: l', mapM_eq_ok.mpr (.cons hb (mapM_eq_ok.mp hl'))⟩

theorem publishChanges_eq_ok {set : ChangeSet} :
    publishChanges w root set = .ok changes ↔
      w.project = none ∧ ∃ graph, observeGraph w set = .ok graph ∧ ¬repairBlocked w set ∧
      ∃ changed, set.codeChanged.mapM (changedFile w root) = .ok changed ∧
      ∃ documents, reconcile w set = .ok documents ∧
      changes = changed.filterMap id ++ set.codeDeleted.filterMap (deletedFile w) ∧
      (changes ≠ [] ∨ documents ∨ graph → w.publish = none) := by
  unfold publishChanges
  simp only [bind_eq_ok, guarded_eq_ok, report_eq_ok, pure_eq_ok, exists_const, ite_eq_right_iff]
  constructor
  · rintro ⟨hproject, graph, hgraph, hrepair, changed, hchanged, documents, hdocuments, hpublish,
      rfl⟩
    exact ⟨hproject, graph, hgraph, hrepair, changed, hchanged, documents, hdocuments, rfl,
      hpublish⟩
  · rintro ⟨hproject, graph, hgraph, hrepair, changed, hchanged, documents, hdocuments, rfl,
      hpublish⟩
    exact ⟨hproject, graph, hgraph, hrepair, changed, hchanged, documents, hdocuments, hpublish,
      rfl⟩

theorem authority_iff :
    ¬(changed.any (isAuthorityConfigPath w.toLower) ∨
        deleted.any (isAuthorityConfigPath w.toLower)) ↔
      ∀ relPath ∈ changed ++ deleted, isAuthorityConfigPath w.toLower relPath = false := by
  rw [forall_mem_append]
  simp

theorem incrementalIndex_changes (h : incrementalIndex w root changed deleted = .ok changes) :
    ∃ changed', (splitChanges w changed deleted).codeChanged.mapM (changedFile w root) =
        .ok changed' ∧
      changes = changed'.filterMap id ++
        (splitChanges w changed deleted).codeDeleted.filterMap (deletedFile w) := by
  unfold incrementalIndex at h
  simp only [bind_eq_ok, guarded_eq_ok, report_eq_ok, exists_const] at h
  obtain ⟨-, -, h⟩ := h
  split_ifs at h with hnothing
  · simp only [ChangeSet.hasCodeChanges, Bool.and_eq_true, Bool.not_eq_true', Bool.or_eq_false_iff,
      decide_eq_false_iff_not, ne_eq, not_not] at hnothing
    rw [hnothing.2.1, hnothing.2.2]
    exact ⟨[], rfl, (pure_eq_ok.mp h).symm⟩
  · obtain ⟨-, -, h⟩ := bind_eq_ok.mp h
    obtain ⟨-, -, -, -, changed', hchanged, -, -, hchanges, -⟩ := publishChanges_eq_ok.mp h
    exact ⟨changed', hchanged, hchanges⟩

theorem exists_incrementalIndex_iff (hw : w.Healthy) :
    (∃ changes, incrementalIndex w root changed deleted = .ok changes) ↔
      (∀ relPath ∈ changed ++ deleted, isAuthorityConfigPath w.toLower relPath = false) ∧
      repairBlocked w (splitChanges w changed deleted) = false ∧
      (∀ relPath ∈ (splitChanges w changed deleted).codeChanged, Acceptable w root relPath) ∧
      ∃ documents, reconcile w (splitChanges w changed deleted) = .ok documents := by
  obtain ⟨published, hgraph⟩ := hw.graph
  have hobserve : ∃ graph, observeGraph w (splitChanges w changed deleted) = .ok graph := by
    rw [observeGraph, hgraph]
    split_ifs
    · exact ⟨published, rfl⟩
    · exact ⟨false, rfl⟩
  unfold incrementalIndex
  simp only [bind_eq_ok, guarded_eq_ok, report_eq_ok, exists_const, hw.index, hw.detect, true_and,
    authority_iff, Option.isSome_none, Bool.false_and, Bool.false_eq_true, if_false,
    publishChanges_eq_ok, hw.project, hw.publish, implies_true, and_true, exists_and_left]
  simp only [← exists_changedFile_iff, ← exists_mapM_iff, Bool.not_eq_true]
  constructor
  · rintro ⟨hauthority, -, -, -, hrepair, changed', hchanged, documents, hdocuments, -⟩
    exact ⟨hauthority, hrepair, ⟨changed', hchanged⟩, documents, hdocuments⟩
  · rintro ⟨hauthority, hrepair, ⟨changed', hchanged⟩, documents, hdocuments⟩
    obtain ⟨graph, hgraph⟩ := hobserve
    exact ⟨hauthority, _, graph, hgraph, hrepair, changed', hchanged, documents, hdocuments, rfl⟩

end MiLsp.Incremental
