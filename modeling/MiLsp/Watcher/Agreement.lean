import MiLsp.Store.FileView
import MiLsp.Watcher.Handler

namespace MiLsp.Watcher

open Library Attempt Incremental Store List Option IncrementalFileChange

variable (w : Incremental.World)

def Agrees (root relPath : String) (view : Option FileRecord × Set SymbolRecord) : Prop :=
  match w.readFile (joinPath root relPath) with
  | .error _ => view.1 = none
  | .ok content => (∃ row, view.1 = some row ∧ row.contentHash = w.md5Hex content) ∧
    view.2 = {x | x ∈ (Catalog.replaceSymbols .empty (extractFileSymbols w relPath content)).rows}

variable (root : String)

def ReportedPresent (events : List WatcherEvent) (relPath : String) : Prop :=
  (∃ e ∈ events, e.op.present ∧ Names w root e relPath) ∧ isDocPath w.toLower relPath = false

def ReportedGone (events : List WatcherEvent) (relPath : String) : Prop :=
  (∃ e ∈ events, e.op.gone ∧ Names w root e relPath) ∧ isDocPath w.toLower relPath = false

/-- A file reported gone is gone, and one that is not reported as code has a row that agrees
already. -/
def Truthful (events : List WatcherEvent) (relPath : String)
    (before : Option FileRecord × Set SymbolRecord) : Prop :=
  (ReportedGone w root events relPath → (w.readFile (joinPath root relPath)).toOption = none) ∧
    (¬ReportedGone w root events relPath → ¬ReportedPresent w root events relPath →
      Agrees w root relPath before)

variable {w : Incremental.World} {root relPath : String} {events : List WatcherEvent}
  {change : IncrementalFileChange}

theorem mem_symbols_filePath {symbols : List SymbolRecord} {t : Table SymbolRecord.key}
    (ht : ∀ x ∈ t.rows, x.filePath = relPath) (h : ∀ x ∈ symbols, x.filePath = relPath) :
    ∀ x ∈ (Catalog.replaceSymbols t symbols).rows, x.filePath = relPath := by
  induction symbols generalizing t with
  | nil => exact ht
  | cons y symbols ih =>
    refine ih (fun x hx ↦ ?_) fun x hx ↦ h x (mem_cons_of_mem y hx)
    rcases Table.mem_put.mp hx with ⟨hx, -⟩ | rfl
    · exact ht x hx
    · exact h x mem_cons_self

theorem extractFileSymbols_filePath {content : Strings.Bytes} :
    ∀ x ∈ extractFileSymbols w relPath content, x.filePath = relPath := by
  intro x hx
  obtain ⟨y, -, rfl⟩ := mem_map.mp hx
  rfl

theorem changedFile_eq_some (h : changedFile w root relPath = .ok (some change)) :
    change.filePath = relPath ∧ (∀ y ∈ change.symbols, y.filePath = relPath) ∧
      ∀ indexedAt, Agrees w root relPath (change.view indexedAt) := by
  unfold changedFile at h
  dsimp only at h
  split_ifs at h
  split at h
  · cases h
  · split at h
    next cause hread => cases h
    next content hread =>
      cases h
      refine ⟨rfl, extractFileSymbols_filePath, fun indexedAt ↦ ?_⟩
      rw [Agrees, hread, view, if_neg Bool.false_ne_true]
      refine ⟨⟨_, rfl, rfl⟩, ?_⟩
      ext x
      refine and_iff_left_of_imp fun hx ↦ ?_
      exact mem_symbols_filePath (fun y hy ↦ by cases hy) extractFileSymbols_filePath x hx

theorem deletedFile_eq_some (h : deletedFile w relPath = some change) :
    change.filePath = relPath ∧ change.symbols = [] ∧ change.deleted = true := by
  obtain ⟨-, -, rfl⟩ := map_eq_some_iff.mp h
  exact ⟨rfl, rfl, rfl⟩

theorem changedFile_of_acceptable (hlanguage : (languageFromExt w.toLower relPath).isSome)
    {change : Option IncrementalFileChange} (h : changedFile w root relPath = .ok change) :
    ∃ change', change = some change' := by
  obtain ⟨language, hlanguage⟩ := isSome_iff_exists.mp hlanguage
  unfold changedFile at h
  dsimp only at h
  rw [hlanguage] at h
  split_ifs at h
  dsimp only at h
  split at h
  · cases h
  · cases h
    exact ⟨_, rfl⟩

variable {c : Catalog} {indexedAt : ℤ}

theorem view_changed (hlanguage : (languageFromExt w.toLower relPath).isSome) {paths : List String}
    {changed : List (Option IncrementalFileChange)}
    (h : paths.mapM (changedFile w root) = .ok changed)
    (view : Option FileRecord × Set SymbolRecord)
    (hview : relPath ∈ paths → ∀ change, changedFile w root relPath = .ok (some change) →
      change.view indexedAt = view) :
    (applyIncrementalFileChangesTx c indexedAt (changed.filterMap id)).view relPath =
      if relPath ∈ paths then view else c.view relPath := by
  have hall := mapM_eq_ok.mp h
  have hchange : ∀ change ∈ changed.filterMap id,
      changedFile w root change.filePath = .ok (some change) ∧ change.filePath ∈ paths := by
    intro change hmem
    obtain ⟨path, hpath, hfile⟩ := exists_of_mem_right hall (by simpa using hmem)
    have hsame := (changedFile_eq_some hfile).1
    exact ⟨hsame ▸ hfile, hsame ▸ hpath⟩
  rw [view_applyIncrementalFileChangesTx]
  · refine if_congr ⟨?_, ?_⟩ rfl rfl
    · rintro ⟨change, hmem, rfl⟩
      exact (hchange change hmem).2
    · intro hmem
      obtain ⟨change, hin, hfile⟩ := exists_of_mem_left hall hmem
      obtain ⟨change, rfl⟩ := changedFile_of_acceptable hlanguage hfile
      exact ⟨change, by simpa using hin, (changedFile_eq_some hfile).1⟩
  · intro change hmem
    exact (changedFile_eq_some (hchange change hmem).1).2.1
  · rintro change hmem rfl
    exact hview (hchange change hmem).2 change (hchange change hmem).1

theorem view_deleted (hlanguage : (languageFromExt w.toLower relPath).isSome)
    (paths : List String) :
    (applyIncrementalFileChangesTx c indexedAt (paths.filterMap (deletedFile w))).view relPath =
      if relPath ∈ paths then (none, ∅) else c.view relPath := by
  have hchange : ∀ change ∈ paths.filterMap (deletedFile w),
      deletedFile w change.filePath = some change ∧ change.filePath ∈ paths := by
    intro change hmem
    obtain ⟨path, hpath, hfile⟩ := mem_filterMap.mp hmem
    have hsame := (deletedFile_eq_some hfile).1
    exact ⟨hsame ▸ hfile, hsame ▸ hpath⟩
  rw [view_applyIncrementalFileChangesTx]
  · refine if_congr ⟨?_, ?_⟩ rfl rfl
    · rintro ⟨change, hmem, rfl⟩
      exact (hchange change hmem).2
    · intro hmem
      obtain ⟨language, hlanguage⟩ := isSome_iff_exists.mp hlanguage
      have hfile : deletedFile w relPath = some ⟨relPath, "", "", "", "", [], true⟩ := by
        rw [deletedFile, hlanguage, map_some]
      exact ⟨_, mem_filterMap.mpr ⟨relPath, hmem, hfile⟩, rfl⟩
  · intro change hmem y hy
    rw [(deletedFile_eq_some (hchange change hmem).1).2.1] at hy
    cases hy
  · intro change hmem _
    rw [view, if_pos (deletedFile_eq_some (hchange change hmem).1).2.2]

/-- After a batch a code file's row agrees with the disk exactly when the batch spoke the truth
about it. -/
theorem batch_agrees_iff {changes : List IncrementalFileChange}
    (h : reindexWatchBatch w root events = .ok changes)
    (hlanguage : (languageFromExt w.toLower relPath).isSome) :
    Agrees w root relPath ((applyIncrementalFileChangesTx c indexedAt changes).view relPath) ↔
      Truthful w root events relPath (c.view relPath) := by
  obtain ⟨changed, hchanged, rfl⟩ := reindexWatchBatch_changes h
  rw [applyIncrementalFileChangesTx_append, view_deleted hlanguage, Truthful]
  have hgone : relPath ∈ (batchChanges w root events).codeDeleted ↔
      ReportedGone w root events relPath := mem_codeDeleted_batchChanges
  have hpresent : relPath ∈ (batchChanges w root events).codeChanged ↔
      ReportedPresent w root events relPath := mem_codeChanged_batchChanges
  by_cases hout : ReportedGone w root events relPath
  · -- the removal comes last
    rw [if_pos (hgone.mpr hout)]
    have hnone : Agrees w root relPath (none, ∅) ↔
        (w.readFile (joinPath root relPath)).toOption = none := by
      unfold Agrees
      cases w.readFile (joinPath root relPath) <;> simp [Except.toOption]
    simp [hout, hnone]
  · rw [if_neg fun hmem ↦ hout (hgone.mp hmem)]
    by_cases hin : ReportedPresent w root events relPath
    · obtain ⟨change, -, hfile⟩ :=
        exists_of_mem_left (mapM_eq_ok.mp hchanged) (hpresent.mpr hin)
      obtain ⟨change, rfl⟩ := changedFile_of_acceptable hlanguage hfile
      have hview : (applyIncrementalFileChangesTx c indexedAt (changed.filterMap id)).view relPath =
          change.view indexedAt := by
        refine (view_changed hlanguage hchanged _ fun _ other hother ↦ ?_).trans
          (if_pos (hpresent.mpr hin))
        rw [hfile] at hother
        cases hother
        rfl
      rw [hview]
      exact iff_of_true ((changedFile_eq_some hfile).2.2 indexedAt)
        ⟨fun h ↦ absurd h hout, fun _ h ↦ absurd hin h⟩
    · have hmem : relPath ∉ (batchChanges w root events).codeChanged :=
        fun hmem ↦ hin (hpresent.mp hmem)
      have hview : (applyIncrementalFileChangesTx c indexedAt (changed.filterMap id)).view relPath =
          c.view relPath :=
        (view_changed hlanguage hchanged (none, ∅) fun h ↦ absurd h hmem).trans (if_neg hmem)
      rw [hview]
      simp [hout, hin]

def sampleReplaced : WatcherEvent := ⟨"/ws/b.go", ⟨true, false, true, false⟩, sampleSaved.path_ne⟩

def sampleChange : IncrementalFileChange := ⟨"b.go", "", "", "go", "", [], false⟩

theorem reindex_sampleSaved :
    reindexWatchBatch sampleWorld "/ws" [sampleSaved] = .ok [sampleChange] := by decide +kernel

theorem saved_file_agrees :
    Agrees sampleWorld "/ws" "b.go"
      ((applyIncrementalFileChangesTx .empty 0 [sampleChange]).view "b.go") := by
  refine (batch_agrees_iff reindex_sampleSaved (by decide +kernel)).mpr ⟨?_, fun _ hnot ↦ ?_⟩
  · rintro ⟨⟨e, he, hgone, -⟩, -⟩
    rw [mem_singleton.mp he] at hgone
    cases hgone
  · have hnames : Names sampleWorld "/ws" sampleSaved "b.go" :=
      ⟨by decide +kernel, by decide +kernel⟩
    exact absurd ⟨⟨sampleSaved, mem_singleton_self _, rfl, hnames⟩, by decide +kernel⟩ hnot

def sampleRemoval : IncrementalFileChange := ⟨"b.go", "", "", "", "", [], true⟩

theorem replaced_file_loses_row :
    reindexWatchBatch sampleWorld "/ws" [sampleReplaced] = .ok [sampleChange, sampleRemoval] ∧
      domain sampleWorld "/ws" sampleReplaced = some .code ∧
      (languageFromExt sampleWorld.toLower "b.go").isSome ∧
      sampleWorld.shouldIgnore "/ws/b.go" = false ∧
      ¬Agrees sampleWorld "/ws" "b.go"
        ((applyIncrementalFileChangesTx .empty 0 [sampleChange, sampleRemoval]).view "b.go") := by
  refine ⟨by decide +kernel, by decide +kernel, by decide +kernel, rfl, fun h ↦ ?_⟩
  have hread : sampleWorld.readFile (joinPath "/ws" "b.go") = .ok [] := by decide +kernel
  have hnone : ((applyIncrementalFileChangesTx .empty 0 [sampleChange, sampleRemoval]).view
      "b.go").1 = none := by decide +kernel
  obtain ⟨⟨row, hrow, -⟩, -⟩ := h
  cases hrow

end MiLsp.Watcher
