import Mathlib.Data.List.Induction
import Mathlib.Data.Set.Basic
import MiLsp.Store.Catalog

namespace MiLsp.Store

open Library List Catalog Table SymbolRecord

def Catalog.view (c : Catalog) (filePath : String) : Option FileRecord × Set SymbolRecord :=
  (c.files.find? filePath, {x | x ∈ c.symbols.rows ∧ x.filePath = filePath})

variable {c : Catalog} {filePath : String} {indexedAt : ℤ} {change : IncrementalFileChange}

theorem view_delete_self (c : Catalog) (filePath : String) :
    (deleteFileSymbolsTx c filePath).view filePath = (none, ∅) := by
  refine Prod.ext ?_ ?_
  · simp [view, deleteFileSymbolsTx, find?_delete_key]
  · ext x
    simp [view, deleteFileSymbolsTx, delete]

theorem view_delete_other {other : String} (h : other ≠ filePath) :
    (deleteFileSymbolsTx c other).view filePath = c.view filePath := by
  refine Prod.ext ?_ ?_
  · simp [view, deleteFileSymbolsTx, find?_delete_key, h.symm]
  · ext x
    simp only [view, deleteFileSymbolsTx, delete, Set.mem_ofPred_eq, mem_filter]
    constructor
    · rintro ⟨⟨hx, -⟩, hpath⟩
      exact ⟨hx, hpath⟩
    · rintro ⟨hx, hpath⟩
      exact ⟨⟨hx, by simpa [hpath] using h.symm⟩, hpath⟩

section

variable {symbols : List SymbolRecord} {x : SymbolRecord} {t : Table SymbolRecord.key}

theorem mem_replaceSymbols_other (h : ∀ y ∈ symbols, y.filePath ≠ x.filePath) :
    x ∈ (replaceSymbols t symbols).rows ↔ x ∈ t.rows := by
  induction symbols generalizing t with
  | nil => exact Iff.rfl
  | cons y symbols ih =>
    have hy := h y mem_cons_self
    have hkey : key x ≠ key y :=
      fun hkey ↦ hy (congrArg Prod.fst hkey).symm
    have hne : x ≠ y := fun hxy ↦ hy (hxy ▸ rfl)
    refine (ih fun y' hy' ↦ h y' (mem_cons_of_mem y hy')).trans ?_
    rw [mem_put]
    simp [hkey, hne]

theorem mem_replaceSymbols_congr {u : Table key}
    (h : ∀ y : SymbolRecord, y.filePath = x.filePath → (y ∈ t.rows ↔ y ∈ u.rows)) :
    x ∈ (replaceSymbols t symbols).rows ↔ x ∈ (replaceSymbols u symbols).rows := by
  induction symbols generalizing t u with
  | nil => exact h x rfl
  | cons y symbols ih =>
    refine ih fun z hz ↦ ?_
    rw [mem_put, mem_put, h z hz]

end

def IncrementalFileChange.view (change : IncrementalFileChange) (indexedAt : ℤ) :
    Option FileRecord × Set SymbolRecord :=
  if change.deleted then (none, ∅)
  else
    (some
      { filePath := change.filePath
        repoID := change.repoID
        repoName := change.repoName
        contentHash := change.contentHash
        indexedAt
        language := change.language },
      {x | x ∈ (Catalog.replaceSymbols .empty change.symbols).rows ∧ x.filePath = change.filePath})

theorem view_replace_self (c : Catalog) (h : change.deleted = false) :
    (replaceFileSymbolsTx c indexedAt change).view change.filePath = change.view indexedAt := by
  rw [IncrementalFileChange.view, if_neg (by simp [h])]
  refine Prod.ext ?_ ?_
  · simp [view, replaceFileSymbolsTx]
  · ext x
    refine and_congr_left fun hpath ↦ mem_replaceSymbols_congr fun y hy ↦ iff_of_false ?_ ?_
    · intro hmem
      have hother := (mem_filter.mp hmem).2
      simp [hy.trans hpath] at hother
    · rintro ⟨⟩

theorem view_replace_other (h : change.filePath ≠ filePath)
    (hsymbols : ∀ y ∈ change.symbols, y.filePath = change.filePath) :
    (replaceFileSymbolsTx c indexedAt change).view filePath = c.view filePath := by
  refine Eq.trans ?_ (view_delete_other h)
  refine Prod.ext ?_ ?_
  · simp [view, replaceFileSymbolsTx, h]
  · ext x
    refine and_congr_left fun hpath ↦ mem_replaceSymbols_other fun y hy ↦ ?_
    rw [hsymbols y hy, hpath]
    exact h

theorem view_applyIncrementalFileChangesTx {changes : List IncrementalFileChange}
    {view : Option FileRecord × Set SymbolRecord}
    (hsymbols : ∀ change ∈ changes, ∀ y ∈ change.symbols, y.filePath = change.filePath)
    (hview : ∀ change ∈ changes, change.filePath = filePath → change.view indexedAt = view) :
    (applyIncrementalFileChangesTx c indexedAt changes).view filePath =
      if ∃ change ∈ changes, change.filePath = filePath then view else c.view filePath := by
  induction changes generalizing c with
  | nil => simp [applyIncrementalFileChangesTx]
  | cons change changes ih =>
    have hstep : (applyIncrementalFileChangesTx c indexedAt [change]).view filePath =
        if change.filePath = filePath then view else c.view filePath := by
      rw [applyIncrementalFileChangesTx, foldl_cons, foldl_nil]
      split_ifs with hdeleted hpath hpath
      · rw [← hview change mem_cons_self hpath, IncrementalFileChange.view, if_pos hdeleted,
          ← hpath]
        exact view_delete_self c change.filePath
      · exact view_delete_other hpath
      · rw [← hview change mem_cons_self hpath, ← hpath]
        exact view_replace_self c (by simpa using hdeleted)
      · exact view_replace_other hpath (hsymbols change mem_cons_self)
    have hrest := @ih (applyIncrementalFileChangesTx c indexedAt [change])
      (fun other hother ↦ hsymbols other (mem_cons_of_mem change hother))
      (fun other hother ↦ hview other (mem_cons_of_mem change hother))
    rw [hstep] at hrest
    refine Eq.trans hrest ?_
    by_cases hpath : change.filePath = filePath
    · simp [hpath]
    · simp [hpath]

theorem applyIncrementalFileChangesTx_append (c : Catalog) (indexedAt : ℤ)
    (before after : List IncrementalFileChange) :
    applyIncrementalFileChangesTx c indexedAt (before ++ after) =
      applyIncrementalFileChangesTx (applyIncrementalFileChangesTx c indexedAt before) indexedAt
        after := foldl_append

/-- The last change that names the path decides, and other paths keep what they had. -/
def recorded (indexedAt : ℤ) (changes : List IncrementalFileChange)
    (old : String → Option FileRecord × Set SymbolRecord) (filePath : String) :
    Option FileRecord × Set SymbolRecord :=
  ((changes.reverse.find? (·.filePath = filePath)).map (·.view indexedAt)).getD (old filePath)

theorem applyIncrementalFileChangesTx_recorded (c : Catalog) (indexedAt : ℤ)
    (changes : List IncrementalFileChange)
    (hsymbols : ∀ change ∈ changes, ∀ y ∈ change.symbols, y.filePath = change.filePath) :
    (applyIncrementalFileChangesTx c indexedAt changes).view =
      recorded indexedAt changes c.view := by
  funext filePath
  induction changes using reverseRecOn with
  | nil => rfl
  | append_singleton changes change ih =>
    have hlast : ∀ change' ∈ [change], change'.filePath = filePath →
        change'.view indexedAt = change.view indexedAt := by
      intro change' hmem _
      rw [mem_singleton.mp hmem]
    rw [applyIncrementalFileChangesTx_append, view_applyIncrementalFileChangesTx
      (fun change' hmem ↦ hsymbols change' (mem_append_right _ hmem)) hlast,
      ih fun change' hmem ↦ hsymbols change' (mem_append_left _ hmem), recorded, recorded]
    by_cases hpath : change.filePath = filePath <;> simp [hpath]

def sampleSymbol (filePath name : String) : SymbolRecord :=
  ⟨filePath, "", "", name, "func", 1, 2, "", name, "", name, "", "go", "1", "", ""⟩

def sampleChange (filePath : String) (deleted : Bool) : IncrementalFileChange :=
  ⟨filePath, "", "", "go", "1", [sampleSymbol filePath "f", sampleSymbol filePath "g"], deleted⟩

def sampleChanges : List IncrementalFileChange :=
  [sampleChange "a.go" false, sampleChange "b.go" false, sampleChange "a.go" true]

/-- A file that is changed and then deleted leaves nothing behind, and the other file stays. -/
theorem changed_then_deleted :
    (applyIncrementalFileChangesTx .empty 0 sampleChanges).view "a.go" = (none, ∅) ∧
      (applyIncrementalFileChangesTx .empty 0 sampleChanges).view "b.go" =
        (sampleChange "b.go" false).view 0 := by
  rw [applyIncrementalFileChangesTx_recorded _ _ _ (by decide)]
  exact ⟨rfl, rfl⟩

end MiLsp.Store
