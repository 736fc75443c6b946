import Mathlib.Data.List.Sort
import MiLsp.EditPlan.Apply

namespace MiLsp.EditPlan

open Library.Strings List Function

structure DiskFile where
  content : Bytes
  mode : ℕ

/-- The files by absolute path. Every exit of `replaceEditPlanFile` removes its temporary file. -/
abbrev Disk := String → Option DiskFile

inductive WriteStep
  | stat
  | createTemp
  | write
  | close
  | chmod
  | remove
  | rename
deriving DecidableEq

abbrev WriteFaults := String → WriteStep → Bool

inductive WriteError
  | stat (relPath : String)
  | write (relPath : String) (step : WriteStep)
deriving DecidableEq

variable (windows : Bool) (faults : WriteFaults)

/-- The step that failed, if one did, and the disk then. On Windows the old file is removed first.
-/
def replaceEditPlanFile (disk : Disk) (absPath : String) (content : Bytes) (mode : ℕ) :
    Option WriteStep × Disk :=
  if faults absPath .createTemp then (some .createTemp, disk)
  else if faults absPath .write then (some .write, disk)
  else if faults absPath .close then (some .close, disk)
  else if faults absPath .chmod then (some .chmod, disk)
  else if windows && faults absPath .remove then (some .remove, disk)
  else
    let disk := if windows then Function.update disk absPath none else disk
    if faults absPath .rename then (some .rename, disk)
    else (none, Function.update disk absPath (some ⟨content, mode⟩))

structure EditPlanBackup where
  absPath : String
  content : Bytes
  mode : ℕ

def writeFile (disk : Disk) (b : EditPlanBackup) : Disk :=
  Function.update disk b.absPath
    (some ⟨b.content, ((disk b.absPath).map DiskFile.mode).getD b.mode⟩)

def rollbackEditPlanFiles (backups : List EditPlanBackup) (disk : Disk) : Disk :=
  (backups.insertionSort fun a b ↦ a.absPath ≤ b.absPath).foldl writeFile disk

structure WriteRun where
  disk : Disk
  backups : List EditPlanBackup
  written : List String

def WriteRun.modeOf (run : WriteRun) (absPath : String) : ℕ :=
  ((run.disk absPath).map DiskFile.mode).getD 0

def WriteRun.backUp (run : WriteRun) (state : EditPlanFileState) : WriteRun :=
  { run with backups := run.backups ++ [⟨state.absPath, state.before, run.modeOf state.absPath⟩] }

def writeEditPlanPaths : List EditPlanFileState → WriteRun → Option WriteError × WriteRun
  | [], run => (none, run)
  | state :: rest, run =>
    if faults state.absPath .stat then (some (.stat state.relPath), run)
    else
      let run' := run.backUp state
      match replaceEditPlanFile windows faults run.disk state.absPath state.after
          (run.modeOf state.absPath) with
      | (some step, disk) =>
        (some (.write state.relPath step),
          { run' with disk := rollbackEditPlanFiles run'.backups disk })
      | (none, disk) =>
        writeEditPlanPaths rest { run' with disk, written := run.written ++ [state.relPath] }

variable (fileStates : EditPlanFileStates)

def changedEditPlanFiles : List EditPlanFileState :=
  (fileStates.rows.filter fun s ↦ s.before ≠ s.after).insertionSort fun a b ↦ a.relPath ≤ b.relPath

def writeEditPlanFiles (disk : Disk) : Option WriteError × WriteRun :=
  writeEditPlanPaths windows faults (changedEditPlanFiles fileStates) ⟨disk, [], []⟩

def EditPlanFileState.Original (disk : Disk) (state : EditPlanFileState) : Prop :=
  (disk state.absPath).map DiskFile.content = some state.before

/-- An apply that returns an error leaves every file with its original bytes. -/
def FailureLeavesFiles (disk : Disk) : Prop :=
  (writeEditPlanFiles windows faults fileStates disk).1 ≠ none →
    ∀ state ∈ fileStates.rows,
      state.Original (writeEditPlanFiles windows faults fileStates disk).2.disk

variable (state : EditPlanFileState)

def Spared : Prop :=
  faults state.absPath .stat = false ∧ faults state.absPath .createTemp = false ∧
    faults state.absPath .write = false ∧ faults state.absPath .close = false ∧
    faults state.absPath .chmod = false ∧ (windows && faults state.absPath .remove) = false ∧
    faults state.absPath .rename = false

instance : Decidable (Spared windows faults state) :=
  inferInstanceAs (Decidable (_ ∧ _))

/-- The first failure is that of the look at a file after the first one. -/
def StatFailsLate : Prop :=
  ∃ earlier state later, changedEditPlanFiles fileStates = earlier ++ state :: later ∧
    earlier ≠ [] ∧ (∀ s ∈ earlier, Spared windows faults s) ∧ faults state.absPath .stat = true

variable {windows faults} {state : EditPlanFileState} {path : String}
  {earlier : List EditPlanFileState} {fileStates : EditPlanFileStates}
  {backups : List EditPlanBackup} {content : Bytes}

theorem replaceEditPlanFile_of_spared (h : Spared windows faults state) (disk : Disk) (mode : ℕ) :
    replaceEditPlanFile windows faults disk state.absPath state.after mode =
      (none, Function.update disk state.absPath (some ⟨state.after, mode⟩)) := by
  obtain ⟨-, htemp, hwrite, hclose, hchmod, hremove, hrename⟩ := h
  simp only [replaceEditPlanFile, htemp, hwrite, hclose, hchmod, hremove, hrename,
    Bool.false_eq_true, if_false]
  cases windows with
  | true => simp
  | false => simp

theorem replaceEditPlanFile_other {disk disk' : Disk} {absPath : String} {mode : ℕ}
    {failed : Option WriteStep}
    (h : replaceEditPlanFile windows faults disk absPath content mode = (failed, disk'))
    (hpath : path ≠ absPath) : disk' path = disk path := by
  obtain rfl : _ = disk' := congrArg Prod.snd h
  unfold replaceEditPlanFile
  split_ifs <;> simp [update_of_ne hpath]

theorem spared_of_replaceEditPlanFile {disk disk' : Disk} {mode : ℕ}
    (hstat : faults state.absPath .stat = false)
    (h : replaceEditPlanFile windows faults disk state.absPath state.after mode = (none, disk')) :
    Spared windows faults state := by
  unfold replaceEditPlanFile at h
  split_ifs at h <;> simp_all [Spared]

theorem rollbackEditPlanFiles_content (hmem : ∃ b ∈ backups, b.absPath = path)
    (hall : ∀ b ∈ backups, b.absPath = path → b.content = content) (disk : Disk) :
    (rollbackEditPlanFiles backups disk path).map DiskFile.content = some content := by
  have hperm := perm_insertionSort (fun a b : EditPlanBackup ↦ a.absPath ≤ b.absPath) backups
  have hmem' : ∃ b ∈ backups.insertionSort fun a b ↦ a.absPath ≤ b.absPath, b.absPath = path := by
    obtain ⟨b, hb, hpath⟩ := hmem
    exact ⟨b, hperm.mem_iff.mpr hb, hpath⟩
  have hall' : ∀ b ∈ backups.insertionSort fun a b ↦ a.absPath ≤ b.absPath, b.absPath = path →
      b.content = content := fun b hb ↦ hall b (hperm.mem_iff.mp hb)
  unfold rollbackEditPlanFiles
  generalize backups.insertionSort (fun a b ↦ a.absPath ≤ b.absPath) = sorted at hmem' hall'
  -- The last backup of the path decides.
  induction sorted using List.reverseRecOn generalizing disk with
  | nil =>
    obtain ⟨b, hb, -⟩ := hmem'
    cases hb
  | append_singleton front b ih =>
    rw [foldl_append, foldl_cons, foldl_nil, writeFile]
    by_cases hpath : b.absPath = path
    · rw [← hpath, update_self, Option.map_some, hall' b (by simp) hpath]
    · rw [update_of_ne (Ne.symm hpath)]
      refine ih disk ?_ fun b' hb' ↦ hall' b' (mem_append_left _ hb')
      obtain ⟨b', hb', hpath'⟩ := hmem'
      rcases mem_append.mp hb' with hb' | hb'
      · exact ⟨b', hb', hpath'⟩
      · rw [mem_singleton.mp hb'] at hpath'
        exact absurd hpath' hpath

theorem rollbackEditPlanFiles_other (h : ∀ b ∈ backups, b.absPath ≠ path) (disk : Disk) :
    rollbackEditPlanFiles backups disk path = disk path := by
  have hperm := perm_insertionSort (fun a b : EditPlanBackup ↦ a.absPath ≤ b.absPath) backups
  have h' : ∀ b ∈ backups.insertionSort fun a b ↦ a.absPath ≤ b.absPath, b.absPath ≠ path :=
    fun b hb ↦ h b (hperm.mem_iff.mp hb)
  unfold rollbackEditPlanFiles
  generalize backups.insertionSort (fun a b ↦ a.absPath ≤ b.absPath) = sorted at h'
  induction sorted generalizing disk with
  | nil => rfl
  | cons b rest ih =>
    rw [foldl_cons, ih _ fun b' hb' ↦ h' b' (mem_cons_of_mem b hb'), writeFile,
      update_of_ne (Ne.symm (h' b mem_cons_self))]

def WriteRun.after (run : WriteRun) (state : EditPlanFileState) : WriteRun :=
  { run.backUp state with
    disk := Function.update run.disk state.absPath
      (some ⟨state.after, run.modeOf state.absPath⟩)
    written := run.written ++ [state.relPath] }

open WriteRun

theorem writeEditPlanPaths_append
    (h : ∀ s ∈ earlier, Spared windows faults s) (rest : List EditPlanFileState) (run : WriteRun) :
    writeEditPlanPaths windows faults (earlier ++ rest) run =
      writeEditPlanPaths windows faults rest (earlier.foldl after run) := by
  induction earlier generalizing run with
  | nil => rfl
  | cons state earlier ih =>
    have hspared := h state mem_cons_self
    rw [cons_append, writeEditPlanPaths, if_neg (by simp [hspared.1])]
    rw [replaceEditPlanFile_of_spared hspared]
    exact ih (fun s hs ↦ h s (mem_cons_of_mem state hs)) (run.after state)

structure Recoverable (fileStates : EditPlanFileStates) (disk : Disk)
    (backups : List EditPlanBackup) : Prop where
  untouched : ∀ state ∈ fileStates.rows, (∀ b ∈ backups, b.absPath ≠ state.absPath) →
    state.Original disk
  backed : ∀ b ∈ backups, ∃ state ∈ fileStates.rows,
    state.absPath = b.absPath ∧ state.before = b.content

section Recovery

variable {fileStates : EditPlanFileStates} {disk disk' : Disk} {backups : List EditPlanBackup}

theorem Recoverable.backUp {state : EditPlanFileState} {mode : ℕ}
    (h : Recoverable fileStates disk backups) (hstate : state ∈ fileStates.rows)
    (hdisk : ∀ path, path ≠ state.absPath → disk' path = disk path) :
    Recoverable fileStates disk' (backups ++ [⟨state.absPath, state.before, mode⟩]) := by
  constructor
  · intro s hs hfree
    have hfree' : ∀ b ∈ backups, b.absPath ≠ s.absPath := fun b hb ↦
      hfree b (mem_append_left _ hb)
    have hne : s.absPath ≠ state.absPath :=
      (hfree _ (mem_append_right _ (mem_singleton_self _))).symm
    rw [EditPlanFileState.Original, hdisk _ hne]
    exact h.untouched s hs hfree'
  · intro b hb
    rcases mem_append.mp hb with hb | hb
    · exact h.backed b hb
    · rw [mem_singleton.mp hb]
      exact ⟨state, hstate, rfl, rfl⟩

theorem Recoverable.foldl_after (run : WriteRun) {earlier : List EditPlanFileState}
    (h : Recoverable fileStates run.disk run.backups)
    (hearlier : ∀ s ∈ earlier, s ∈ fileStates.rows) :
    Recoverable fileStates (earlier.foldl after run).disk
      (earlier.foldl after run).backups := by
  induction earlier generalizing run with
  | nil => exact h
  | cons state earlier ih =>
    refine ih (run.after state) ?_ fun s hs ↦ hearlier s (mem_cons_of_mem state hs)
    exact h.backUp (hearlier state mem_cons_self) fun path hne ↦ update_of_ne hne _ _

theorem Recoverable.rollback (h : Recoverable fileStates disk backups) {disk₀ : Disk}
    (horiginal : ∀ state ∈ fileStates.rows, state.Original disk₀) {state : EditPlanFileState}
    (hstate : state ∈ fileStates.rows) : state.Original (rollbackEditPlanFiles backups disk) := by
  by_cases hmem : ∃ b ∈ backups, b.absPath = state.absPath
  · refine rollbackEditPlanFiles_content hmem ?_ disk
    intro b hb hpath
    obtain ⟨s, hs, hspath, hbefore⟩ := h.backed b hb
    have hread := horiginal s hs
    rw [EditPlanFileState.Original, hspath, hpath, horiginal state hstate] at hread
    rw [← hbefore]
    exact (Option.some.inj hread).symm
  · have hfree : ∀ b ∈ backups, b.absPath ≠ state.absPath := fun b hb hpath ↦ hmem ⟨b, hb, hpath⟩
    rw [EditPlanFileState.Original, rollbackEditPlanFiles_other hfree]
    exact h.untouched state hstate hfree

end Recovery

theorem mem_changedEditPlanFiles :
    state ∈ changedEditPlanFiles fileStates ↔
      state ∈ fileStates.rows ∧ state.before ≠ state.after := by
  rw [changedEditPlanFiles, mem_insertionSort, mem_filter, decide_eq_true_iff]

theorem exists_first_fault (windows : Bool) (faults : WriteFaults) (l : List EditPlanFileState) :
    (∀ s ∈ l, Spared windows faults s) ∨ ∃ earlier state later, l = earlier ++ state :: later ∧
      (∀ s ∈ earlier, Spared windows faults s) ∧ ¬Spared windows faults state := by
  induction l with
  | nil => exact .inl nofun
  | cons state l ih =>
    by_cases hstate : Spared windows faults state
    · rcases ih with hall | ⟨earlier, s, later, rfl, hearlier, hs⟩
      · exact .inl (forall_mem_cons.mpr ⟨hstate, hall⟩)
      · exact .inr ⟨state :: earlier, s, later, rfl, forall_mem_cons.mpr ⟨hstate, hearlier⟩, hs⟩
    · exact .inr ⟨[], state, l, rfl, nofun, hstate⟩

section

variable (disk : Disk) {later : List EditPlanFileState}
  (hsplit : changedEditPlanFiles fileStates = earlier ++ state :: later)
  (hearlier : ∀ s ∈ earlier, Spared windows faults s)
include disk hsplit hearlier

theorem writeEditPlanFiles_stop (hstat : faults state.absPath .stat = true) :
    writeEditPlanFiles windows faults fileStates disk =
      (some (.stat state.relPath), earlier.foldl after ⟨disk, [], []⟩) := by
  rw [writeEditPlanFiles, hsplit, writeEditPlanPaths_append hearlier, writeEditPlanPaths,
    if_pos hstat]

theorem writeEditPlanFiles_rollback (hstat : faults state.absPath .stat = false)
    (hfault : ¬Spared windows faults state) :
    ∃ step disk', (∀ path, path ≠ state.absPath →
        disk' path = (earlier.foldl after ⟨disk, [], []⟩).disk path) ∧
      let run := (earlier.foldl after ⟨disk, [], []⟩).backUp state
      writeEditPlanFiles windows faults fileStates disk =
        (some (.write state.relPath step),
          { run with disk := rollbackEditPlanFiles run.backups disk' }) := by
  generalize hrun : earlier.foldl after ⟨disk, [], []⟩ = run
  cases hreplace : replaceEditPlanFile windows faults run.disk state.absPath state.after
      (run.modeOf state.absPath) with
  | mk failed disk' =>
    cases failed with
    | none => exact absurd (spared_of_replaceEditPlanFile hstat hreplace) hfault
    | some step =>
      refine ⟨step, disk', fun path ↦ replaceEditPlanFile_other hreplace, ?_⟩
      · rw [writeEditPlanFiles, hsplit, writeEditPlanPaths_append hearlier, hrun,
          writeEditPlanPaths, if_neg (by simp [hstat])]
        rw [hreplace]

end

theorem foldl_after_last {run : WriteRun} :
    (((earlier ++ [state]).foldl WriteRun.after run).disk state.absPath).map DiskFile.content =
      some state.after := by
  rw [foldl_append, foldl_cons, foldl_nil, WriteRun.after]
  dsimp only
  rw [update_self, Option.map_some]

/-- A failed apply leaves the files as they were unless the look at a later file failed first. -/
theorem failureLeavesFiles_iff {fileStates : EditPlanFileStates} {disk : Disk}
    (horiginal : ∀ state ∈ fileStates.rows, state.Original disk) :
    FailureLeavesFiles windows faults fileStates disk ↔
      ¬StatFailsLate windows faults fileStates := by
  have hstart : Recoverable fileStates disk [] :=
    ⟨fun state hstate _ ↦ horiginal state hstate, nofun⟩
  constructor
  · rintro hleaves ⟨earlier, state, later, hsplit, hne, hearlier, hstat⟩
    have hstop := writeEditPlanFiles_stop disk hsplit hearlier hstat
    obtain ⟨front, last, rfl⟩ := eq_nil_or_concat earlier |>.resolve_left hne
    have hlast : last ∈ changedEditPlanFiles fileStates := by simp [hsplit]
    obtain ⟨hmem, hchanged⟩ := mem_changedEditPlanFiles.mp hlast
    have hread := hleaves (by simp [hstop]) last hmem
    rw [hstop, EditPlanFileState.Original, concat_eq_append, foldl_after_last] at hread
    exact hchanged (Option.some.inj hread).symm
  · intro hlate herror
    rcases exists_first_fault windows faults (changedEditPlanFiles fileStates) with
      hall | ⟨earlier, state, later, hsplit, hearlier, hfault⟩
    · have hdone := writeEditPlanPaths_append hall [] ⟨disk, [], []⟩
      rw [append_nil] at hdone
      rw [writeEditPlanFiles, hdone] at herror
      exact absurd rfl herror
    · have hrows : ∀ s ∈ earlier ++ state :: later, s ∈ fileStates.rows := fun s hs ↦
        (mem_changedEditPlanFiles.mp (hsplit ▸ hs)).1
      have hrecoverable := Recoverable.foldl_after ⟨disk, [], []⟩ hstart fun s hs ↦
        hrows s (mem_append_left _ hs)
      intro s hs
      by_cases hstat : faults state.absPath .stat = true
      · -- Nothing has been written yet.
        obtain rfl : earlier = [] := by
          by_contra hne
          exact hlate ⟨earlier, state, later, hsplit, hne, hearlier, hstat⟩
        rw [writeEditPlanFiles_stop disk hsplit hearlier hstat]
        exact horiginal s hs
      · obtain ⟨step, disk', hother, hstop⟩ := writeEditPlanFiles_rollback disk hsplit hearlier
          (Bool.eq_false_iff.mpr hstat) hfault
        rw [hstop]
        exact (hrecoverable.backUp (hrows state (by simp)) hother).rollback horiginal hs

section Sample

def sampleState (path : String) : EditPlanFileState := ⟨path, path, [97], [98]⟩

def sampleStates : EditPlanFileStates := ⟨[sampleState "/w/a", sampleState "/w/b"], by decide⟩

def sampleDisk : Disk := fun path ↦
  if path = "/w/a" ∨ path = "/w/b" then some ⟨[97], 420⟩ else none

theorem sampleStates_original : ∀ state ∈ sampleStates.rows, state.Original sampleDisk := by
  intro state hstate
  simp only [sampleStates, mem_cons, not_mem_nil, or_false] at hstate
  rcases hstate with rfl | rfl
  · rfl
  · rfl

def sampleFaults (step : WriteStep) : WriteFaults := fun path s ↦ path = "/w/b" && s = step

theorem failed_rename_leaves_files :
    (∀ state ∈ sampleStates.rows, state.Original sampleDisk) ∧
      FailureLeavesFiles false (sampleFaults .rename) sampleStates sampleDisk := by
  refine ⟨sampleStates_original, (failureLeavesFiles_iff sampleStates_original).mpr ?_⟩
  rintro ⟨earlier, state, later, -, -, -, hstat⟩
  simp [sampleFaults] at hstat

theorem failed_stat_keeps_change :
    (∀ state ∈ sampleStates.rows, state.Original sampleDisk) ∧
      (writeEditPlanFiles false (sampleFaults .stat) sampleStates sampleDisk).1 =
        some (.stat "/w/b") ∧
      ((writeEditPlanFiles false (sampleFaults .stat) sampleStates sampleDisk).2.disk "/w/a").map
        DiskFile.content = some [98] ∧
      ¬FailureLeavesFiles false (sampleFaults .stat) sampleStates sampleDisk := by
  have hstop : (writeEditPlanFiles false (sampleFaults .stat) sampleStates sampleDisk).1 =
      some (.stat "/w/b") := by decide +kernel
  have hchanged : ((writeEditPlanFiles false (sampleFaults .stat) sampleStates sampleDisk).2.disk
      "/w/a").map DiskFile.content = some [98] := by decide +kernel
  refine ⟨sampleStates_original, hstop, hchanged, ?_⟩
  intro hleaves
  have hread := hleaves (by simp [hstop]) (sampleState "/w/a") (by simp [sampleStates])
  have heq := hchanged.symm.trans hread
  exact absurd heq (by decide)

end Sample

end MiLsp.EditPlan
