import MiLsp.SelfUpdate.Course

namespace MiLsp.SelfUpdate

open Library.Attempt

variable {Image : Type} {host : Host Image} {faults : Faults} {tx : Transaction Image}
  {d : Disk Image} {info staged : Entry Image} {oldVersion : String}

def Undoing (faults : Faults) : Prop :=
  ∀ site : Site, site.restores = true ∨ site.removes = true → faults site = none

/-- There is neither a backup nor a marker, or the cleanup accepts and removes both. -/
def Paired (host : Host Image) (d : Disk Image) : Prop :=
  d.backup = none ∧ d.marker = none ∨
    (cleanupOld host noFaults false d).1 = none ∧
      (cleanupOld host noFaults false d).2.final d = { d with backup := none, marker := none }

section Cleanup

theorem cleanupOld_owned (h : ownedBackup host noFaults d = .ok ()) :
    cleanupOld host noFaults false d =
      (none, [(.removeBackup, { d with backup := none }),
        (.removeMarker, { d with backup := none, marker := none })]) := by
  rw [cleanupOld, if_neg (by simp), h]
  rfl

theorem cleanupOld_refused {e : String} (h : ownedBackup host noFaults d = .error e) :
    cleanupOld host noFaults false d = (some e, []) := by
  rw [cleanupOld, if_neg (by simp), h]

theorem paired_iff :
    Paired host d ↔
      d.backup = none ∧ d.marker = none ∨ ownedBackup host noFaults d = .ok () := by
  refine or_congr_right ⟨?_, ?_⟩
  · rintro ⟨hok, -⟩
    cases howned : ownedBackup host noFaults d with
    | error e =>
      rw [cleanupOld_refused howned] at hok
      cases hok
    | ok u => rfl
  · intro h
    rw [cleanupOld_owned h]
    exact ⟨rfl, rfl⟩

theorem ownerMarker_size (host : Host Image) (image : Image) :
    (ownerMarker (txOwner host image)).size ≤ 4096 := by
  rw [ownerMarker, txOwner]
  dsimp only
  rw [host.pathIdentity_length, host.fileHash_length]
  decide

theorem ownedBackup_linked (hmarker : d.marker = some (ownerMarker (txOwner host info.image)))
    (hbackup : d.backup = some info) (hregular : info.regular = true) :
    ownedBackup host noFaults d = .ok () := by
  have hsize := ownerMarker_size host info.image
  have howner : markerOwner host noFaults d.marker = .ok (txOwner host info.image) := by
    simp only [markerOwner, bind_eq_ok, guarded_eq_ok, mapError_eq_ok, attempt_eq_ok, orElse_eq_ok,
      pure_eq_ok, hmarker]
    exact ⟨(), rfl, _, rfl, by omega, _, rfl, by simp [txOwner], rfl⟩
  simp only [ownedBackup, bind_eq_ok, guarded_eq_ok, mapError_eq_ok, lstat_eq_ok, txFileHash_eq_ok,
    check_eq_ok, hbackup]
  exact ⟨_, howner, info, ⟨rfl, rfl⟩, by simp [hregular], _, ⟨rfl, info, rfl, rfl⟩,
    by simp [txOwner]⟩

end Cleanup

section Final

theorem dropMarker_of_undoing (h : Undoing faults) (d : Disk Image) :
    dropMarker faults d = [(.removeMarker, { d with marker := none })] := by
  rw [dropMarker, h .removeMarker (.inr rfl)]

theorem dropBackup_of_undoing (h : Undoing faults) (d : Disk Image) :
    dropBackup faults d = [(.removeBackup, { d with backup := none })] := by
  rw [dropBackup, h .removeBackup (.inr rfl)]

end Final

theorem failed_final (hundo : Undoing faults)
    (hfailed : (applyTransaction host faults tx d).failed = true) :
    (applyTransaction host faults tx d).result.changed = false ∧
      ((applyTransaction host faults tx d).log.final d = d ∨
        d.backup = none ∧ d.marker = none ∧ ∃ info, d.executable = some info ∧
          info.regular = true ∧
          (applyTransaction host faults tx d).log.final d = linked host info d) := by
  have hcourse := applyTransaction_course host faults tx d
  generalize applyTransaction host faults tx d = out at hcourse hfailed ⊢
  cases hcourse with
  | refused hchanged => exact ⟨hchanged, .inl rfl⟩
  | unwritten ready hmarker hchanged =>
    refine ⟨hchanged, .inl ?_⟩
    rw [dropMarker_of_undoing hundo]
    exact Disk.ext rfl rfl hmarker.symm
  | unlinked ready hmarker hchanged =>
    refine ⟨hchanged, .inl ?_⟩
    rw [dropMarker_of_undoing hundo]
    exact Disk.ext rfl rfl hmarker.symm
  | @kept info staged oldVersion result ready hmarker hchanged =>
    exact ⟨hchanged, .inr ⟨ready.backup, hmarker, info, ready.executable, ready.regular, rfl⟩⟩
  | unswapped ready hmarker hchanged =>
    refine ⟨hchanged, .inl ?_⟩
    rw [dropMarker_of_undoing hundo, dropBackup_of_undoing hundo]
    exact Disk.ext rfl ready.backup.symm hmarker.symm
  | stuck ready hmarker hchanged hsite hfault => exact absurd (hundo _ (.inl hsite)) hfault
  | @rolledBack info staged oldVersion result ready hmarker hchanged =>
    refine ⟨hchanged, .inl ?_⟩
    rw [dropMarker_of_undoing hundo]
    exact Disk.ext ready.executable.symm ready.backup.symm hmarker.symm
  | done => cases hfailed

/-- The executable is the original one and nothing is reported as changed. A backup and a marker
that were a pair, or both missing, are so afterwards. -/
theorem failed_transaction_undone (host : Host Image) (faults : Faults) (tx : Transaction Image)
    (d : Disk Image) (hundo : Undoing faults)
    (hfailed : (applyTransaction host faults tx d).failed = true) :
    ((applyTransaction host faults tx d).log.final d).executable = d.executable ∧
      (applyTransaction host faults tx d).result.changed = false ∧
      (Paired host ((applyTransaction host faults tx d).log.final d) ↔ Paired host d) := by
  obtain ⟨hchanged, hfinal | ⟨hbackup, hmarker, info, hexecutable, hregular, hfinal⟩⟩ :=
    failed_final hundo hfailed
  · rw [hfinal]
    exact ⟨rfl, hchanged, .rfl⟩
  · rw [hfinal]
    refine ⟨rfl, hchanged, iff_of_true ?_ (.inl ⟨hbackup, hmarker⟩)⟩
    exact paired_iff.mpr (.inr (ownedBackup_linked rfl hexecutable hregular))

def sampleDigest (c : Char) : String := String.ofList (List.replicate 64 c)

theorem sampleDigest_length (c : Char) : (sampleDigest c).length = 64 := by
  rw [sampleDigest, String.length_ofList, List.length_replicate]

def sampleHost : Host Bool where
  executablePath := "/opt/mi-lsp"
  pathIdentity := sampleDigest 'c'
  fileHash image := if image then sampleDigest 'b' else sampleDigest 'a'
  readback image := if image then some "2.0.0" else some "1.0.0"
  pathIdentity_length := sampleDigest_length 'c'
  fileHash_length image := by cases image <;> exact sampleDigest_length _

def sampleInstalled : Disk Bool := ⟨some ⟨1, true, false⟩, none, none⟩

def sampleUpdate : Transaction Bool where
  archive := some ⟨true, 1, sampleDigest 'd', some true⟩
  expectedArchiveSHA256 := sampleDigest 'd'
  targetVersion := "2.0.0"
  stageID := 2

def busyRename : Faults := fun site ↦ if site = .renameStage then some .textBusy else none

theorem busyRename_undoing : Undoing busyRename := by
  intro site h
  cases site with
  | renameStage => simp [Site.restores, Site.removes] at h
  | _ => rfl

theorem busy_transaction_undone :
    ((applyTransaction sampleHost busyRename sampleUpdate sampleInstalled).log.final
      sampleInstalled).executable = sampleInstalled.executable :=
  (failed_transaction_undone sampleHost busyRename sampleUpdate sampleInstalled busyRename_undoing
    (by decide +kernel)).1

theorem lone_marker_stays :
    let orphan := (applyTransaction sampleHost noFaults sampleUpdate sampleInstalled).log.cut
      sampleInstalled .createMarker
    (applyTransaction sampleHost noFaults sampleUpdate orphan).failed = true ∧
      ((applyTransaction sampleHost noFaults sampleUpdate orphan).log.final orphan).backup = none ∧
      ((applyTransaction sampleHost noFaults sampleUpdate orphan).log.final orphan).marker =
        some ⟨0, none⟩ ∧
      (cleanupOld sampleHost noFaults false
        ((applyTransaction sampleHost noFaults sampleUpdate orphan).log.final orphan)).1 ≠
          none := by
  decide +kernel

end MiLsp.SelfUpdate
