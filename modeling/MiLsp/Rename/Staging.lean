import MiLsp.Rename.Apply

namespace MiLsp.Rename

open Library Files List Disk

variable {host : RenameHost} {faults : Faults} {owner path q : String} {d d' : RenameDisk}
  {kind : TempKind} {content : Stored} {lo : ℕ} {files : List StagedRenameFile}
  {data : Library.Strings.Bytes} {identity : Option ℕ} {error : Option String} {cause : String}

theorem file_removeRenameArtifact {lstatSite removeSite : Site}
    (h : removeRenameArtifact host faults lstatSite removeSite owner path identity d = .ok d') :
    d'.fresh = d.fresh ∧ ∀ q, q ≠ host.place path → d'.file q = d.file q := by
  unfold removeRenameArtifact at h
  split at h
  · cases h
  · split at h
    · cases h
      exact ⟨rfl, fun q _ ↦ rfl⟩
    · split_ifs at h
      split at h
      · cases h
      · cases h
        exact ⟨rfl, fun q hq ↦ file_remove_other hq⟩

structure TempOutcome.Sound (host : RenameHost) (d : RenameDisk) (path : String) (content : Stored)
    (out : TempOutcome) : Prop where
  fresh : out.disk.fresh = d.fresh
  frame : ∀ q, q ≠ host.place path → out.disk.file q = d.file q
  path_eq : out.path ≠ "" → out.path = path
  done : out.error = none → out.path = path ∧ out.disk.content (host.place path) = some content ∧
    (out.disk.file (host.place path)).map File.ino = (d.file (host.place path)).map File.ino

theorem discardTemp_sound :
    (discardTemp host faults kind owner path cause d).Sound host d path content := by
  unfold discardTemp
  split
  · exact ⟨rfl, fun _ _ ↦ rfl, fun _ ↦ rfl, nofun⟩
  · split
    · exact ⟨rfl, fun _ _ ↦ rfl, fun _ ↦ rfl, nofun⟩
    next d' hremove =>
      obtain ⟨hfresh, hframe⟩ := file_removeRenameArtifact hremove
      exact ⟨hfresh, hframe, fun h ↦ absurd rfl h, nofun⟩

theorem abandonTemp_sound :
    (abandonTemp host faults kind owner path cause d).Sound host d path content := by
  have hdiscard := @discardTemp_sound host faults owner path d kind content cause
  unfold abandonTemp
  dsimp only
  split
  · exact ⟨hdiscard.fresh, hdiscard.frame, hdiscard.path_eq, nofun⟩
  · exact hdiscard

theorem TempOutcome.Sound.of_write {written : Stored}
    {out : TempOutcome} (h : out.Sound host (d.write (host.place path) written) path content) :
    out.Sound host d path content := by
  refine ⟨h.fresh, fun q hq ↦ (h.frame q hq).trans (file_write_other hq), h.path_eq, ?_⟩
  intro herror
  obtain ⟨hpath, hcontent, hino⟩ := h.done herror
  refine ⟨hpath, hcontent, ?_⟩
  rw [hino, file_write, if_pos rfl, Option.map_map]
  rfl

theorem fillTemp_sound {mode : ℕ} (hfile : d.file (host.place path) ≠ none) :
    (fillTemp host faults kind owner path data mode d).Sound host d path ⟨data, mode⟩ := by
  obtain ⟨file, hfile⟩ := Option.ne_none_iff_exists'.mp hfile
  have hwritten : (d.write (host.place path) ⟨data, mode⟩).content (host.place path) =
      some ⟨data, mode⟩ := by
    rw [content, file_write, if_pos rfl, hfile]
    rfl
  unfold fillTemp
  split
  · exact abandonTemp_sound
  · split
    · exact abandonTemp_sound.of_write
    · dsimp only
      refine @TempOutcome.Sound.of_write host path d ⟨data, mode⟩ ⟨data, mode⟩ _ ?_
      split
      · exact abandonTemp_sound
      · split
        · exact discardTemp_sound
        · split
          · exact ⟨rfl, fun _ _ ↦ rfl, fun _ ↦ rfl, fun hnone ↦ by cases hnone⟩
          · exact ⟨rfl, fun _ _ ↦ rfl, fun _ ↦ rfl, fun _ ↦ ⟨rfl, hwritten, rfl⟩⟩

structure Extends (d d' : RenameDisk) : Prop where
  fresh : d.fresh ≤ d'.fresh
  frame : ∀ q, d.file q ≠ none → d'.file q = d.file q

theorem Extends.refl (d : RenameDisk) : Extends d d := ⟨le_rfl, fun _ _ ↦ rfl⟩

theorem Extends.trans {d'' : RenameDisk} (h : Extends d d') (h' : Extends d' d'') :
    Extends d d'' := by
  refine ⟨h.fresh.trans h'.fresh, fun q hq ↦ ?_⟩
  rw [h'.frame q (by rwa [h.frame q hq]), h.frame q hq]

theorem Extends.free (h : Extends d d') (hq : d'.file q = none) : d.file q = none := by
  by_contra hfile
  rw [h.frame q hfile] at hq
  exact hfile hq

theorem Extends.file (h : Extends d d') {file : File Stored}
    (hq : d.file q = some file) : d'.file q = some file := by
  rw [h.frame q (by rw [hq]; exact Option.some_ne_none file), hq]

def HoldsNew (lo : ℕ) (d : RenameDisk) (q : String) (content : Stored) : Prop :=
  ∃ ino, lo ≤ ino ∧ d.file q = some ⟨ino, content⟩

section

variable (h : HoldsNew lo d q content)
include h

theorem HoldsNew.mono {lo' : ℕ} (hlo : lo' ≤ lo) (hd : d'.file q = d.file q) :
    HoldsNew lo' d' q content := by
  obtain ⟨ino, hino, hfile⟩ := h
  exact ⟨ino, hlo.trans hino, hd.trans hfile⟩

theorem HoldsNew.ne_none : d.file q ≠ none := by
  obtain ⟨ino, -, hfile⟩ := h
  rw [hfile]
  exact Option.some_ne_none _

theorem HoldsNew.content_eq : d.content q = some content := by
  obtain ⟨ino, -, hfile⟩ := h
  rw [Disk.content, hfile]
  rfl

end

theorem writeRenameTemp_spec {mode : ℕ} {out : TempOutcome}
    (h : writeRenameTemp host faults kind owner data mode d = out) :
    Extends d out.disk ∧ (out.path ≠ "" → d.file (host.place out.path) = none) ∧
      (out.error = none → out.path ≠ "" ∧
        HoldsNew d.fresh out.disk (host.place out.path) ⟨data, mode⟩) := by
  subst h
  unfold writeRenameTemp
  split
  · exact ⟨Extends.refl d, fun h ↦ absurd rfl h, nofun⟩
  · dsimp only
    set path := host.tempName d (String.ofList (Paths.dir owner.toList)) kind
    have hne : path ≠ "" := host.tempName_ne d _ kind
    split_ifs with hfree
    case neg => exact ⟨Extends.refl d, fun h ↦ absurd rfl h, nofun⟩
    set created := d.create (host.place path) ⟨[], 0o600⟩
    have hcreated : created.file (host.place path) = some ⟨d.fresh, ⟨[], 0o600⟩⟩ := if_pos rfl
    have hsound := @fillTemp_sound host faults owner path created kind data mode
      (by rw [hcreated]; exact Option.some_ne_none _)
    refine ⟨⟨?_, fun q hq ↦ ?_⟩, fun hpath ↦ ?_, fun herror ↦ ?_⟩
    · rw [hsound.fresh]
      exact Nat.le_succ d.fresh
    · have hother : q ≠ host.place path := fun heq ↦ hq (heq ▸ hfree)
      rw [hsound.frame q hother]
      exact file_create_other hother
    · rwa [hsound.path_eq hpath]
    · obtain ⟨hpath, hcontent, hino⟩ := hsound.done herror
      rw [hpath]
      refine ⟨hne, ?_⟩
      obtain ⟨ino, hfile⟩ := content_eq_some.mp hcontent
      rw [hfile, hcreated] at hino
      exact ⟨ino, (Option.some_inj.mp hino).ge, hfile⟩

namespace StagedRenameFile

variable {file : StagedRenameFile}

structure Copied (host : RenameHost) (d : RenameDisk) (file : StagedRenameFile) : Prop where
  stage : file.stage ≠ "" → d.file (host.place file.stage) = none
  backup : file.backup ≠ "" → d.file (host.place file.backup) = none

structure Staged (host : RenameHost) (lo : ℕ) (d : RenameDisk) (file : StagedRenameFile) :
    Prop where
  stage_ne : file.stage ≠ ""
  backup_ne : file.backup ≠ ""
  places_ne : host.place file.stage ≠ host.place file.backup
  stage : HoldsNew lo d (host.place file.stage) ⟨file.updated, file.mode⟩
  backup : HoldsNew lo d (host.place file.backup) ⟨file.original, file.mode⟩

theorem Staged.mono {lo' : ℕ} (h : file.Staged host lo d) (hlo : lo' ≤ lo)
    (hstage : d'.file (host.place file.stage) = d.file (host.place file.stage))
    (hbackup : d'.file (host.place file.backup) = d.file (host.place file.backup)) :
    file.Staged host lo' d' :=
  ⟨h.stage_ne, h.backup_ne, h.places_ne, h.stage.mono hlo hstage, h.backup.mono hlo hbackup⟩

def copies (host : RenameHost) (file : StagedRenameFile) : List String :=
  [host.place file.stage, host.place file.backup]

end StagedRenameFile

open StagedRenameFile

theorem stageFile_spec {file file' : StagedRenameFile} (hbackup : file.backup = "")
    (h : stageFile host faults file d = (error, file', d')) :
    Extends d d' ∧ file'.core = file.core ∧ file'.preserveBackup = file.preserveBackup ∧
      file'.Copied host d ∧ (error = none → file'.Staged host d.fresh d') := by
  unfold stageFile at h
  dsimp only at h
  obtain ⟨hext, hfree, hdone⟩ := writeRenameTemp_spec
    (rfl : writeRenameTemp host faults .stage file.path file.updated file.mode d = _)
  set out := writeRenameTemp host faults .stage file.path file.updated file.mode d
  split at h
  · cases h
    exact ⟨hext, rfl, rfl, ⟨hfree, fun hne ↦ absurd hbackup hne⟩, nofun⟩
  next herror =>
    obtain ⟨hne, hheld⟩ := hdone herror
    split at h
    · cases h
      exact ⟨hext, rfl, rfl, ⟨hfree, fun hne ↦ absurd hbackup hne⟩, nofun⟩
    next info hinfo =>
      obtain ⟨hext', hfree', hdone'⟩ := writeRenameTemp_spec
        (rfl : writeRenameTemp host faults .backup file.path file.original file.mode out.disk = _)
      set out' := writeRenameTemp host faults .backup file.path file.original file.mode out.disk
      have hcopied : ({ file with
          stage := out.path
          stageIdentity := some info.ino
          backup := out'.path } : StagedRenameFile).Copied host d :=
        ⟨hfree, fun hne ↦ hext.free (hfree' hne)⟩
      split at h
      · cases h
        exact ⟨hext.trans hext', rfl, rfl, hcopied, nofun⟩
      next herror' =>
        obtain ⟨hne', hheld'⟩ := hdone' herror'
        split at h
        · cases h
          exact ⟨hext.trans hext', rfl, rfl, hcopied, nofun⟩
        next info' hinfo' =>
          cases h
          refine ⟨hext.trans hext', rfl, rfl, ⟨hcopied.stage, hcopied.backup⟩, fun _ ↦ ?_⟩
          have hplaces : host.place out.path ≠ host.place out'.path := by
            intro heq
            exact hheld.ne_none (heq ▸ hfree' hne')
          exact ⟨hne, hne', hplaces, hheld.mono le_rfl (hext'.frame _ hheld.ne_none),
            hheld'.mono hext.fresh rfl⟩

/-- Every file stays as it was while the copies are made, and the copies are in different places. -/
theorem stageFiles_spec {files' : List StagedRenameFile} (hcore : ∀ file ∈ files, file.core = file)
    (h : stageFiles host faults files d = (error, files', d')) :
    Extends d d' ∧ files'.map core = files ∧ (∀ file ∈ files', file.preserveBackup = false) ∧
      (∀ file ∈ files', file.Copied host d) ∧
      (error = none → (∀ file ∈ files', file.Staged host d.fresh d') ∧
        (files'.flatMap (copies host)).Nodup) := by
  induction files generalizing files' d d' error with
  | nil =>
    cases h
    exact ⟨Extends.refl d, rfl, by simp, by simp, by simp⟩
  | cons file rest ih =>
    obtain ⟨hfile, hrest⟩ := forall_mem_cons.mp hcore
    have hclean : file.backup = "" ∧ file.preserveBackup = false := by
      rw [← hfile]
      exact ⟨rfl, rfl⟩
    have hempty : ∀ f ∈ rest, f.Copied host d := by
      intro f hf
      have hfcore := hrest f hf
      exact ⟨fun hne ↦ absurd (congrArg StagedRenameFile.stage hfcore).symm hne,
        fun hne ↦ absurd (congrArg StagedRenameFile.backup hfcore).symm hne⟩
    rw [stageFiles] at h
    rcases hone : stageFile host faults file d with ⟨error₁, file₁, d₁⟩
    obtain ⟨hext, hcore₁, hpreserve₁, hcopied₁, hstaged₁⟩ := stageFile_spec hclean.1 hone
    rw [hone] at h
    cases error₁ with
    | some e =>
      cases h
      refine ⟨hext, ?_, ?_, ?_, nofun⟩
      · rw [map_cons, hcore₁, hfile, map_congr_left hrest, map_id']
      · rw [forall_mem_cons]
        refine ⟨hpreserve₁.trans hclean.2, fun f hf ↦ ?_⟩
        rw [← hrest f hf]
        rfl
      · exact forall_mem_cons.mpr ⟨hcopied₁, hempty⟩
    | none =>
      rcases hall : stageFiles host faults rest d₁ with ⟨error₂, rest₂, d₂⟩
      obtain ⟨hext₂, hcore₂, hpreserve₂, hcopied₂, hstaged₂⟩ := ih hrest hall
      dsimp only at h
      rw [hall] at h
      cases h
      have hstaged := hstaged₁ rfl
      refine ⟨hext.trans hext₂, ?_, ?_, ?_, fun herror ↦ ⟨?_, ?_⟩⟩
      · rw [map_cons, hcore₁, hfile, hcore₂]
      · exact forall_mem_cons.mpr ⟨hpreserve₁.trans hclean.2, hpreserve₂⟩
      · refine forall_mem_cons.mpr ⟨hcopied₁, fun f hf ↦ ?_⟩
        exact ⟨fun hne ↦ hext.free ((hcopied₂ f hf).stage hne),
          fun hne ↦ hext.free ((hcopied₂ f hf).backup hne)⟩
      · refine forall_mem_cons.mpr ⟨?_, fun f hf ↦ ?_⟩
        · exact hstaged.mono le_rfl (hext₂.frame _ hstaged.stage.ne_none)
            (hext₂.frame _ hstaged.backup.ne_none)
        · exact ((hstaged₂ herror).1 f hf).mono hext.fresh rfl rfl
      · -- the copies of the other files were made where nothing was when these were there
        have hnew : ∀ q ∈ rest₂.flatMap (copies host), d₁.file q = none := by
          intro q hq
          obtain ⟨f, hf, hqf⟩ := mem_flatMap.mp hq
          have hf_staged := (hstaged₂ herror).1 f hf
          simp only [copies, mem_cons, not_mem_nil, or_false] at hqf
          rcases hqf with rfl | rfl
          · exact (hcopied₂ f hf).stage hf_staged.stage_ne
          · exact (hcopied₂ f hf).backup hf_staged.backup_ne
        rw [flatMap_cons, nodup_append]
        refine ⟨by simp [copies, hstaged.places_ne], (hstaged₂ herror).2, ?_⟩
        rintro q hq _ hq' rfl
        have hfree := hnew q hq'
        simp only [copies, mem_cons, not_mem_nil, or_false] at hq
        rcases hq with rfl | rfl
        · exact hstaged.stage.ne_none hfree
        · exact hstaged.backup.ne_none hfree

theorem cleanupCopy_frame {file : StagedRenameFile} (hq : path ≠ "" → q ≠ host.place path) :
    (cleanupCopy host faults kind file path identity d).2.file q = d.file q := by
  unfold cleanupCopy
  split_ifs with hpath
  · rfl
  · split
    next d' hremove => exact (file_removeRenameArtifact hremove).2 q (hq hpath)
    · rfl

def Spared (host : RenameHost) (files : List StagedRenameFile) (q : String) : Prop :=
  ∀ file ∈ files, (file.stage ≠ "" → q ≠ host.place file.stage) ∧
    (file.backup ≠ "" → file.preserveBackup = false → q ≠ host.place file.backup)

theorem cleanupFiles_frame (h : Spared host files q) :
    (cleanupFiles host faults files d).2.file q = d.file q := by
  induction files generalizing d with
  | nil => rfl
  | cons file rest ih =>
    obtain ⟨hfile, hrest⟩ := forall_mem_cons.mp h
    rw [cleanupFiles]
    rw [ih hrest, cleanupCopy_frame, cleanupCopy_frame hfile.1]
    intro hne
    split_ifs at hne ⊢ with hpreserve
    · exact absurd rfl hne
    · exact hfile.2 hne (by simpa using hpreserve)

end MiLsp.Rename
