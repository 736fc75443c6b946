import MiLsp.Rename.Staging

namespace MiLsp.Rename

open Library Strings Attempt Files StagedRenameFile List Disk

variable {host : RenameHost} {faults : Faults} {root : String}

def bytesAt (host : RenameHost) (d : RenameDisk) (path : String) : Option Bytes :=
  (d.content (host.place path)).map Stored.bytes

structure Committed (host : RenameHost) (lo : ℕ) (d : RenameDisk) (file : StagedRenameFile) :
    Prop where
  stage_eq : file.stage = ""
  backup_ne : file.backup ≠ ""
  target : HoldsNew lo d (host.place file.path) ⟨file.updated, file.mode⟩
  backup : HoldsNew lo d (host.place file.backup) ⟨file.original, file.mode⟩

def Separate (host : RenameHost) (a b : StagedRenameFile) : Prop :=
  host.place a.path ≠ host.place b.path ∧ host.place a.backup ≠ host.place b.backup ∧
    host.place a.path ≠ host.place b.backup ∧ host.place a.backup ≠ host.place b.path

theorem Committed.frame {lo : ℕ} {d d' : RenameDisk} {file : StagedRenameFile}
    (h : Committed host lo d file)
    (htarget : d'.file (host.place file.path) = d.file (host.place file.path))
    (hbackup : d'.file (host.place file.backup) = d.file (host.place file.backup)) :
    Committed host lo d' file :=
  ⟨h.stage_eq, h.backup_ne, h.target.mono le_rfl htarget, h.backup.mono le_rfl hbackup⟩

section Rollback

def Settled (host : RenameHost) (d d' : RenameDisk) (recovery : List NativeRecoveryArtifact)
    (file file' : StagedRenameFile) : Prop :=
  file'.path = file.path ∧ file'.stage = file.stage ∧
    (d'.content (host.place file.path) = some ⟨file.original, file.mode⟩ ∧ file'.backup = "" ∨
      d'.file (host.place file.path) = d.file (host.place file.path) ∧
        d'.file (host.place file.backup) = d.file (host.place file.backup) ∧
        file'.backup = file.backup ∧ file'.preserveBackup = true ∧
        ∃ a ∈ recovery, a.file = file.relative ∧ a.path = file.backup ∧ a.kind = .backup)

theorem Settled.mono {d d' d'' : RenameDisk} {recovery recovery' : List NativeRecoveryArtifact}
    {file file' : StagedRenameFile} (h : Settled host d d' recovery file file')
    (htarget : d''.file (host.place file.path) = d.file (host.place file.path))
    (hbackup : d''.file (host.place file.backup) = d.file (host.place file.backup))
    (hrecovery : ∀ a ∈ recovery, a ∈ recovery') : Settled host d'' d' recovery' file file' := by
  obtain ⟨hpath, hstage, hrestored | ⟨ht, hb, hbackup', hpreserve, a, ha, hlisted⟩⟩ := h
  · exact ⟨hpath, hstage, .inl hrestored⟩
  · exact ⟨hpath, hstage, .inr ⟨ht.trans htarget.symm, hb.trans hbackup.symm, hbackup', hpreserve,
      a, hrecovery a ha, hlisted⟩⟩

/-- The rollback restores or lists a file, and touches only committed files and their copies. -/
theorem rollbackNativeRename_spec {lo : ℕ} {committed files : List StagedRenameFile}
    {d d' : RenameDisk} {recovery : List NativeRecoveryArtifact}
    (hcommitted : ∀ file ∈ committed, Committed host lo d file)
    (hseparate : committed.Pairwise (Separate host))
    (h : rollbackNativeRename host faults root committed d = (recovery, files, d')) :
    List.Forall₂ (Settled host d d' recovery) committed files ∧
      (recovery = [] → ∀ file ∈ committed,
        d'.content (host.place file.path) = some ⟨file.original, file.mode⟩) ∧
      ∀ q, (∀ file ∈ committed, q ≠ host.place file.path ∧ q ≠ host.place file.backup) →
        d'.file q = d.file q := by
  induction committed generalizing files d recovery with
  | nil =>
    cases h
    exact ⟨.nil, by simp, fun _ _ ↦ rfl⟩
  | cons file rest ih =>
    obtain ⟨hfile, hrest⟩ := forall_mem_cons.mp hcommitted
    obtain ⟨happart, hseparate⟩ := pairwise_cons.mp hseparate
    rw [rollbackNativeRename] at h
    cases hrefusal : rollbackRefusal host faults root file d with
    | some refusal =>
      rw [hrefusal] at h
      dsimp only at h
      rcases hall : rollbackNativeRename host faults root rest d with ⟨recovery₁, files₁, d₁⟩
      rw [hall] at h
      cases h
      obtain ⟨hsettled, -, hframe⟩ := ih hrest hseparate hall
      have hkeeps : ∀ q, q = host.place file.path ∨ q = host.place file.backup →
          d₁.file q = d.file q := by
        rintro q (rfl | rfl)
        · exact hframe _ fun other hother ↦ ⟨(happart other hother).1, (happart other hother).2.2.1⟩
        · exact hframe _ fun other hother ↦ ⟨(happart other hother).2.2.2,
            (happart other hother).2.1⟩
      refine ⟨.cons ⟨rfl, rfl, .inr ⟨hkeeps _ (.inl rfl), hkeeps _ (.inr rfl), rfl, ?_, ?_⟩⟩ ?_,
        by simp, fun q hq ↦ ?_⟩
      · exact decide_eq_true hfile.backup_ne
      · exact ⟨_, mem_cons_self, rfl, rfl, rfl⟩
      · exact hsettled.imp fun a b hab ↦
          hab.mono rfl rfl fun x hx ↦ mem_cons_of_mem _ hx
      · exact hframe q fun other hother ↦ hq other (mem_cons_of_mem _ hother)
    | none =>
      rw [hrefusal] at h
      dsimp only at h
      set d₀ := d.rename (host.place file.backup) (host.place file.path) with hd₀
      rcases hall : rollbackNativeRename host faults root rest d₀ with ⟨recovery₁, files₁, d₁⟩
      rw [hall] at h
      cases h
      -- the rename concerns the target and the copy of this file alone
      have hother : ∀ q, q ≠ host.place file.path → q ≠ host.place file.backup →
          d₀.file q = d.file q := fun q hpath hbackup ↦ file_rename_other hpath hbackup
      have hkept : ∀ other ∈ rest,
          d₀.file (host.place other.path) = d.file (host.place other.path) ∧
            d₀.file (host.place other.backup) = d.file (host.place other.backup) := by
        intro other hmem
        obtain ⟨hpaths, hbackups, hcross, hcross'⟩ := happart other hmem
        exact ⟨hother _ hpaths.symm hcross'.symm, hother _ hcross.symm hbackups.symm⟩
      obtain ⟨hsettled, hall_restored, hframe⟩ := ih (fun other hmem ↦
        (hrest other hmem).frame (hkept other hmem).1 (hkept other hmem).2) hseparate hall
      have hrestored : d₁.content (host.place file.path) = some ⟨file.original, file.mode⟩ := by
        rw [content, hframe _ fun other hmem ↦
          ⟨(happart other hmem).1, (happart other hmem).2.2.1⟩, hd₀, file_rename, if_pos rfl]
        exact hfile.backup.content_eq
      refine ⟨.cons ⟨rfl, rfl, .inl ⟨hrestored, rfl⟩⟩ ?_, ?_, fun q hq ↦ ?_⟩
      · rw [forall₂_iff_get] at hsettled ⊢
        refine ⟨hsettled.1, fun i h₁ h₂ ↦ ?_⟩
        have hmem := get_mem rest ⟨i, h₁⟩
        exact (hsettled.2 i h₁ h₂).mono (hkept _ hmem).1.symm (hkept _ hmem).2.symm fun _ ha ↦ ha
      · exact fun hnil ↦ forall_mem_cons.mpr ⟨hrestored, hall_restored hnil⟩
      · obtain ⟨hq_file, hq_rest⟩ := forall_mem_cons.mp hq
        rw [hframe q hq_rest, hother q hq_file.1 hq_file.2]

end Rollback

section Commit

structure Prepared (host : RenameHost) (d₀ : RenameDisk) (staged : List StagedRenameFile) :
    Prop where
  planned : ∀ file ∈ staged, file.core.Planned host d₀
  copied : ∀ file ∈ staged, file.Copied host d₀
  unpreserved : ∀ file ∈ staged, file.preserveBackup = false

variable {d₀ d : RenameDisk} {file : StagedRenameFile}

section

variable {staged : List StagedRenameFile} (h : Prepared host d₀ staged)
include h

theorem Prepared.on_disk (hfile : file ∈ staged) :
    d₀.file (host.place file.path) = some ⟨file.identity, ⟨file.original, file.mode⟩⟩ :=
  (h.planned file hfile).on_disk

theorem Prepared.target_ne_none (hfile : file ∈ staged) :
    d₀.file (host.place file.path) ≠ none := by
  rw [h.on_disk hfile]
  exact Option.some_ne_none _

theorem Prepared.spared {q : String} (hq : d₀.file q ≠ none) : Spared host staged q := by
  intro file hfile
  refine ⟨fun hne heq ↦ hq ?_, fun hne _ heq ↦ hq ?_⟩
  · rw [heq]
    exact (h.copied file hfile).stage hne
  · rw [heq]
    exact (h.copied file hfile).backup hne

theorem Prepared.backup_ne (hfile : file ∈ staged) (hbackup : file.backup ≠ "") {q : String}
    (hq : d₀.file q ≠ none) : q ≠ host.place file.backup :=
  (h.spared hq file hfile).2 hbackup (h.unpreserved file hfile)

end

theorem copies_apart {front back : List StagedRenameFile}
    (hcopies : ((front ++ file :: back).flatMap (copies host)).Nodup) {other : StagedRenameFile}
    (hother : other ∈ front ++ back) {q : String} (hq : q ∈ copies host other) :
    q ≠ host.place file.stage ∧ q ≠ host.place file.backup := by
  have hsplit : ((front ++ back).flatMap (copies host) ++ copies host file).Nodup := by
    refine (List.Perm.nodup_iff ?_).mp hcopies
    rw [flatMap_append, flatMap_append, flatMap_cons, append_assoc]
    exact List.Perm.append_left _ perm_append_comm
  have hdisjoint := (nodup_append.mp hsplit).2.2 q (mem_flatMap.mpr ⟨other, hother, hq⟩)
  exact ⟨hdisjoint _ (by simp [copies]), hdisjoint _ (by simp [copies])⟩

structure CommittedFrom (origin file : StagedRenameFile) : Prop where
  core_eq : file.core = origin.core
  backup_eq : file.backup = origin.backup
  unpreserved : file.preserveBackup = origin.preserveBackup

theorem CommittedFrom.plan_eq {origin : StagedRenameFile} (h : CommittedFrom origin file) :
    file.path = origin.path ∧ file.relative = origin.relative ∧ file.original = origin.original ∧
      file.updated = origin.updated ∧ file.mode = origin.mode := by
  have hcore := h.core_eq
  simp only [core, StagedRenameFile.mk.injEq] at hcore
  obtain ⟨hpath, hrelative, horiginal, hupdated, hmode, -⟩ := hcore
  exact ⟨hpath, hrelative, horiginal, hupdated, hmode⟩

/-- `done` has been committed, the last one first, and became `committed`; the rest is as it was. -/
structure Progress (host : RenameHost) (d₀ : RenameDisk)
    (done committed pending : List StagedRenameFile) (d : RenameDisk) : Prop where
  from_done : List.Forall₂ CommittedFrom done committed
  holds_new : ∀ file ∈ committed, Committed host d₀.fresh d file
  separate : committed.Pairwise (Separate host)
  staged : ∀ file ∈ pending, file.Staged host d₀.fresh d
  frame : ∀ q, d₀.file q ≠ none → (∀ file ∈ committed, q ≠ host.place file.path) →
    d.file q = d₀.file q

theorem nativeRenameOriginalUnchanged_spec {phase : Phase} (hplanned : file.core.Planned host d₀)
    (h : nativeRenameOriginalUnchanged host faults root phase file d = .ok ()) :
    ∃ info, d.file (host.place file.path) = some info ∧ info.ino = file.identity := by
  simp only [nativeRenameOriginalUnchanged, bind_eq_ok, guarded_eq_ok, mapError_eq_ok,
    Prod.exists] at h
  obtain ⟨abs, rel, info, hpath, hino, -⟩ := h
  obtain ⟨hfile, -, -, habs⟩ := nativeRenamePath_spec hpath
  rw [habs hplanned.isAbs_path hplanned.cleanPath_path] at hfile
  exact ⟨info, hfile, (not_not.mp hino).symm⟩

section

variable {done committed pending : List StagedRenameFile}

theorem Progress.path_ne (h : Progress host d₀ done committed (file :: pending) d)
    (hplanned : file.core.Planned host d₀)
    (hsame : ∃ info, d.file (host.place file.path) = some info ∧ info.ino = file.identity)
    {other : StagedRenameFile} (hother : other ∈ committed) :
    host.place file.path ≠ host.place other.path := by
  intro heq
  obtain ⟨info, hinfo, hino⟩ := hsame
  obtain ⟨ino, hlo, hfile⟩ := (h.holds_new other hother).target
  rw [heq, hfile, Option.some_inj] at hinfo
  have hlt := d₀.ino_lt _ _ hplanned.on_disk
  have hnew : ino = file.identity := by rw [← hino, ← hinfo]
  have hold : file.identity < d₀.fresh := hlt
  omega

section

variable (hprepared : Prepared host d₀ (done.reverse ++ file :: pending))
  (hcopies : ((done.reverse ++ file :: pending).flatMap (copies host)).Nodup)
  (h : Progress host d₀ done committed (file :: pending) d)
include hprepared hcopies h

theorem Progress.committed_apart {other : StagedRenameFile} (hother : other ∈ committed) :
    d₀.file (host.place other.path) ≠ none ∧
      host.place other.backup ≠ host.place file.stage ∧
      host.place other.backup ≠ host.place file.backup ∧
      host.place other.backup ≠ host.place file.path := by
  obtain ⟨origin, horigin, hfrom⟩ := exists_of_mem_right h.from_done hother
  have hdone {rest : List StagedRenameFile} : origin ∈ done.reverse ++ rest :=
    mem_append_left _ (mem_reverse.mpr horigin)
  have hback : host.place other.backup ∈ copies host origin := by
    simp [copies, hfrom.backup_eq]
  obtain ⟨hstage, hbackup⟩ := copies_apart hcopies hdone hback
  refine ⟨?_, hstage, hbackup, ?_⟩
  · rw [hfrom.plan_eq.1]
    exact hprepared.target_ne_none hdone
  · have hne := (h.holds_new other hother).backup_ne
    rw [hfrom.backup_eq] at hne ⊢
    exact (hprepared.backup_ne hdone hne (hprepared.target_ne_none (by simp))).symm

theorem Progress.pending_apart {other : StagedRenameFile} (hother : other ∈ pending) {q : String}
    (hq : q ∈ copies host other) : q ≠ host.place file.path ∧ q ≠ host.place file.stage := by
  have htarget : d₀.file (host.place file.path) ≠ none := hprepared.target_ne_none (by simp)
  have hmem : other ∈ done.reverse ++ file :: pending :=
    mem_append_right _ (mem_cons_of_mem _ hother)
  have hstaged := h.staged other (mem_cons_of_mem _ hother)
  refine ⟨?_, (copies_apart hcopies (mem_append_right _ hother) hq).1⟩
  simp only [copies, mem_cons, not_mem_nil, or_false] at hq
  rcases hq with rfl | rfl
  · exact ((hprepared.spared htarget other hmem).1 hstaged.stage_ne).symm
  · exact (hprepared.backup_ne hmem hstaged.backup_ne htarget).symm

theorem Progress.commit
    (hsame : ∃ info, d.file (host.place file.path) = some info ∧ info.ino = file.identity)
    (identity : Option ℕ) :
    Progress host d₀ (file :: done)
      ({ file with stage := "", committedIdentity := identity } :: committed) pending
      (d.rename (host.place file.stage) (host.place file.path)) := by
  have hfile : file ∈ done.reverse ++ file :: pending := by simp
  obtain ⟨hstaged, hpending⟩ := forall_mem_cons.mp h.staged
  have hplanned := hprepared.planned file hfile
  have hstage : ∀ q, d₀.file q ≠ none → q ≠ host.place file.stage :=
    fun q hq ↦ (hprepared.spared hq file hfile).1 hstaged.stage_ne
  have hbackup : ∀ q, d₀.file q ≠ none → q ≠ host.place file.backup :=
    fun q hq ↦ hprepared.backup_ne hfile hstaged.backup_ne hq
  have hother : ∀ q, q ≠ host.place file.path → q ≠ host.place file.stage →
      (d.rename (host.place file.stage) (host.place file.path)).file q = d.file q :=
    fun q hpath hstage ↦ file_rename_other hpath hstage
  refine ⟨.cons ⟨rfl, rfl, rfl⟩ h.from_done, ?_, ?_, ?_, ?_⟩
  · rw [forall_mem_cons]
    refine ⟨⟨rfl, hstaged.backup_ne, ?_, ?_⟩, fun other hmem ↦ ?_⟩
    · obtain ⟨ino, hino, hstage⟩ := hstaged.stage
      exact ⟨ino, hino, (if_pos rfl).trans hstage⟩
    · apply hstaged.backup.mono le_rfl
      exact hother _ (hbackup _ (hprepared.target_ne_none hfile)).symm hstaged.places_ne.symm
    · obtain ⟨hdisk, hne, -, hpath⟩ := h.committed_apart hprepared hcopies hmem
      exact (h.holds_new other hmem).frame
        (hother _ (h.path_ne hplanned hsame hmem).symm (hstage _ hdisk)) (hother _ hpath hne)
  · refine pairwise_cons.mpr ⟨fun other hmem ↦ ?_, h.separate⟩
    obtain ⟨hdisk, -, hne, hpath⟩ := h.committed_apart hprepared hcopies hmem
    exact ⟨h.path_ne hplanned hsame hmem, hne.symm, hpath.symm, (hbackup _ hdisk).symm⟩
  · intro other hmem
    have hcopy {q : String} (hq : q ∈ copies host other) :=
      hother q (h.pending_apart hprepared hcopies hmem hq).1
        (h.pending_apart hprepared hcopies hmem hq).2
    exact (hpending other hmem).mono le_rfl (hcopy (by simp [copies])) (hcopy (by simp [copies]))
  · intro q hq hrest
    obtain ⟨hpath, hrest⟩ := forall_mem_cons.mp hrest
    rw [hother q hpath (hstage q hq)]
    exact h.frame q hq hrest

end

end

end Commit

section Outcome

/-- What the rename has come to before the cleanup; what it leaves to be found is out of its reach.
-/
structure RenameOutcome.Sound (host : RenameHost) (planned : List StagedRenameFile)
    (out : RenameOutcome) : Prop where
  spared : ∀ file ∈ planned, Spared host out.files (host.place file.path)
  success : out.error = none → out.touched = nativeTouched planned ∧
    ∀ file ∈ planned, bytesAt host out.disk file.path = some file.updated
  undone : ∀ message, out.error = some (.plain message) → out.touched = [] ∧
    ∀ file ∈ planned, bytesAt host out.disk file.path = some file.original
  listed : ∀ code message touched recovery applied cause,
    out.error = some (.apply code message touched recovery applied cause) →
    applied = false ∧ out.touched ≠ [] ∧ ∀ file ∈ planned,
      bytesAt host out.disk file.path ≠ some file.original →
      ∃ other ∈ planned, host.place other.path = host.place file.path ∧
        other.relative ∈ out.touched ∧ ∃ a ∈ recovery, a.file = other.relative ∧ a.kind = .backup ∧
          bytesAt host out.disk a.path = some file.original ∧
          Spared host out.files (host.place a.path)

section

variable {d : RenameDisk} {path : String} {content : Stored}

theorem HoldsNew.bytesAt_eq {lo : ℕ} (h : HoldsNew lo d (host.place path) content) :
    bytesAt host d path = some content.bytes := by
  rw [bytesAt, h.content_eq]
  rfl

theorem bytesAt_of_file {ino : ℕ} (h : d.file (host.place path) = some ⟨ino, content⟩) :
    bytesAt host d path = some content.bytes := by
  rw [bytesAt, Disk.content, h]
  rfl

end

variable {d₀ d : RenameDisk} {done committed pending : List StagedRenameFile}
  {file : StagedRenameFile} {staged : List StagedRenameFile}

theorem mem_done_of_committed (h : Progress host d₀ done committed pending d)
    (hfile : file ∈ committed) : ∃ origin ∈ done.reverse ++ pending, CommittedFrom origin file := by
  obtain ⟨origin, horigin, hfrom⟩ := exists_of_mem_right h.from_done hfile
  exact ⟨origin, mem_append_left _ (mem_reverse.mpr horigin), hfrom⟩

/-- A file that was not committed has its old bytes, unless it was under another name. -/
theorem Progress.original_or_committed (hprepared : Prepared host d₀ (done.reverse ++ pending))
    (h : Progress host d₀ done committed pending d) {d' : RenameDisk}
    (hframe : ∀ q, d₀.file q ≠ none → (∀ file ∈ committed, q ≠ host.place file.path) →
      d'.file q = d.file q)
    (hfile : file ∈ done.reverse ++ pending) :
    bytesAt host d' file.path = some file.original ∨
      ∃ other ∈ committed, host.place other.path = host.place file.path ∧
        other.original = file.original ∧
        ∃ origin ∈ done.reverse ++ pending, CommittedFrom origin other := by
  have hdisk := hprepared.on_disk hfile
  by_cases hother : ∃ other ∈ committed, host.place other.path = host.place file.path
  · obtain ⟨other, hother, heq⟩ := hother
    obtain ⟨origin, horigin, hfrom⟩ := mem_done_of_committed h hother
    refine .inr ⟨other, hother, heq, ?_, origin, horigin, hfrom⟩
    have hdisk' := hprepared.on_disk horigin
    rw [← hfrom.plan_eq.1, heq, hdisk, Option.some_inj] at hdisk'
    rw [hfrom.plan_eq.2.2.1]
    exact (congrArg (fun f ↦ f.content.bytes) hdisk').symm
  · have hne : ∀ other ∈ committed, host.place file.path ≠ host.place other.path :=
      fun other hmem heq ↦ hother ⟨other, hmem, heq.symm⟩
    have htarget := hprepared.target_ne_none hfile
    exact .inl (bytesAt_of_file
      ((hframe _ htarget hne).trans ((h.frame _ htarget hne).trans hdisk)))

theorem spared_of_settled {recovery : List NativeRecoveryArtifact}
    {restored : List StagedRenameFile} {d' : RenameDisk} {q : String}
    (hcommitted : ∀ file ∈ committed, Committed host d₀.fresh d file)
    (hsettled : List.Forall₂ (Settled host d d' recovery) committed restored)
    (hpending : Spared host pending q) : Spared host (restored.reverse ++ pending) q := by
  intro file hfile
  rcases mem_append.mp hfile with hrestored | hpend
  · obtain ⟨origin, horigin, -, hstage, hcase⟩ :=
      exists_of_mem_right hsettled (mem_reverse.mp hrestored)
    refine ⟨fun hne ↦ ?_, fun hne hpreserve ↦ ?_⟩
    · rw [hstage, (hcommitted origin horigin).stage_eq] at hne
      exact absurd rfl hne
    · rcases hcase with ⟨-, hempty⟩ | ⟨-, -, -, hpreserved, -⟩
      · exact absurd hempty hne
      · rw [hpreserve] at hpreserved
        cases hpreserved
  · exact hpending file hpend

theorem failCommit_sound (hprepared : Prepared host d₀ (done.reverse ++ pending))
    (hcopies : ((done.reverse ++ pending).flatMap (copies host)).Nodup)
    (h : Progress host d₀ done committed pending d) (message cause : String) :
    (failCommit host faults root committed pending d message cause).Sound host
      (done.reverse ++ pending) := by
  unfold failCommit
  rcases hrollback : rollbackNativeRename host faults root committed d with
    ⟨recovery, restored, d'⟩
  obtain ⟨hsettled, hall, hframe⟩ := rollbackNativeRename_spec h.holds_new h.separate hrollback
  dsimp only
  have hspared_pending : ∀ q, d₀.file q ≠ none → Spared host pending q := fun q hq file hfile ↦
    hprepared.spared hq file (mem_append_right _ hfile)
  have hspared : ∀ file ∈ done.reverse ++ pending,
      Spared host (restored.reverse ++ pending) (host.place file.path) := fun file hfile ↦
    spared_of_settled h.holds_new hsettled (hspared_pending _ (hprepared.target_ne_none hfile))
  have hframe' : ∀ q, d₀.file q ≠ none → (∀ file ∈ committed, q ≠ host.place file.path) →
      d'.file q = d.file q := by
    intro q hq hne
    apply hframe q fun file hfile ↦ ⟨hne file hfile, ?_⟩
    obtain ⟨origin, horigin, hfrom⟩ := mem_done_of_committed h hfile
    have hbackup := (h.holds_new file hfile).backup_ne
    rw [hfrom.backup_eq] at hbackup ⊢
    exact hprepared.backup_ne horigin hbackup hq
  split_ifs with hrecovery
  · refine ⟨hspared, fun hnone ↦ (by cases hnone), fun _ hplain ↦ (by cases hplain), ?_⟩
    rintro _ _ _ _ _ _ ⟨⟩
    refine ⟨rfl, ?_, fun file hfile hbytes ↦ ?_⟩
    · intro htouched
      rw [nativeTouched, map_eq_nil_iff, reverse_eq_nil_iff] at htouched
      subst htouched
      cases hrollback
      exact hrecovery rfl
    rcases h.original_or_committed hprepared hframe' hfile with
      horiginal | ⟨other, hother, heq, hbytes_eq, origin, horigin, hfrom⟩
    · exact absurd horiginal hbytes
    obtain ⟨file', -, -, -, hcase⟩ := exists_of_mem_left hsettled hother
    rcases hcase with ⟨hcontent, -⟩ | ⟨-, hbackup, -, -, a, ha, hname, hpath, hkind⟩
    · -- restored, so that it has its old bytes after all
      refine absurd ?_ hbytes
      rw [bytesAt, ← heq, hcontent, ← hbytes_eq]
      rfl
    · refine ⟨origin, horigin, by rw [← hfrom.plan_eq.1, heq], ?_, a, ha, ?_, hkind, ?_, ?_⟩
      · rw [← hfrom.plan_eq.2.1]
        exact mem_map_of_mem (mem_reverse.mpr hother)
      · rw [hname, hfrom.plan_eq.2.1]
      · rw [hpath, ← hbytes_eq]
        exact ((h.holds_new other hother).backup.mono le_rfl hbackup).bytesAt_eq
      · rw [hpath]
        apply spared_of_settled h.holds_new hsettled
        -- a copy of a committed file is no copy of a pending one
        intro p hp
        have hmem : host.place other.backup ∈ done.reverse.flatMap (copies host) := by
          obtain ⟨o, ho, hof⟩ := exists_of_mem_right h.from_done hother
          refine mem_flatMap.mpr ⟨o, mem_reverse.mpr ho, ?_⟩
          simp [copies, hof.backup_eq]
        rw [flatMap_append] at hcopies
        have hne := (nodup_append.mp hcopies).2.2 _ hmem
        refine ⟨fun _ ↦ hne _ ?_, fun _ _ ↦ hne _ ?_⟩
        · exact mem_flatMap.mpr ⟨p, hp, by simp [copies]⟩
        · exact mem_flatMap.mpr ⟨p, hp, by simp [copies]⟩
  · refine ⟨hspared, fun hnone ↦ (by cases hnone), ?_, fun _ _ _ _ _ _ hsome ↦ by cases hsome⟩
    rintro _ ⟨⟩
    refine ⟨rfl, fun file hfile ↦ ?_⟩
    rcases h.original_or_committed hprepared hframe' hfile with
      horiginal | ⟨other, hother, heq, hbytes_eq, -⟩
    · exact horiginal
    rw [bytesAt, ← heq, hall (not_not.mp hrecovery) other hother, ← hbytes_eq]
    rfl

theorem nativeTouched_committed (h : List.Forall₂ CommittedFrom done committed) :
    nativeTouched committed.reverse = nativeTouched done.reverse := by
  rw [nativeTouched, nativeTouched, map_reverse, map_reverse]
  congr 1
  induction h with
  | nil => rfl
  | cons hfrom _ ih => rw [map_cons, map_cons, hfrom.plan_eq.2.1, ih]

theorem commitFiles_sound (hprepared : Prepared host d₀ (done.reverse ++ pending))
    (hcopies : ((done.reverse ++ pending).flatMap (copies host)).Nodup)
    (h : Progress host d₀ done committed pending d) :
    (commitFiles host faults root committed pending d).Sound host (done.reverse ++ pending) := by
  induction pending generalizing done committed d with
  | nil =>
    refine ⟨fun file hfile other hother ↦ ?_, fun _ ↦ ⟨?_, fun file hfile ↦ ?_⟩, nofun, nofun⟩
    · have hother' := mem_reverse.mp hother
      obtain ⟨origin, horigin, hfrom⟩ := mem_done_of_committed h hother'
      refine ⟨fun hne ↦ absurd (h.holds_new other hother').stage_eq hne, fun hne _ ↦ ?_⟩
      rw [hfrom.backup_eq] at hne ⊢
      exact (hprepared.spared (hprepared.target_ne_none hfile) origin horigin).2 hne
        (hprepared.unpreserved origin horigin)
    · rw [append_nil]
      exact nativeTouched_committed h.from_done
    · rw [append_nil] at hfile
      obtain ⟨other, hother, hfrom⟩ :=
        exists_of_mem_left h.from_done (mem_reverse.mp hfile)
      rw [← hfrom.plan_eq.1, ← hfrom.plan_eq.2.2.2.1]
      exact (h.holds_new other hother).target.bytesAt_eq
  | cons file pending ih =>
    rw [commitFiles]
    split
    · exact failCommit_sound hprepared hcopies h _ _
    next unchanged =>
      have hsame := nativeRenameOriginalUnchanged_spec (hprepared.planned file (by simp)) unchanged
      have hshift : done.reverse ++ file :: pending = (file :: done).reverse ++ pending := by simp
      split_ifs
      · exact failCommit_sound hprepared hcopies h _ _
      · split
        · exact failCommit_sound hprepared hcopies h _ _
        · have hnext := h.commit hprepared hcopies hsame
          rw [hshift] at hprepared hcopies ⊢
          dsimp only
          split
          · exact failCommit_sound hprepared hcopies (hnext file.committedIdentity) _ _
          · split_ifs
            · exact failCommit_sound hprepared hcopies (hnext file.committedIdentity) _ _
            · exact ih hprepared hcopies (hnext _)

theorem progress_start (hext : Extends d₀ d)
    (hstaged : ∀ file ∈ staged, file.Staged host d₀.fresh d) : Progress host d₀ [] [] staged d :=
  ⟨.nil, by simp, .nil, hstaged, fun q hq _ ↦ hext.frame q hq⟩

theorem RenameOutcome.Sound.of_unchanged {message : String}
    (hprepared : Prepared host d₀ staged) (hext : Extends d₀ d) :
    RenameOutcome.Sound host staged ⟨[], some (.plain message), staged, d⟩ := by
  refine ⟨fun file hfile ↦ hprepared.spared (hprepared.target_ne_none hfile), nofun, ?_, nofun⟩
  refine fun _ _ ↦ ⟨rfl, fun file hfile ↦ ?_⟩
  exact bytesAt_of_file (hext.file (hprepared.planned file hfile).on_disk)

theorem RenameOutcome.Sound.core {out : RenameOutcome}
    (h : out.Sound host staged) : out.Sound host (staged.map StagedRenameFile.core) := by
  refine ⟨forall_mem_map.mpr h.spared, fun herror ↦ ?_, fun message herror ↦ ?_, ?_⟩
  · obtain ⟨htouched, hupdated⟩ := h.success herror
    refine ⟨?_, forall_mem_map.mpr hupdated⟩
    rw [htouched, nativeTouched, nativeTouched, map_map]
    rfl
  · exact ⟨(h.undone message herror).1, forall_mem_map.mpr (h.undone message herror).2⟩
  · intro code message touched recovery applied cause herror
    obtain ⟨happlied, htouched, hlisted⟩ := h.listed _ _ _ _ _ _ herror
    refine ⟨happlied, htouched, forall_mem_map.mpr fun file hfile hbytes ↦ ?_⟩
    obtain ⟨other, hother, hrest⟩ := hlisted file hfile hbytes
    exact ⟨other.core, mem_map_of_mem hother, hrest⟩

theorem stageAndCommit_sound {files : List StagedRenameFile}
    (hplanned : ∀ file ∈ files, file.Planned host d₀) :
    (stageAndCommit host faults root files d₀).Sound host files := by
  unfold stageAndCommit
  rcases hstage : stageFiles host faults files d₀ with ⟨error, staged, d⟩
  obtain ⟨hext, hcore, hunpreserved, hcopied, hdone⟩ :=
    stageFiles_spec (fun file hfile ↦ (hplanned file hfile).core_eq) hstage
  have hprepared : Prepared host d₀ staged := by
    refine ⟨fun file hfile ↦ hplanned _ ?_, hcopied, hunpreserved⟩
    rw [← hcore]
    exact mem_map_of_mem hfile
  rw [← hcore]
  cases error with
  | some e => exact (RenameOutcome.Sound.of_unchanged hprepared hext).core
  | none =>
    obtain ⟨hstaged, hcopies⟩ := hdone rfl
    dsimp only
    split
    · exact (RenameOutcome.Sound.of_unchanged hprepared hext).core
    · exact (@commitFiles_sound host faults root d₀ d [] [] staged hprepared hcopies
        (progress_start hext hstaged)).core

end Outcome

/-- The rename is done, or undone, or what is not undone is listed, maybe under another path of the
plan. -/
structure Accounted (host : RenameHost) (planned : List StagedRenameFile) (r : RenameResult) :
    Prop where
  done : (r.error = none ∨ ∃ e, r.error = some e ∧ e.isApplied = true) →
    ∀ file ∈ planned, bytesAt host r.disk file.path = some file.updated
  undone : ∀ e, r.error = some e → r.touched = [] →
    ∀ file ∈ planned, bytesAt host r.disk file.path = some file.original
  listed : ∀ e, r.error = some e → e.isApplied = false →
    ∀ file ∈ planned, bytesAt host r.disk file.path ≠ some file.original →
    ∃ other ∈ planned, host.place other.path = host.place file.path ∧
      other.relative ∈ r.touched ∧ ∃ a ∈ e.recovery, a.file = other.relative ∧ a.kind = .backup ∧
        bytesAt host r.disk a.path = some file.original

theorem RenameOutcome.Sound.finish {planned : List StagedRenameFile} {out : RenameOutcome}
    (h : out.Sound host planned) : Accounted host planned (out.finish host faults) := by
  unfold RenameOutcome.finish
  rcases hcleanup : cleanupFiles host faults out.files out.disk with ⟨cleanup, d⟩
  dsimp only
  have hkeeps : ∀ path, Spared host out.files (host.place path) →
      bytesAt host d path = bytesAt host out.disk path := by
    intro path hspared
    have hframe := @cleanupFiles_frame host faults _ out.disk out.files hspared
    rw [hcleanup] at hframe
    rw [bytesAt, bytesAt, content, content, hframe]
  have hplanned : ∀ file ∈ planned, bytesAt host d file.path = bytesAt host out.disk file.path :=
    fun file hfile ↦ hkeeps _ (h.spared file hfile)
  cases herror : out.error with
  | none =>
    obtain ⟨htouched, hupdated⟩ := h.success herror
    have hall : ∀ file ∈ planned, bytesAt host d file.path = some file.updated :=
      fun file hfile ↦ (hplanned file hfile).trans (hupdated file hfile)
    refine ⟨fun _ ↦ hall, fun e _ hnil file hfile ↦ ?_, fun e he happlied ↦ ?_⟩
    · rw [htouched, nativeTouched, map_eq_nil_iff] at hnil
      rw [hnil] at hfile
      cases hfile
    · split_ifs at he
      cases he
      cases happlied
  | some e =>
    cases e with
    | plain message =>
      obtain ⟨htouched, horiginal⟩ := h.undone message herror
      have hall : ∀ file ∈ planned, bytesAt host d file.path = some file.original :=
        fun file hfile ↦ (hplanned file hfile).trans (horiginal file hfile)
      refine ⟨?_, fun _ _ _ ↦ hall, fun _ _ _ file hfile hbytes ↦ absurd (hall file hfile) hbytes⟩
      split_ifs
      · rintro (⟨⟨⟩⟩ | ⟨e, ⟨⟩, ⟨⟩⟩)
      · rintro (⟨⟨⟩⟩ | ⟨e, ⟨⟩, ⟨⟩⟩)
    | apply code message touched recovery applied cause =>
      obtain ⟨rfl, htouched, hlisted⟩ := h.listed _ _ _ _ _ _ herror
      refine ⟨?_, fun _ _ hnil ↦ absurd hnil htouched, ?_⟩
      · split_ifs
        · rintro (⟨⟨⟩⟩ | ⟨e, ⟨⟩, ⟨⟩⟩)
        · rintro (⟨⟨⟩⟩ | ⟨e, ⟨⟩, ⟨⟩⟩)
      · intro e he _ file hfile hbytes
        rw [hplanned file hfile] at hbytes
        obtain ⟨other, hother, hplace, htouched, a, ha, hname, hkind, hcopy, hspared⟩ :=
          hlisted file hfile hbytes
        refine ⟨other, hother, hplace, htouched, a, ?_, hname, hkind,
          (hkeeps _ hspared).trans hcopy⟩
        split_ifs at he
        · cases he
          exact ha
        · cases he
          exact mem_append_left _ ha

variable (host faults root)

/-- A rename refused in planning changes nothing. A planned one is done, or undone, or every file
without its old bytes is listed with a rollback copy that holds them. -/
theorem rename_accounted (symbol newName : String) (expectedFiles : List String)
    (response : WorkerResponse) (d : RenameDisk) :
    match planRename host faults root symbol newName response d expectedFiles with
    | .error _ =>
      (applyNativeRenamePlan host faults root symbol newName expectedFiles response d).disk = d
    | .ok planned => (∀ file ∈ planned, bytesAt host d file.path = some file.original) ∧
      Accounted host planned
        (applyNativeRenamePlan host faults root symbol newName expectedFiles response d) := by
  unfold applyNativeRenamePlan
  cases hplan : planRename host faults root symbol newName response d expectedFiles with
  | error e => rfl
  | ok files =>
    have hplanned := planRename_spec hplan
    refine ⟨fun file hfile ↦ bytesAt_of_file (hplanned file hfile).on_disk, ?_⟩
    exact (stageAndCommit_sound hplanned).finish

section Samples

def sampleHost : RenameHost where
  cwd := "/"
  isAbs_cwd := rfl
  uriToNativePath uri := trimPrefix uri "file://"
  place path := if path = "/w/b/x.go" then "/w/a/x.go" else path
  physicalRoot root := root
  nativeDigest bytes := String.ofList (bytes.map fun b ↦ Char.ofNat b.toNat)
  tempName d _ _ := String.ofList ('t' :: List.replicate d.fresh '0')
  tempName_ne d _ _ h := by
    have hlist := congrArg String.toList h
    simp at hlist

def sampleDisk : RenameDisk where
  file path := if path = "/w/a/x.go" then some ⟨0, ⟨utf8 "f", 0o644⟩⟩ else none
  fresh := 1
  ino_lt path file h := by
    split_ifs at h
    cases h
    exact Nat.one_pos

def sampleDocument (uri : String) : Option NativeDocumentEdit :=
  some ⟨uri, some 1, [⟨⟨0, 0⟩, ⟨0, 1⟩, "g"⟩]⟩

def sampleResponse : WorkerResponse where
  renamePlaceholder := "f"
  workspaceEdit := some ⟨0, [sampleDocument "file:///w/a/x.go", sampleDocument "file:///w/b/x.go"]⟩
  documentVersions _ := 1
  documentSnapshots _ := "f"

def sampleFaults : Faults where
  error site _ := if site = .renameBackup then some "busy" else none
  partly _ _ := []

def samplePlan : Except String (List StagedRenameFile) :=
  planRename sampleHost sampleFaults "/w" "f" "g" sampleResponse sampleDisk
    ["/w/a/x.go", "/w/b/x.go"]

def sampleResult : RenameResult :=
  applyNativeRenamePlan sampleHost sampleFaults "/w" "f" "g" ["/w/a/x.go", "/w/b/x.go"]
    sampleResponse sampleDisk

/-- Two paths of the plan name one file, which is then listed under the committed path only. -/
theorem linked_path_not_listed :
    ∃ planned file e, samplePlan = .ok planned ∧ file ∈ planned ∧ sampleResult.error = some e ∧
      e.isApplied = false ∧ sampleResult.touched ≠ [] ∧
      bytesAt sampleHost sampleResult.disk file.path ≠ some file.original ∧
      file.relative ∉ sampleResult.touched := by
  have hrun : (samplePlan.toOption.any fun planned ↦ planned.any fun file ↦
      sampleResult.error.any (fun e ↦ e.isApplied = false) && sampleResult.touched ≠ [] &&
        bytesAt sampleHost sampleResult.disk file.path ≠ some file.original &&
        file.relative ∉ sampleResult.touched) = true := by
    decide +kernel
  obtain ⟨planned, hplan, hany⟩ := any_toOption.mp hrun
  obtain ⟨file, hfile, hfacts⟩ := any_eq_true.mp hany
  simp only [Bool.and_eq_true, decide_eq_true_eq] at hfacts
  obtain ⟨⟨⟨herror, htouched⟩, hbytes⟩, hmem⟩ := hfacts
  obtain ⟨e, he, happlied⟩ := (Option.any_eq_true _ _).mp herror
  exact ⟨planned, file, e, hplan, hfile, he, of_decide_eq_true happlied, htouched, hbytes, hmem⟩

end Samples

end MiLsp.Rename
