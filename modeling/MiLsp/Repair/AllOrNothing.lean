import MiLsp.Repair.Metadata

namespace MiLsp.Repair

open Incremental Library Entries Session Strings Registry List

variable {host : Host} {pinned : Pinned}

section

variable {α : Type} {cause : Cause} {m : Op α} {I : World → Prop}

theorem relabel_spec {Ok : α → World → Prop} {w : World} (h : Yields Ok (fun _ ↦ I) m w) :
    Yields Ok (fun _ ↦ I) (relabel cause m) w := by
  refine h.result.bind fun outcome w h ↦ ?_
  cases outcome with
  | ok a => exact h
  | error _ => exact h

theorem relabel_keeps (hm : Keeps I m) :
    Keeps I (relabel cause m) := fun w h ↦ relabel_spec (hm w h)

end

section Steady

/-- A property of the files alone, which the operations that only look keep. -/
def Steady (I : World → Prop) : Prop := ∀ w, I w → I w.tick

variable {I : World → Prop} (hI : Steady I)
include hI

theorem attempt_keeps (cause : Cause) : Keeps I (attempt host cause) := by
  intro w hw
  change Ends _ _ (if host.fails w.clock then .error [cause] else .ok ()) w.tick
  split
  · exact hI w hw
  · exact hI w hw

theorem look_keeps (what : Looked) : Keeps I (look host what) := hI

theorem expectDir_keeps (id : ℕ) (what : Looked) : Keeps I (expectDir host id what) := by
  refine (look_keeps hI what).bind fun answer ↦ ?_
  cases answer with
  | dir other => exact keeps_ensure _ _
  | _ => exact keeps_throw _

theorem rejectSymlinkPathComponents_keeps (path : String) :
    Keeps I (rejectSymlinkPathComponents host path) := by
  refine keeps_forM fun current ↦ (look_keeps hI _).bind fun answer ↦ ?_
  cases answer with
  | other => exact keeps_ensure _ _
  | dir _ => exact keeps_pure _
  | _ => exact keeps_throw _

theorem verifyDescriptor_keeps : Keeps I (verifyDescriptor host pinned) := by
  refine (expectDir_keeps hI _ _).bind fun _ ↦ ?_
  cases pinned.stateId with
  | none => exact keeps_pure _
  | some stateId => exact (expectDir_keeps hI _ _).bind fun _ ↦ expectDir_keeps hI _ _

theorem verifyPath_keeps : Keeps I (verifyPath host pinned) :=
  (verifyDescriptor_keeps hI).bind fun _ ↦
    (relabel_keeps (rejectSymlinkPathComponents_keeps hI _)).bind fun _ ↦ expectDir_keeps hI _ _

end Steady

section Reads

def Files (p r : Option Entry) (w : World) : Prop := w.project = p ∧ w.registry = r

variable {p r : Option Entry} {w : World}

theorem files_steady : Steady (Files p r) := fun _ h ↦ h

theorem attempt_then {α : Type} {cause : Cause} {m : Op α} {Ok : α → World → Prop}
    (h : Files p r w) (hm : ∀ w, Files p r w → Yields Ok (fun _ ↦ Files p r) m w) :
    Yields Ok (fun _ ↦ Files p r) (attempt host cause >>= fun _ ↦ m) w :=
  (attempt_keeps files_steady _ w h).bind fun _ ↦ hm

theorem readStrictProjectFile_spec (h : Files p r w) :
    Yields (fun snapshot w' ↦ Files p r w' ∧
        p = some ⟨snapshot.id, true, snapshot.raw, snapshot.mode⟩ ∧
        host.decodeProject snapshot.raw = .ok snapshot.project)
      (fun causes w' ↦ Files p r w' ∧
        (causes = [.notConfigured] → p = none ∨ pinned.stateId = none))
      (readStrictProjectFile host pinned) w := by
  have hother {causes : List Cause} {w : World} (hcauses : causes ≠ [.notConfigured])
      (h : Files p r w) :
      Files p r w ∧ (causes = [.notConfigured] → p = none ∨ pinned.stateId = none) :=
    ⟨h, fun h ↦ absurd h hcauses⟩
  have hattempt {cause : Cause} {w : World} (hcause : [cause] ≠ [.notConfigured])
      (h : Files p r w) : Yields (fun _ ↦ Files p r) (fun causes w' ↦ Files p r w' ∧
        (causes = [.notConfigured] → p = none ∨ pinned.stateId = none)) (attempt host cause) w := by
    change Ends _ _ (if host.fails w.clock then .error [cause] else .ok ()) w.tick
    split_ifs
    · exact hother hcause h
    · exact h
  unfold readStrictProjectFile ensure
  split_ifs with hstate
  · refine (hattempt (by decide) h).bind fun _ w h ↦ ?_
    refine Yields.bind (Q := fun a w' ↦ a = w' ∧ Files p r w') ⟨rfl, h⟩ ?_
    rintro w _ ⟨rfl, h⟩
    cases hentry : w.project with
    | none => exact ⟨h, fun _ ↦ .inl (h.1.symm.trans hentry)⟩
    | some entry =>
      dsimp only
      split_ifs with hregular
      · refine (hattempt (by decide) h).bind fun _ w' h' ↦ ?_
        refine (hattempt (by decide) h').bind fun _ w' h' ↦ ?_
        refine (hattempt (by decide) h').bind fun _ w' h' ↦ ?_
        refine (hattempt (by decide) h').bind fun _ w' h' ↦ ?_
        cases hdecode : host.decodeProject entry.bytes with
        | failed => exact hother (by decide) h'
        | undecoded => exact hother (by decide) h'
        | ok project =>
          refine ⟨h', ?_, hdecode⟩
          rw [← h.1, hentry, ← hregular]
      · exact hother (by decide) h
  · exact ⟨h, fun _ ↦ .inr (by simpa using hstate)⟩

theorem readRawRegistry_spec (h : Files p r w) :
    Yields (fun entry w' ↦ Files p r w' ∧ r = some entry ∧ entry.regular = true)
      (fun _ ↦ Files p r) (readRawRegistry host) w := by
  refine attempt_then h fun w h ↦ ?_
  refine (yields_get h).bind ?_
  rintro w _ ⟨rfl, h⟩
  cases hentry : w.registry with
  | none => exact h
  | some entry =>
    refine (yields_ensure h).bind ?_
    rintro _ w' ⟨hregular, h'⟩
    refine attempt_then h' fun w' h' ↦ ?_
    refine attempt_then h' fun w' h' ↦ ?_
    exact ⟨h', h.2.symm.trans hentry, hregular⟩

theorem readStrictRegistry_spec (h : Files p r w) :
    Yields (fun snapshot w' ↦ Files p r w' ∧
      (∃ id, r = some ⟨id, true, snapshot.raw, snapshot.mode⟩) ∧
      host.decodeRegistry snapshot.raw = .ok snapshot.registry) (fun _ ↦ Files p r)
      (readStrictRegistry host) w := by
  refine attempt_then h fun w h ↦ ?_
  refine (relabel_spec (readRawRegistry_spec h)).bind ?_
  rintro entry w ⟨h, hentry, hregular⟩
  cases hdecode : host.decodeRegistry entry.bytes with
  | failed => exact h
  | undecoded => exact h
  | ok registry =>
    refine ⟨h, ⟨entry.id, ?_⟩, hdecode⟩
    rw [hentry, ← hregular]

theorem readRawProject_spec (h : Files p r w) :
    Yields (fun entry w' ↦ Files p r w' ∧ p = some entry) (fun _ ↦ Files p r)
      (readRawProject host) w := by
  refine attempt_then h fun w h ↦ ?_
  refine (yields_get h).bind ?_
  rintro w _ ⟨rfl, h⟩
  cases hentry : w.project with
  | none => exact h
  | some entry =>
    refine (yields_ensure h).bind ?_
    rintro _ w' ⟨-, h'⟩
    refine attempt_then h' fun w' h' ↦ ?_
    refine attempt_then h' fun w' h' ↦ ?_
    refine attempt_then h' fun w' h' ↦ ?_
    exact ⟨h', h.1.symm.trans hentry⟩

end Reads

section Writes

variable {p r : Option Entry} {w : World}

theorem attempts_keep (ops : List FileOp) :
    Keeps (Files p r) (ops.forM fun op ↦ attempt host (.file op)) :=
  keeps_forM fun op ↦ attempt_keeps files_steady (.file op)

theorem verify_keeps (requirePath : Bool) : Keeps (Files p r) (verify host pinned requirePath) := by
  cases requirePath with
  | true => exact verifyPath_keeps files_steady
  | false => exact verifyDescriptor_keeps files_steady

theorem expectProject_keeps (expected : ℕ) : Keeps (Files p r) (expectProject host expected) := by
  intro w h
  refine attempt_then h fun w h ↦ ?_
  refine (yields_get h).bind ?_
  rintro w _ ⟨rfl, h⟩
  cases w.project with
  | none => exact h
  | some entry => exact keeps_ensure _ _ w h

section

variable (h : Files p r w) {contents : Bytes} {mode : ℕ} {current : Option ℕ}
include h

theorem replaceProject_spec {expected : ℕ} {requirePath : Bool} :
    Yields (fun _ w' ↦ ∃ id, Files (some ⟨id, true, contents, mode⟩) r w') (fun _ ↦ Files p r)
      (replaceProject host pinned contents mode expected requirePath) w := by
  refine (keeps_ensure _ _ w h).bind fun _ w h ↦ ?_
  refine (verify_keeps _ w h).bind fun _ w h ↦ ?_
  refine (expectProject_keeps _ w h).bind fun _ w h ↦ ?_
  refine (attempts_keep _ w h).bind fun _ w h ↦ ?_
  refine (verify_keeps _ w h).bind fun _ w h ↦ ?_
  refine (expectProject_keeps _ w h).bind fun _ w h ↦ ?_
  refine attempt_then h fun w h ↦ ?_
  have hrename : Yields (fun id ↦ Files (some ⟨id, true, contents, mode⟩) r) (fun _ ↦ Files p r)
      (renameProject host contents mode) w := ⟨rfl, h.2⟩
  refine hrename.bind fun id w h ↦ ?_
  refine (attempt_keeps files_steady _ w h).result.bind fun outcome w h ↦ ?_
  cases outcome with
  | ok _ => exact ⟨id, h⟩
  | error _ => exact ⟨id, h⟩

theorem restoreProject_spec {snapshot : ProjectSnapshot} :
    Yields (fun _ w' ↦ ∃ id, Files (some ⟨id, true, snapshot.raw, snapshot.mode⟩) r w')
      (fun _ w' ↦ w'.registry = r) (restoreProject host pinned snapshot current) w := by
  cases current with
  | none => exact h.2
  | some current =>
    refine (replaceProject_spec h).result.bind fun outcome w h ↦ ?_
    cases outcome with
    | error _ => exact h.2
    | ok seen =>
      obtain ⟨id, h⟩ := h
      cases seen with
      | none => exact h.2
      | some _ =>
        refine (verifyDescriptor_keeps files_steady w h).result.bind fun outcome w h ↦ ?_
        cases outcome with
        | error _ => exact h.2
        | ok _ =>
          refine (readRawProject_spec h).result.bind fun outcome w h ↦ ?_
          cases outcome with
          | error _ => exact h.2
          | ok entry => exact (keeps_ensure _ _ w h.1).mono (fun _ _ h ↦ ⟨id, h⟩) fun _ _ h ↦ h.2

theorem renameRegistry_spec :
    Yields (fun _ w' ↦ ∃ id, Files p (some ⟨id, true, contents, mode⟩) w') (fun _ ↦ Files p r)
      (renameRegistry host contents mode) w := ⟨host.identity w.clock, h.1, rfl⟩

theorem saveRegistry_spec {registry : RegistryFile} :
    Yields (fun _ w' ↦ w'.project = p) (fun _ ↦ Files p r) (saveRegistry host registry) w := by
  refine attempt_then h fun w h ↦ ?_
  refine attempt_then h fun w h ↦ ?_
  refine (yields_get h).bind ?_
  rintro w _ ⟨rfl, h⟩
  refine attempt_then h fun w h ↦ ?_
  cases host.encodeRegistry registry with
  | none => exact h
  | some contents =>
    refine (attempts_keep _ w h).bind fun _ w h ↦ ?_
    exact (renameRegistry_spec h).mono (fun _ _ ⟨_, h⟩ ↦ h.1) fun _ _ h ↦ h

theorem writeRegistryAtomic_spec :
    Yields (fun _ w' ↦ ∃ id, Files p (some ⟨id, true, contents, mode⟩) w') (fun _ ↦ Files p r)
      (writeRegistryAtomic host contents mode) w :=
  (attempts_keep _ w h).bind fun _ _ h ↦ renameRegistry_spec h

theorem restoreRegistrySnapshot_spec {snapshot : RegistrySnapshot} :
    Yields (fun _ w' ↦ ∃ id, Files p (some ⟨id, true, snapshot.raw, snapshot.mode⟩) w')
      (fun _ w' ↦ w'.project = p) (restoreRegistrySnapshot host snapshot current) w := by
  refine ((readRawRegistry_spec h).mono (fun _ _ h ↦ h) fun _ _ h ↦ h.1).bind ?_
  rintro entry w ⟨h, rfl, hregular⟩
  split_ifs with hsame
  · have hentry : w.registry = some ⟨entry.id, true, snapshot.raw, snapshot.mode⟩ := by
      rw [h.2, ← hsame.1, ← hsame.2, ← hregular]
    exact ⟨entry.id, h.1, hentry⟩
  · refine ((keeps_ensure _ _ w h).mono (fun _ _ h ↦ h) fun _ _ h ↦ h.1).bind fun _ w h ↦ ?_
    refine ((attempt_keeps files_steady _ w h).mono (fun _ _ h ↦ h) fun _ _ h ↦ h.1).bind
      fun _ w h ↦ ?_
    refine ((writeRegistryAtomic_spec h).mono (fun _ _ h ↦ h) fun _ _ h ↦ h.1).bind ?_
    rintro _ w ⟨id, h⟩
    refine (readRawRegistry_spec h).result.bind fun outcome w h ↦ ?_
    cases outcome with
    | error _ => exact h.1
    | ok after => exact (keeps_ensure _ _ w h.1).mono (fun _ _ h ↦ ⟨id, h⟩) fun _ _ h ↦ h.1

end

end Writes

section Rollback

def Entry.content (entry : Entry) : Bool × Bytes × ℕ := (entry.regular, entry.bytes, entry.perm)

def SameContent (e e' : Option Entry) : Prop := e.map Entry.content = e'.map Entry.content

variable (host)

/-- What an error says of the files: `p` and `r` at the start, the workspace at `path`. -/
def Reported (p r : Option Entry) (path : String) : RepairError → World → Prop
  | .plain _, w => SameContent w.project p ∧ SameContent w.registry r
  | .partialMutation _ paths, w =>
    (SameContent w.project p ∨ projectRecoveryPath host path ∈ paths ∨
      pinnedRecoveryPath host path ∈ paths) ∧
    (SameContent w.registry r ∨ displayRecoveryPath host host.registryPath ∈ paths)

structure Tracked (p r : Option Entry) (written : Written) (w : World) : Prop where
  project : written.projectWritten = false → w.project = p
  registry : written.registryAttempted = false → w.registry = r

structure Snapshots (project : ProjectSnapshot) (registry : RegistrySnapshot)
    (p r : Option Entry) : Prop where
  project : p = some ⟨project.id, true, project.raw, project.mode⟩
  registry : ∃ id, r = some ⟨id, true, registry.raw, registry.mode⟩

variable {host} {project : ProjectSnapshot} {registry : RegistrySnapshot} {p r : Option Entry}
  {written : Written} {w : World}

theorem tracked_steady : Steady (Tracked p r written) := fun _ h ↦ ⟨h.project, h.registry⟩

theorem reported_plain (h : Files p r w) (path : String) (causes : List Cause) :
    Reported host p r path (.plain causes) w := by
  refine ⟨?_, ?_⟩
  · rw [h.1]
    exact rfl
  · rw [h.2]
    exact rfl

section

variable (hs : Snapshots project registry p r) {Err : RepairError → World → Prop}
include hs

theorem rollbackRegistry_spec (h : Tracked p r written w) :
    Yields (fun lost w' ↦ w'.project = w.project ∧
        (lost.1 = [] ∧ SameContent w'.registry r ∨
          lost.1 = [displayRecoveryPath host host.registryPath])) Err
      (rollbackRegistry host registry written) w := by
  unfold rollbackRegistry
  obtain ⟨id, hr⟩ := hs.registry
  split_ifs with hattempted
  · have hfiles : Files w.project w.registry w := ⟨rfl, rfl⟩
    refine (restoreRegistrySnapshot_spec hfiles).result.bind fun outcome w' h' ↦ ?_
    cases outcome with
    | error _ => exact ⟨h', .inr rfl⟩
    | ok _ =>
      obtain ⟨_, h'⟩ := h'
      have hsame : SameContent w'.registry r := by
        rw [h'.2, hr]
        rfl
      exact ⟨h'.1, .inl ⟨rfl, hsame⟩⟩
  · exact ⟨rfl, .inl ⟨rfl, congrArg _ (h.registry (Bool.eq_false_iff.mpr hattempted))⟩⟩

theorem rollbackProject_spec (h : written.projectWritten = false → w.project = p) :
    Yields (fun lost w' ↦ w'.registry = w.registry ∧
        (lost.1 = [] ∧ SameContent w'.project p ∨
          lost.1 = [projectRecoveryPath host pinned.path] ∨
          lost.1 = [pinnedRecoveryPath host pinned.path])) Err
      (rollbackProject host pinned project written) w := by
  unfold rollbackProject
  split_ifs with hwritten
  · have hfiles : Files w.project w.registry w := ⟨rfl, rfl⟩
    refine (restoreProject_spec hfiles).result.bind fun outcome w' h' ↦ ?_
    cases outcome with
    | ok _ =>
      obtain ⟨_, h'⟩ := h'
      have hsame : SameContent w'.project p := by
        rw [h'.1, hs.project]
        rfl
      exact ⟨h'.2, .inl ⟨rfl, hsame⟩⟩
    | error _ =>
      have hverify : Keeps (fun w' ↦ w'.registry = w.registry) (verifyPath host pinned) :=
        verifyPath_keeps fun _ h ↦ h
      refine Yields.bind (Q := fun path w' ↦ w'.registry = w.registry ∧
        (path = projectRecoveryPath host pinned.path ∨ path = pinnedRecoveryPath host pinned.path))
        ?_ ?_
      · refine (hverify w' h').result.bind fun outcome w' h' ↦ ?_
        cases outcome with
        | ok _ => exact ⟨h', .inl rfl⟩
        | error _ => exact ⟨h', .inr rfl⟩
      · rintro path w' ⟨h', hpath⟩
        refine ⟨h', .inr ?_⟩
        rcases hpath with rfl | rfl
        · exact .inl rfl
        · exact .inr rfl
  · exact ⟨rfl, .inl ⟨rfl, congrArg _ (h (Bool.eq_false_iff.mpr hwritten))⟩⟩

theorem rollbackMetadataFailure_spec (h : Tracked p r written w) {α : Type} {cause : List Cause}
    {Ok : α → World → Prop} :
    Yields Ok (Reported host p r pinned.path)
      (rollbackMetadataFailure host pinned project registry cause written) w := by
  refine (rollbackRegistry_spec hs h).bind ?_
  rintro ⟨registryPaths, registryCauses⟩ w₁ ⟨hproject, hregistry⟩
  refine (rollbackProject_spec hs fun hw ↦ hproject.trans (h.project hw)).bind ?_
  rintro ⟨projectPaths, projectCauses⟩ w₂ ⟨hkept, hlost⟩
  rw [← hkept] at hregistry
  dsimp only at hregistry hlost ⊢
  split_ifs with hpaths
  · refine ⟨?_, ?_⟩
    · rcases hlost with ⟨-, hsame⟩ | rfl | rfl
      · exact .inl hsame
      · exact .inr (.inl (by simp))
      · exact .inr (.inr (by simp))
    · rcases hregistry with ⟨-, hsame⟩ | rfl
      · exact .inl hsame
      · exact .inr (by simp)
  · obtain ⟨rfl, rfl⟩ := append_eq_nil_iff.mp (not_not.mp hpaths)
    simp only [true_and, nil_eq, cons_ne_nil, or_false] at hregistry hlost
    exact ⟨hlost, hregistry⟩

theorem verifyOrRollback_spec (h : Tracked p r written w) :
    Yields (fun _ ↦ Tracked p r written) (Reported host p r pinned.path)
      (verifyOrRollback host pinned project registry written) w := by
  refine (verifyPath_keeps tracked_steady w h).result.bind fun outcome w h ↦ ?_
  cases outcome with
  | ok _ => exact h
  | error causes => exact rollbackMetadataFailure_spec hs h

end

end Rollback

section Apply

variable {project : ProjectSnapshot} {registry : RegistrySnapshot} {p r : Option Entry}
  {written : Written} {w : World} {planned : Plan}

theorem plainly_spec {α : Type} {m : Op α} {Ok : α → World → Prop} {path : String}
    (h : Yields Ok (fun _ ↦ Files p r) m w) : Yields Ok (Reported host p r path) (plainly m) w := by
  refine h.result.bind fun outcome w h ↦ ?_
  cases outcome with
  | ok a => exact h
  | error causes => exact @reported_plain host p r w h path causes

theorem commitProject_spec (hs : Snapshots project registry p r) {contents : Bytes}
    (h : Files p r w) :
    Yields (fun written w' ↦ written.registryAttempted = false ∧ Tracked p r written w')
      (Reported host p r pinned.path)
      (commitProject host pinned project registry planned contents) w := by
  unfold commitProject
  split_ifs with hchanged
  · refine (plainly_spec (verifyPath_keeps files_steady w h)).bind fun _ w h ↦ ?_
    refine (plainly_spec (replaceProject_spec h)).bind ?_
    rintro seen w ⟨_, h⟩
    cases seen with
    | some id => exact ⟨rfl, fun hfalse ↦ (by cases hfalse), fun _ ↦ h.2⟩
    | none =>
      exact rollbackMetadataFailure_spec hs ⟨fun hfalse ↦ (by cases hfalse), fun _ ↦ h.2⟩
  · exact ⟨rfl, fun _ ↦ h.1, fun _ ↦ h.2⟩

theorem commitRegistry_spec (hs : Snapshots project registry p r) {updated : RegistryFile}
    (h : Tracked p r written w) :
    Yields (fun written' w' ↦ Tracked p r written' w') (Reported host p r pinned.path)
      (commitRegistry host pinned project registry planned updated written) w := by
  unfold commitRegistry
  split_ifs with hchanged
  · refine (verifyOrRollback_spec hs h).bind fun _ w h ↦ ?_
    have htracked (info : Option ℕ) {w' : World} (hw' : w'.project = w.project) :
        Tracked p r { written with registryAttempted := true, registryInfo := info } w' :=
      ⟨fun hfalse ↦ hw'.trans (h.project hfalse), fun hfalse ↦ by cases hfalse⟩
    have hread {w' : World} (hw' : w'.project = w.project) :=
      @readRawRegistry_spec host w.project w'.registry w' ⟨hw', rfl⟩
    refine (saveRegistry_spec ⟨rfl, rfl⟩).result.bind fun outcome w' h' ↦ ?_
    cases outcome with
    | error causes =>
      refine (hread h'.1).result.bind fun outcome w'' h'' ↦ ?_
      refine rollbackMetadataFailure_spec hs (htracked _ ?_)
      cases outcome with
      | ok _ => exact h''.1.1
      | error _ => exact h''.1
    | ok _ =>
      refine (hread h').result.bind fun outcome w'' h'' ↦ ?_
      cases outcome with
      | ok entry => exact htracked _ h''.1.1
      | error _ => exact rollbackMetadataFailure_spec hs (htracked _ h''.1)
  · exact h

theorem refresh_spec (h : Tracked p r written w) {Err : RepairError → World → Prop} :
    Yields (fun written' w' ↦ Tracked p r written' w') Err (refresh host written) w := by
  unfold refresh
  split_ifs with hattempted
  · have hread := @readRawRegistry_spec host w.project w.registry w ⟨rfl, rfl⟩
    refine hread.result.bind fun outcome w' h' ↦ ?_
    have hproject : w'.project = w.project := by
      cases outcome with
      | ok _ => exact h'.1.1
      | error _ => exact h'.1
    exact ⟨fun hfalse ↦ hproject.trans (h.project hfalse), fun hfalse ↦
      absurd hattempted (Bool.eq_false_iff.mp hfalse)⟩
  · exact h

def HoldBoth (host : Host) (project : ProjectFile) (registry : RegistryFile) (w : World) : Prop :=
  (∃ entry ∈ w.project, host.decodeProject entry.bytes = .ok project) ∧
    ∃ entry ∈ w.registry, host.decodeRegistry entry.bytes = .ok registry

theorem readback_spec (hs : Snapshots project registry p r) (h : Tracked p r written w)
    {name : String} {registration updated : Registration} {updatedRegistry : RegistryFile} :
    Yields (fun out w' ↦ out.1.metadataPresent = planned.metadataPresent ∧
        HoldBoth host planned.project updatedRegistry w') (Reported host p r pinned.path)
      (readback host pinned project registry planned name registration updatedRegistry updated
        written) w := by
  have hrollback {w' : World} {causes : List Cause} {Ok : Plan × Bool → World → Prop}
      (hw' : Tracked p r written w') :
      Yields Ok (Reported host p r pinned.path)
        (refresh host written >>= fun written ↦
          rollbackMetadataFailure host pinned project registry causes written) w' :=
    (refresh_spec hw').bind fun _ _ h ↦ rollbackMetadataFailure_spec hs h
  have hfiles : Files w.project w.registry w := ⟨rfl, rfl⟩
  refine (readStrictProjectFile_spec hfiles).result.bind fun project' w₁ h₁ ↦ ?_
  have hfiles₁ : Files w.project w.registry w₁ := by
    cases project' with
    | ok _ => exact h₁.1
    | error _ => exact h₁.1
  refine (readStrictRegistry_spec hfiles₁).result.bind fun registry' w₂ h₂ ↦ ?_
  have hfiles₂ : Files w.project w.registry w₂ := by
    cases registry' with
    | ok _ => exact h₂.1
    | error _ => exact h₂
  have htracked : Tracked p r written w₂ :=
    ⟨fun hw ↦ hfiles₂.1.trans (h.project hw), fun hr ↦ hfiles₂.2.trans (h.registry hr)⟩
  dsimp only
  split
  next snapshot registrySnapshot found entry hfound =>
    obtain ⟨-, hproject, hdecode⟩ := h₁
    obtain ⟨-, ⟨id, hregistry⟩, hdecode'⟩ := h₂
    split_ifs with hsame
    · obtain ⟨hplan, hupdated, -⟩ := hsame
      refine (verifyPath_keeps files_steady w₂ hfiles₂).result.bind fun outcome w₃ h₃ ↦ ?_
      cases outcome with
      | ok _ =>
        refine ⟨rfl, ⟨_, h₃.1.trans hproject, hdecode.trans (by rw [hplan])⟩, _,
          h₃.2.trans hregistry, hdecode'.trans (by rw [hupdated])⟩
      | error causes =>
        exact hrollback ⟨fun hw ↦ h₃.1.trans (h.project hw), fun hr ↦ h₃.2.trans (h.registry hr)⟩
    · exact hrollback htracked
  next => exact hrollback htracked

end Apply

section Prepare

variable {p r : Option Entry} {w : World} {name : String} {registration : Registration}
  {path root : String}

def Opened (host : Host) (p r : Option Entry) (path : String) (pinned : Pinned) (w : World) :
    Prop :=
  Files p r w ∧ pinned.path = path ∧
    (pinned.stateId = none → ∃ n, host.look n .stateEntry = .missing)

theorem openState_spec {rootId : ℕ} (h : Files p r w) :
    Yields (Opened host p r path) (fun _ ↦ Files p r) (openState host path rootId) w := by
  have hlook : Yields (fun answer w' ↦ Files p r w' ∧ ∃ n, host.look n .stateEntry = answer)
      (fun _ ↦ Files p r) (look host .stateEntry) w := ⟨h, w.clock, rfl⟩
  refine hlook.bind ?_
  rintro answer w ⟨h, hanswer⟩
  cases answer with
  | missing => exact ⟨h, rfl, fun _ ↦ hanswer⟩
  | dir stateId =>
    refine attempt_then h fun w h ↦ ?_
    refine (expectDir_keeps files_steady _ _ w h).bind fun _ w h ↦ ?_
    refine (expectDir_keeps files_steady _ _ w h).bind fun _ w h ↦ ?_
    exact ⟨h, rfl, fun hnone ↦ by cases hnone⟩
  | _ => exact h

theorem openPinnedPath_spec (h : Files p r w) :
    Yields (Opened host p r path) (fun _ ↦ Files p r) (openPinnedPath host path) w := by
  refine (rejectSymlinkPathComponents_keeps files_steady _ w h).bind fun _ w h ↦ ?_
  refine (look_keeps files_steady _ w h).bind fun answer w h ↦ ?_
  cases answer with
  | dir before =>
    refine attempt_then h fun w h ↦ ?_
    refine (expectDir_keeps files_steady _ _ w h).bind fun _ w h ↦ ?_
    refine (expectDir_keeps files_steady _ _ w h).bind fun _ w h ↦ ?_
    refine (relabel_keeps (rejectSymlinkPathComponents_keeps files_steady _) w h).bind
      fun _ w h ↦ ?_
    exact openState_spec h
  | _ => exact h

theorem openPinnedWorkspaceRoot_spec (h : Files p r w) :
    Yields (Opened host p r (cleanPath root)) (fun _ ↦ Files p r)
      (openPinnedWorkspaceRoot host root) w := by
  refine (keeps_ensure _ _ w h).bind fun _ w h ↦ ?_
  generalize cleanPath root = path
  exact openPinnedPath_spec h

structure PlanOf (host : Host) (name : String) (registration : Registration) (p : Option Entry)
    (made : Plan) (snapshot : ProjectSnapshot) : Prop where
  entry : p = some ⟨snapshot.id, true, snapshot.raw, snapshot.mode⟩
  decoded : host.decodeProject snapshot.raw = .ok snapshot.project
  detected : ∃ n detected, host.detectWorkspaceLayout n registration.root name = some detected ∧
    made = plan host registration snapshot.project detected

def Unconfigured (host : Host) (p : Option Entry) : Prop :=
  p = none ∨ ∃ n, host.look n .stateEntry = .missing

theorem planWorkspaceMetadata_spec (h : Opened host p r path pinned w) :
    Yields (fun out w' ↦ Files p r w' ∧
        ((out.1.metadataPresent = false ∧ out.1.drift = false) ∧ Unconfigured host p ∨
          PlanOf host name registration p out.1 out.2)) (fun _ ↦ Files p r)
      (planWorkspaceMetadata host pinned name registration) w := by
  obtain ⟨h, -, hstate⟩ := h
  refine (verifyPath_keeps files_steady w h).bind fun _ w h ↦ ?_
  refine (readStrictProjectFile_spec h).result.bind fun outcome w h ↦ ?_
  cases outcome with
  | error causes =>
    dsimp only
    split_ifs with hcauses
    · exact ⟨h.1, .inl ⟨⟨rfl, rfl⟩, (h.2 hcauses).imp_right hstate⟩⟩
    · exact h.1
  | ok snapshot =>
    obtain ⟨h, hentry, hdecoded⟩ := h
    refine (verifyPath_keeps files_steady w h).bind fun _ w h ↦ ?_
    have hdetect : Yields (fun found w' ↦ Files p r w' ∧
        ∃ n, host.detectWorkspaceLayout n registration.root name = found) (fun _ ↦ Files p r)
        (detectLayout host registration.root name) w := ⟨h, w.clock, rfl⟩
    refine hdetect.bind ?_
    rintro found w ⟨h, n, hn⟩
    cases found with
    | none => exact h
    | some detected =>
      refine (verifyPath_keeps files_steady w h).bind fun _ w h ↦ ?_
      exact ⟨h, .inr ⟨hentry, hdecoded, n, detected, hn, rfl⟩⟩

theorem ofExcept_spec {α : Type} (e : Except (List Cause) α) (h : Files p r w) :
    Yields (fun a w' ↦ Files p r w' ∧ e = .ok a) (fun _ ↦ Files p r) (ofExcept e) w := by
  cases e with
  | ok a => exact ⟨h, rfl⟩
  | error causes => exact h

theorem registeredMetadataTarget_spec {registry : RegistryFile} {expectedName : String}
    (h : registeredMetadataTarget registry expectedName root = .ok (name, registration)) :
    name = trimSpace expectedName ∧ registry.workspaces.lookup name = some registration ∧
      cleanPath registration.root = cleanPath root := by
  unfold registeredMetadataTarget at h
  dsimp only at h
  split at h
  next found hfound =>
    split_ifs at h with hroot
    cases h
    exact ⟨rfl, hfound, hroot⟩
  next => cases h

structure Ready (host : Host) (selection : Selection) (p r : Option Entry) (s : Prepared) :
    Prop where
  registry : ∃ id, r = some ⟨id, true, s.registry.raw, s.registry.mode⟩
  decoded : host.decodeRegistry s.registry.raw = .ok s.registry.registry
  name : s.name = trimSpace selection.name
  registration : s.registry.registry.workspaces.lookup s.name = some s.registration
  path : s.pinned.path = cleanPath selection.root
  plan : (s.plan.metadataPresent = false ∧ s.plan.drift = false) ∧ Unconfigured host p ∨
    PlanOf host s.name s.registration p s.plan s.project

theorem prepare_spec {selection : Selection} (h : Files p r w) :
    Yields (fun s w' ↦ Files p r w' ∧ Ready host selection p r s) (fun _ ↦ Files p r)
      (prepare host selection) w := by
  unfold prepare
  cases selection.rootInfo with
  | none => exact h
  | some rootInfo =>
    refine attempt_then h fun w h ↦ ?_
    refine (readStrictRegistry_spec h).bind ?_
    rintro registry w ⟨h, hregistry, hdecoded⟩
    refine (ofExcept_spec _ h).bind ?_
    rintro ⟨name, registration⟩ w ⟨h, htarget⟩
    obtain ⟨hname, hlookup, hroot⟩ := registeredMetadataTarget_spec htarget
    refine (openPinnedWorkspaceRoot_spec h).bind ?_
    rintro pinned w ⟨h, hpath, hstate⟩
    refine (keeps_ensure _ _ w h).bind fun _ w h ↦ ?_
    refine (planWorkspaceMetadata_spec ⟨h, hpath, hstate⟩).bind ?_
    rintro ⟨made, snapshot⟩ w ⟨h, hplan⟩
    exact ⟨h, hregistry, hdecoded, hname, hlookup, hpath.trans hroot, hplan⟩

end Prepare

def PlannedFor (host : Host) (selection : Selection) (w : World) (project : ProjectFile)
    (registration : Registration) : Prop :=
  ∃ before registry entry n detected, HoldBoth host before registry w ∧
    registry.workspaces.lookup (trimSpace selection.name) = some entry ∧
    host.detectWorkspaceLayout n entry.root (trimSpace selection.name) = some detected ∧
    project = plannedProject host before detected ∧
    registration = plannedRegistration entry project

/-- Both files have what was planned; where there is no project file, nothing is changed. -/
def HoldsPlanned (host : Host) (selection : Selection) (w : World) (made : Plan) (w' : World) :
    Prop :=
  if made.metadataPresent then
    ∃ project registration registry, PlannedFor host selection w project registration ∧
      HoldBoth host project registry w' ∧
      registry.workspaces.lookup (trimSpace selection.name) = some registration
  else Unconfigured host w.project ∧ Files w.project w.registry w'

section AllOrNothing

variable {selection : Selection} {w w' : World} {s : Prepared}

theorem plannedRegistration_eq {registration : Registration} {project : ProjectFile}
    (h : registration.languages = (plannedRegistration registration project).languages) :
    plannedRegistration registration project = registration := by
  change registration.languages = project.project.languages.copy at h
  unfold plannedRegistration
  rw [← h]

section

variable (hready : Ready host selection w.project w.registry s)
  (hfiles : Files w.project w.registry w')
include hready hfiles

theorem holdsPlanned_of_not_drift (hdrift : s.plan.drift = false) :
    HoldsPlanned host selection w s.plan w' := by
  unfold HoldsPlanned
  split_ifs with hpresent
  · rcases hready.plan with ⟨⟨hnone, -⟩, -⟩ | ⟨hentry, hdecoded, n, detected, hdetected, hplan⟩
    · rw [hnone] at hpresent
      cases hpresent
    obtain ⟨id, hregistry⟩ := hready.registry
    rw [hplan, plan, Bool.or_eq_false_iff] at hdrift
    have hproject := of_not_not (of_decide_eq_false hdrift.1)
    have hlanguages := of_not_not (of_decide_eq_false hdrift.2)
    have hboth {v : World} (hv : Files w.project w.registry v) :
        HoldBoth host s.project.project s.registry.registry v :=
      ⟨⟨_, hv.1.trans hentry, hdecoded⟩, _, hv.2.trans hregistry, hready.decoded⟩
    have hlookup := hready.registration
    rw [hready.name] at hlookup hdetected
    refine ⟨_, _, s.registry.registry,
      ⟨_, _, _, n, detected, hboth ⟨rfl, rfl⟩, hlookup, hdetected, rfl, rfl⟩, ?_, ?_⟩
    · rw [← hproject]
      exact hboth hfiles
    · rw [hlookup, plannedRegistration_eq hlanguages]
  · rcases hready.plan with ⟨-, hmissing⟩ | ⟨-, -, n, detected, -, hplan⟩
    · exact ⟨hmissing, hfiles⟩
    · exact absurd (congrArg Plan.metadataPresent hplan) hpresent

theorem applyPlan_spec (hdrift : s.plan.drift = true) :
    Yields (fun out ↦ HoldsPlanned host selection w out.1)
      (Reported host w.project w.registry (cleanPath selection.root)) (applyPlan host s) w' := by
  rcases hready.plan with ⟨⟨-, hnone⟩, -⟩ | ⟨hentry, hdecoded, n, detected, hdetected, hplan⟩
  · rw [hnone] at hdrift
    cases hdrift
  obtain ⟨id, hregistry⟩ := hready.registry
  have hs : Snapshots s.project s.registry w.project w.registry := ⟨hentry, id, hregistry⟩
  have hencode : Keeps (Files w.project w.registry) (encodeProjectMetadata host s.plan) := by
    unfold encodeProjectMetadata
    split_ifs
    · cases host.encodeProject s.plan.project with
      | none => exact keeps_throw _
      | some contents => exact keeps_pure _
    · exact keeps_pure _
  rw [← hready.path]
  refine (plainly_spec (hencode w' hfiles)).bind fun contents w₁ h ↦ ?_
  refine (commitProject_spec hs h).bind ?_
  rintro written w₂ ⟨-, h⟩
  refine (verifyOrRollback_spec hs h).bind fun _ w₃ h ↦ ?_
  refine (commitRegistry_spec hs h).bind fun written w₄ h ↦ ?_
  refine (verifyOrRollback_spec hs h).bind fun _ w₅ h ↦ ?_
  refine (readback_spec hs h).mono ?_ fun _ _ h ↦ h
  rintro out w₆ ⟨hpresent, hboth⟩
  have hmade : out.1.metadataPresent = true := by
    rw [hpresent, hplan]
    rfl
  unfold HoldsPlanned
  rw [if_pos hmade]
  have hbefore : HoldBoth host s.project.project s.registry.registry w :=
    ⟨⟨_, hentry, hdecoded⟩, _, hregistry, hready.decoded⟩
  have hlookup := hready.registration
  rw [hready.name] at hlookup hdetected
  rw [hplan] at hboth
  refine ⟨_, _, _, ⟨_, _, _, n, detected, hbefore, hlookup, hdetected, rfl, rfl⟩, hboth, ?_⟩
  rw [← hready.name]
  exact lookup_put _ _ _

end

end AllOrNothing

end MiLsp.Repair
