import MiLsp.Library.Traces
import MiLsp.SelfUpdate.Rollback

namespace MiLsp.SelfUpdate

open Library Attempt Traces List

variable {Image : Type} {host : Host Image} {faults : Faults} {tx : Transaction Image}
  {d : Disk Image} {info staged : Entry Image} {oldVersion : String}

section Success

def Readable (host : Host Image) (d : Disk Image) : Prop :=
  ∃ info v, d.executable = some info ∧ info.regular = true ∧
    host.readback info.image = some v ∧ txSemver v = true

/-- The archive is accepted, and the image in it answers with the target version. -/
structure Valid (host : Host Image) (tx : Transaction Image) : Prop where
  path : host.executablePath ≠ ""
  target : txSemver tx.targetVersion = true
  delivers : ∃ image archive, Delivers tx image archive ∧
    host.readback image = some tx.targetVersion

variable {image : Image}

theorem promote_succeeds (d : Disk Image) (log : Log Image)
    (himage : host.readback image = some tx.targetVersion) :
    (promote host noFaults tx info ⟨tx.stageID, true, image⟩ oldVersion d log).failed = false := by
  have hread : readback host noFaults .readNew (some ⟨tx.stageID, true, image⟩) =
      .ok tx.targetVersion := readback_eq_ok.mpr ⟨rfl, _, rfl, himage⟩
  rw [promote]
  dsimp only [noFaults]
  rw [hread]
  simp

theorem secure_succeeds (hexecutable : d.executable = some info) (hregular : info.regular = true)
    (hmarker : d.marker = none) (himage : host.readback image = some tx.targetVersion) :
    (secure host noFaults tx info ⟨tx.stageID, true, image⟩ oldVersion d).failed = false := by
  rw [secure, hmarker, hexecutable]
  dsimp only [noFaults]
  rw [if_neg]
  · exact promote_succeeds _ _ himage
  · have hbackup : unchanged host noFaults .statLinked .hashLinked info (some info) = true :=
      unchanged_self hregular rfl rfl
    have htarget : unchanged host noFaults .statTarget .hashTarget info (some info) = true :=
      unchanged_self hregular rfl rfl
    simp [hbackup, htarget]

theorem applyTransaction_succeeds_iff (valid : Valid host tx) :
    (applyTransaction host noFaults tx d).failed = false ↔
      Readable host d ∧ d.backup = none ∧ d.marker = none := by
  constructor
  · intro hfailed
    have hcourse := applyTransaction_course host noFaults tx d
    generalize applyTransaction host noFaults tx d = out at hcourse hfailed
    cases hcourse with
    | done ready hmarker =>
      exact ⟨⟨_, _, ready.executable, ready.regular, ready.version, ready.semver⟩, ready.backup,
        hmarker⟩
    | _ => cases hfailed
  · rintro ⟨⟨info, v, hexecutable, hregular, hversion, hsemver⟩, hbackup, hmarker⟩
    obtain ⟨image, archive, hdelivers, himage⟩ := valid.delivers
    have hinspect : inspect host noFaults tx d = .ok (info, v) :=
      inspect_eq_ok.mpr ⟨valid.path, valid.target, hexecutable, hregular, hversion, hsemver, rfl,
        rfl, rfl, rfl⟩
    have hunchanged : unchanged host noFaults .statCurrent .hashCurrent info d.executable = true :=
      hexecutable ▸ unchanged_self hregular rfl rfl
    rw [applyTransaction, hinspect]
    rw [stage_of_delivers hdelivers]
    dsimp only
    rw [if_neg (by simp [hunchanged]), if_neg (by simp [noFaults, hbackup])]
    exact secure_succeeds hexecutable hregular hmarker himage

end Success

section States

def Orphaned (d : Disk Image) : Prop := d.marker ≠ none ∧ d.backup = none

structure Sound (host : Host Image) (d : Disk Image) : Prop where
  executable : ∃ info, d.executable = some info ∧ info.regular = true
  backup : d.backup = none ∨ ownedBackup host noFaults d = .ok ()

def Recovers (host : Host Image) (tx : Transaction Image) (d : Disk Image) : Prop :=
  (applyTransaction host noFaults tx ((cleanupOld host noFaults false d).2.final d)).failed = false

theorem ownedBackup_eq_ok (h : ownedBackup host faults d = .ok ()) :
    d.marker ≠ none ∧ ∃ info, d.backup = some info := by
  simp only [ownedBackup, bind_eq_ok, mapError_eq_ok, lstat_eq_ok, markerOwner, orElse_eq_ok] at h
  obtain ⟨owner, ⟨-, -, marker, hmarker, -⟩, info, ⟨-, hinfo⟩, -⟩ := h
  rw [hmarker]
  exact ⟨by simp, info, hinfo⟩

theorem recovers_iff (valid : Valid host tx) (hsound : Sound host d) :
    Recovers host tx d ↔ Readable host d ∧ ¬ Orphaned d := by
  rw [Recovers]
  cases howned : ownedBackup host noFaults d with
  | error e =>
    have hbackup : d.backup = none := by
      rcases hsound.backup with h | h
      · exact h
      · rw [howned] at h
        cases h
    rw [cleanupOld_refused howned]
    change (applyTransaction host noFaults tx d).failed = false ↔ _
    rw [applyTransaction_succeeds_iff valid, Orphaned]
    simp [hbackup]
  | ok u =>
    obtain ⟨-, info, hinfo⟩ := ownedBackup_eq_ok howned
    rw [cleanupOld_owned howned]
    change (applyTransaction host noFaults tx { d with backup := none, marker := none }).failed =
      false ↔ _
    rw [applyTransaction_succeeds_iff valid, Orphaned, hinfo]
    simp [Readable]

end States

section Moments

inductive Moment (host : Host Image) (tx : Transaction Image) (d : Disk Image) :
    Mutation × Disk Image → Prop
  | created {info staged : Entry Image} {oldVersion : String}
    (ready : Ready host tx d info staged oldVersion) :
    Moment host tx d (.createMarker, created d)
  | written {info staged : Entry Image} {oldVersion : String}
    (ready : Ready host tx d info staged oldVersion) :
    Moment host tx d (.writeMarker, written host info d)
  | linked {info staged : Entry Image} {oldVersion : String}
    (ready : Ready host tx d info staged oldVersion) :
    Moment host tx d (.linkBackup, linked host info d)
  | swapped {info staged : Entry Image} {oldVersion : String}
    (ready : Ready host tx d info staged oldVersion) :
    Moment host tx d (.renameStage, swapped host info staged d)
  | restored {info staged : Entry Image} {oldVersion : String}
    (ready : Ready host tx d info staged oldVersion) :
    Moment host tx d (.restore, restored host info d)
  | unlinked {info staged : Entry Image} {oldVersion : String}
    (ready : Ready host tx d info staged oldVersion) :
    Moment host tx d (.removeBackup, { linked host info d with backup := none })
  | undone {info staged : Entry Image} {oldVersion : String}
    (ready : Ready host tx d info staged oldVersion) (hmarker : d.marker = none) :
    Moment host tx d (.removeMarker, d)

theorem Moment.of_undone (ready : Ready host tx d info staged oldVersion)
    (hmarker : d.marker = none) {d' : Disk Image} (hexecutable : d'.executable = d.executable)
    (hbackup : d'.backup = none) :
    Moment host tx d (.removeMarker, { d' with marker := none }) := by
  have heq : { d' with marker := none } = d :=
    Disk.ext hexecutable (hbackup.trans ready.backup.symm) hmarker.symm
  rw [heq]
  exact .undone ready hmarker

variable {entry : Mutation × Disk Image}

theorem Moment.of_secureLog (ready : Ready host tx d info staged oldVersion)
    (h : entry ∈ secureLog host info d) : Moment host tx d entry := by
  simp only [secureLog, mem_cons, not_mem_nil, or_false] at h
  rcases h with rfl | rfl | rfl
  · exact .created ready
  · exact .written ready
  · exact .linked ready

theorem Course.moment {out : Outcome Image} (hundo : Undoing faults)
    (hcourse : Course host faults tx d out)
    (hentry : entry ∈ out.log) : Moment host tx d entry := by
  cases hcourse with
  | refused => cases hentry
  | unwritten ready hmarker =>
    rw [dropMarker_of_undoing hundo] at hentry
    simp only [mem_cons, not_mem_nil, or_false] at hentry
    rcases hentry with rfl | rfl
    · exact .created ready
    · exact .of_undone ready hmarker rfl ready.backup
  | unlinked ready hmarker =>
    rw [dropMarker_of_undoing hundo] at hentry
    simp only [mem_cons, not_mem_nil, or_false] at hentry
    rcases hentry with rfl | rfl | rfl
    · exact .created ready
    · exact .written ready
    · exact .of_undone ready hmarker rfl ready.backup
  | kept ready => exact .of_secureLog ready hentry
  | unswapped ready hmarker =>
    rw [dropMarker_of_undoing hundo, dropBackup_of_undoing hundo] at hentry
    simp only [mem_append, mem_singleton] at hentry
    rcases hentry with (hentry | rfl) | rfl
    · exact .of_secureLog ready hentry
    · exact .unlinked ready
    · exact .of_undone ready hmarker rfl rfl
  | stuck _ _ _ hsite hfault => exact absurd (hundo _ (.inl hsite)) hfault
  | rolledBack ready hmarker =>
    rw [dropMarker_of_undoing hundo] at hentry
    simp only [mem_append, mem_cons, not_mem_nil, or_false] at hentry
    rcases hentry with (hentry | rfl) | rfl | rfl
    · exact .of_secureLog ready hentry
    · exact .swapped ready
    · exact .restored ready
    · exact .of_undone ready hmarker ready.executable.symm rfl
  | done ready =>
    rw [mem_append, mem_singleton] at hentry
    rcases hentry with hentry | rfl
    · exact .of_secureLog ready hentry
    · exact .swapped ready

theorem Moment.executable (h : Moment host tx d entry) :
    entry.2.executable = d.executable ∨ ∃ image archive, Delivers tx image archive ∧
      entry.2.executable = some ⟨tx.stageID, true, image⟩ := by
  cases h with
  | @swapped info staged oldVersion ready =>
    obtain ⟨archive, hdelivers⟩ := ready.delivers
    exact .inr ⟨staged.image, archive, hdelivers, congrArg some ready.staged_eq⟩
  | restored ready => exact .inl ready.executable.symm
  | _ => exact .inl rfl

theorem ownedBackup_swapped (ready : Ready host tx d info staged oldVersion) :
    ownedBackup host noFaults (swapped host info staged d) = .ok () :=
  ownedBackup_linked rfl ready.executable ready.regular

theorem Moment.sound (h : Moment host tx d entry) : Sound host entry.2 := by
  cases h with
  | created ready =>
    exact ⟨⟨_, ready.executable, ready.regular⟩, .inl ready.backup⟩
  | written ready =>
    exact ⟨⟨_, ready.executable, ready.regular⟩, .inl ready.backup⟩
  | linked ready =>
    exact ⟨⟨_, ready.executable, ready.regular⟩,
      .inr (ownedBackup_linked rfl ready.executable ready.regular)⟩
  | swapped ready =>
    exact ⟨⟨_, rfl, by rw [ready.staged_eq]⟩, .inr (ownedBackup_swapped ready)⟩
  | restored ready => exact ⟨⟨_, rfl, ready.regular⟩, .inl rfl⟩
  | unlinked ready => exact ⟨⟨_, ready.executable, ready.regular⟩, .inl rfl⟩
  | undone ready => exact ⟨⟨_, ready.executable, ready.regular⟩, .inl ready.backup⟩

end Moments

section Runs

inductive Call (Image : Type)
  | apply (faults : Faults) (hundo : Undoing faults) (tx : Transaction Image)
    (cut : Option Mutation)
  | cleanup (faults : Faults) (hundo : Undoing faults) (child : Bool) (cut : Option Mutation)

def Call.log (host : Host Image) (d : Disk Image) : Call Image → Log Image
  | apply faults _ tx _ => (applyTransaction host faults tx d).log
  | cleanup faults _ child _ => (cleanupOld host faults child d).2

def Call.cut : Call Image → Option Mutation
  | apply _ _ _ cut => cut
  | cleanup _ _ _ cut => cut

def Call.next (host : Host Image) (d : Disk Image) (call : Call Image) : Disk Image :=
  match call.cut with
  | none => (call.log host d).final d
  | some m => (call.log host d).cut d m

def callStep (host : Host Image) (d : Disk Image) (call : Call Image) : Option (Disk Image) :=
  some (call.next host d)

/-- The call is not cut where it leaves a marker without a backup, or an image without a version. -/
def SafelyCut (host : Host Image) (call : Call Image) : Prop :=
  call.cut ≠ some .createMarker ∧ call.cut ≠ some .writeMarker ∧ call.cut ≠ some .removeBackup ∧
    call.cut ≠ some .restore ∧
    (call.cut = some .renameStage → ∀ faults hundo tx cut, call = .apply faults hundo tx cut →
      ∀ image archive, Delivers tx image archive →
        ∃ v, host.readback image = some v ∧ txSemver v = true)

theorem Log.final_cases (log : Log Image) (d : Disk Image) :
    log.final d = d ∨ ∃ entry ∈ log, entry.2 = log.final d := by
  rw [Log.final]
  cases hlast : log.getLast? with
  | none => exact .inl rfl
  | some entry => exact .inr ⟨entry, mem_of_getLast? hlast, rfl⟩

theorem Call.next_cases (host : Host Image) (d : Disk Image) (call : Call Image) :
    call.next host d = (call.log host d).final d ∨
      ∃ entry ∈ call.log host d, call.cut = some entry.1 ∧ entry.2 = call.next host d := by
  rw [Call.next]
  cases hcut : call.cut with
  | none => exact .inl rfl
  | some m =>
    dsimp only
    rw [Log.cut]
    cases hfind : (call.log host d).find? (·.1 = m) with
    | none => exact .inl rfl
    | some entry =>
      have hm : entry.1 = m := by simpa using find?_some hfind
      exact .inr ⟨entry, mem_of_find?_eq_some hfind, by rw [hm], rfl⟩

theorem Call.next_eq_or_mem (host : Host Image) (d : Disk Image) (call : Call Image) :
    call.next host d = d ∨ ∃ entry ∈ call.log host d, entry.2 = call.next host d := by
  rcases call.next_cases host d with h | ⟨entry, hentry, -, heq⟩
  · rw [h]
    exact Log.final_cases _ d
  · exact .inr ⟨entry, hentry, heq⟩

theorem cleanupOld_log (hundo : Undoing faults) (child : Bool) (d : Disk Image) :
    (cleanupOld host faults child d).2 = [] ∨
      (cleanupOld host faults child d).2 = [(.removeBackup, { d with backup := none }),
        (.removeMarker, { d with backup := none, marker := none })] := by
  rw [cleanupOld, hundo .removeBackup (.inr rfl), hundo .removeMarker (.inr rfl)]
  split
  · exact .inl rfl
  · split
    · exact .inl rfl
    · exact .inr rfl

theorem cleanupOld_entry (hundo : Undoing faults) {child : Bool} {entry : Mutation × Disk Image}
    (hentry : entry ∈ (cleanupOld host faults child d).2) :
    entry.2.executable = d.executable ∧ entry.2.backup = none := by
  rcases cleanupOld_log hundo child d with hlog | hlog
  · rw [hlog] at hentry
    cases hentry
  · rw [hlog] at hentry
    simp only [mem_cons, not_mem_nil, or_false] at hentry
    rcases hentry with rfl | rfl
    · exact ⟨rfl, rfl⟩
    · exact ⟨rfl, rfl⟩

variable {call : Call Image} {d' : Disk Image}

theorem Call.sound_of_mem (hsound : Sound host d)
    {entry : Mutation × Disk Image} (hentry : entry ∈ call.log host d) : Sound host entry.2 := by
  cases call with
  | apply faults hundo tx cut =>
    exact ((applyTransaction_course host faults tx d).moment hundo hentry).sound
  | cleanup faults hundo child cut =>
    obtain ⟨hexecutable, hbackup⟩ := cleanupOld_entry hundo hentry
    exact ⟨hexecutable ▸ hsound.executable, .inl hbackup⟩

theorem sound_step (hsound : Sound host d) (hstep : callStep host d call = some d') :
    Sound host d' := by
  cases hstep
  rcases call.next_eq_or_mem host d with h | ⟨entry, hentry, heq⟩
  · rw [h]
    exact hsound
  · rw [← heq]
    exact Call.sound_of_mem hsound hentry

structure Recoverable (host : Host Image) (d : Disk Image) : Prop where
  readable : Readable host d
  paired : Paired host d

theorem Recoverable.sound (h : Recoverable host d) : Sound host d := by
  obtain ⟨info, v, hexecutable, hregular, -⟩ := h.readable
  refine ⟨⟨info, hexecutable, hregular⟩, ?_⟩
  rcases paired_iff.mp h.paired with ⟨hbackup, -⟩ | howned
  · exact .inl hbackup
  · exact .inr howned

theorem Recoverable.not_orphaned (h : Recoverable host d) : ¬ Orphaned d := by
  rintro ⟨hmarker, hbackup⟩
  rcases paired_iff.mp h.paired with ⟨-, hnone⟩ | howned
  · exact hmarker hnone
  · obtain ⟨-, info, hinfo⟩ := ownedBackup_eq_ok howned
    rw [hinfo] at hbackup
    cases hbackup

theorem recoverable_linked (hreadable : Readable host d) (hexecutable : d.executable = some info)
    (hregular : info.regular = true) : Recoverable host (linked host info d) :=
  ⟨hreadable, paired_iff.mpr (.inr (ownedBackup_linked rfl hexecutable hregular))⟩

theorem recoverable_swapped (ready : Ready host tx d info staged oldVersion) {v : String}
    (hv : host.readback staged.image = some v) (hsemver : txSemver v = true) :
    Recoverable host (swapped host info staged d) :=
  ⟨⟨staged, v, rfl, by rw [ready.staged_eq], hv, hsemver⟩,
    paired_iff.mpr (.inr (ownedBackup_swapped ready))⟩

theorem recoverable_final (hundo : Undoing faults) (h : Recoverable host d) :
    Recoverable host ((applyTransaction host faults tx d).log.final d) := by
  cases hfailed : (applyTransaction host faults tx d).failed with
  | true =>
    obtain ⟨-, hfinal | ⟨-, -, info, hexecutable, hregular, hfinal⟩⟩ := failed_final hundo hfailed
    · rw [hfinal]
      exact h
    · rw [hfinal]
      exact recoverable_linked h.readable hexecutable hregular
  | false =>
    have hcourse := applyTransaction_course host faults tx d
    generalize applyTransaction host faults tx d = out at hcourse hfailed ⊢
    cases hcourse with
    | done ready hmarker hversion => exact recoverable_swapped ready hversion ready.target
    | _ => cases hfailed

theorem Moment.recoverable {entry : Mutation × Disk Image} (hmoment : Moment host tx d entry)
    (h : Recoverable host d) (hcut : call.cut = some entry.1) (hsafe : SafelyCut host call)
    (hcall : ∃ faults hundo cut, call = .apply faults hundo tx cut) : Recoverable host entry.2 := by
  obtain ⟨hcreate, hwrite, hremove, hrestore, hstage⟩ := hsafe
  cases hmoment with
  | created => exact absurd hcut hcreate
  | written => exact absurd hcut hwrite
  | linked ready => exact recoverable_linked h.readable ready.executable ready.regular
  | swapped ready =>
    obtain ⟨faults, hundo, cut, rfl⟩ := hcall
    obtain ⟨archive, hdelivers⟩ := ready.delivers
    obtain ⟨v, hv, hsemver⟩ := hstage hcut faults hundo tx cut rfl _ archive hdelivers
    exact recoverable_swapped ready hv hsemver
  | restored => exact absurd hcut hrestore
  | unlinked => exact absurd hcut hremove
  | undone => exact h

theorem recoverable_step (h : Recoverable host d) (hsafe : SafelyCut host call)
    (hstep : callStep host d call = some d') : Recoverable host d' := by
  cases hstep
  have hnext := call.next_cases host d
  cases call with
  | apply faults hundo tx cut =>
    rcases hnext with hnext | ⟨entry, hentry, hcut, heq⟩
    · rw [hnext]
      exact recoverable_final hundo h
    · rw [← heq]
      exact ((applyTransaction_course host faults tx d).moment hundo hentry).recoverable h hcut
        hsafe ⟨faults, hundo, cut, rfl⟩
  | cleanup faults hundo child cut =>
    have hclean : Recoverable host { d with backup := none, marker := none } :=
      ⟨h.readable, .inl ⟨rfl, rfl⟩⟩
    rw [Call.log] at hnext
    rcases cleanupOld_log hundo child d with hlog | hlog
    · rw [hlog] at hnext
      rcases hnext with hnext | ⟨entry, hentry, -⟩
      · rw [hnext]
        exact h
      · cases hentry
    · rw [hlog] at hnext
      simp only [mem_cons, not_mem_nil, or_false] at hnext
      rcases hnext with hnext | ⟨entry, rfl | rfl, hcut, heq⟩
      · rw [hnext]
        exact hclean
      · exact absurd hcut hsafe.2.2.1
      · rw [← heq]
        exact hclean

end Runs

def Call.Stages (call : Call Image) (entry : Entry Image) : Prop :=
  ∃ faults hundo tx cut image archive, call = .apply faults hundo tx cut ∧
    Delivers tx image archive ∧ entry = ⟨tx.stageID, true, image⟩

/-- At every moment the executable is the image from before the call or the staged one. A cleanup
and a valid transaction succeed exactly when it answers with a version and no marker has lost its
backup, as all along a run whose calls are safely cut. -/
theorem update_survives_cuts (host : Host Image) :
    (∀ (d : Disk Image) (call : Call Image), ∀ entry ∈ call.log host d,
      entry.2.executable = d.executable ∨
        ∃ staged, call.Stages staged ∧ entry.2.executable = some staged) ∧
    (∀ (d : Disk Image) (calls : List (Call Image)), Sound host d →
      Always (callStep host) (fun d ↦ ∀ tx, Valid host tx →
        (Recovers host tx d ↔ Readable host d ∧ ¬ Orphaned d)) calls d) ∧
    ∀ (d : Disk Image) (calls : List (Call Image)), Readable host d → Paired host d →
      Obeys (callStep host) (fun _ call ↦ SafelyCut host call) calls d →
      Always (callStep host) (fun d ↦ ∀ tx, Valid host tx → Recovers host tx d) calls d := by
  refine ⟨?_, ?_, ?_⟩
  · intro d call entry hentry
    cases call with
    | apply faults hundo tx cut =>
      have hmoment := (applyTransaction_course host faults tx d).moment hundo hentry
      rcases hmoment.executable with h | ⟨image, archive, hdelivers, h⟩
      · exact .inl h
      · exact .inr ⟨_, ⟨faults, hundo, tx, cut, image, archive, rfl, hdelivers, rfl⟩, h⟩
    | cleanup faults hundo child cut =>
      exact .inl (cleanupOld_entry hundo hentry).1
  · intro d calls hsound
    have halways : Always (callStep host) (Sound host) calls d :=
      always_of_step (fun _ _ _ hs hstep ↦ sound_step hs hstep) hsound calls
    exact halways.mono fun _ hs tx valid ↦ recovers_iff valid hs
  · intro d calls hreadable hpaired hobeys
    have halways : Always (callStep host) (Recoverable host) calls d :=
      always_of_obeys (fun _ _ _ h hsafe hstep ↦ recoverable_step h hsafe hstep)
        ⟨hreadable, hpaired⟩ hobeys
    refine halways.mono fun d h tx valid ↦ ?_
    exact (recovers_iff valid h.sound).mpr ⟨h.readable, h.not_orphaned⟩

theorem noFaults_undoing : Undoing noFaults := fun _ _ ↦ rfl

theorem sampleUpdate_valid : Valid sampleHost sampleUpdate where
  path := by decide
  target := by decide +kernel
  delivers := ⟨true, _, ⟨rfl, rfl, by decide, by decide, by decide, by decide +kernel, rfl⟩, rfl⟩

def linkedUpdate : Call Bool := .apply noFaults noFaults_undoing sampleUpdate (some .linkBackup)

theorem linked_update_recovers :
    Always (callStep sampleHost) (fun d ↦ ∀ tx, Valid sampleHost tx → Recovers sampleHost tx d)
      [linkedUpdate] sampleInstalled := by
  refine (update_survives_cuts sampleHost).2.2 sampleInstalled [linkedUpdate]
    ⟨_, "1.0.0", rfl, rfl, rfl, by decide +kernel⟩ (.inl ⟨rfl, rfl⟩) fun s' _ ↦ ⟨?_, trivial⟩
  refine ⟨?_, ?_, ?_, ?_, fun h ↦ ?_⟩
  all_goals simp [linkedUpdate, Call.cut] at *

theorem cut_marker_blocks :
    Valid sampleHost sampleUpdate ∧ compareVersions sampleUpdate.targetVersion "1.0.0" = some .gt ∧
      ¬ Recovers sampleHost sampleUpdate
        (Call.next sampleHost sampleInstalled
          (.apply noFaults noFaults_undoing sampleUpdate (some .createMarker))) := by
  refine ⟨sampleUpdate_valid, by decide +kernel, ?_⟩
  rw [Recovers, Bool.not_eq_false]
  decide +kernel

end MiLsp.SelfUpdate
