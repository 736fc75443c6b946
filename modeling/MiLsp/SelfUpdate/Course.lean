import MiLsp.SelfUpdate.Transaction

namespace MiLsp.SelfUpdate

open Library.Attempt

variable {Image : Type} {host : Host Image} {faults : Faults} {tx : Transaction Image}
  {d : Disk Image} {info staged : Entry Image} {oldVersion : String}

structure Delivers (tx : Transaction Image) (image : Image) (archive : Archive Image) : Prop where
  found : tx.archive = some archive
  regular : archive.regular = true
  size : archive.size ≤ txMaxArchive
  length : tx.expectedArchiveSHA256.length = 64
  hex : tx.expectedArchiveSHA256.toList.all isHexDigit = true
  sha256 : archive.sha256 = tx.expectedArchiveSHA256.toLower
  extracted : archive.extracted = some image

/-- The installed image and its version, the staged image, and that there is no backup. -/
structure Ready (host : Host Image) (tx : Transaction Image) (d : Disk Image)
    (info staged : Entry Image) (oldVersion : String) : Prop where
  executable : d.executable = some info
  regular : info.regular = true
  version : host.readback info.image = some oldVersion
  semver : txSemver oldVersion = true
  target : txSemver tx.targetVersion = true
  delivers : ∃ archive, Delivers tx staged.image archive
  staged_eq : staged = ⟨tx.stageID, true, staged.image⟩
  backup : d.backup = none

def created (d : Disk Image) : Disk Image := { d with marker := some ⟨0, none⟩ }

def written (host : Host Image) (info : Entry Image) (d : Disk Image) : Disk Image :=
  { d with marker := some (ownerMarker (txOwner host info.image)) }

def linked (host : Host Image) (info : Entry Image) (d : Disk Image) : Disk Image :=
  { written host info d with backup := d.executable }

def swapped (host : Host Image) (info staged : Entry Image) (d : Disk Image) : Disk Image :=
  { linked host info d with executable := some staged }

def restored (host : Host Image) (info : Entry Image) (d : Disk Image) : Disk Image :=
  { written host info d with executable := some info, backup := none }

def secureLog (host : Host Image) (info : Entry Image) (d : Disk Image) : Log Image :=
  [(.createMarker, created d), (.writeMarker, written host info d),
    (.linkBackup, linked host info d)]

inductive Course (host : Host Image) (faults : Faults) (tx : Transaction Image) (d : Disk Image) :
    Outcome Image → Prop
  | refused {result : TransactionResult} (hchanged : result.changed = false) :
    Course host faults tx d ⟨result, true, []⟩
  | unwritten {info staged : Entry Image} {oldVersion : String} {result : TransactionResult}
    (ready : Ready host tx d info staged oldVersion) (hmarker : d.marker = none)
    (hchanged : result.changed = false) :
    Course host faults tx d
      ⟨result, true, (.createMarker, created d) :: dropMarker faults (created d)⟩
  | unlinked {info staged : Entry Image} {oldVersion : String} {result : TransactionResult}
    (ready : Ready host tx d info staged oldVersion) (hmarker : d.marker = none)
    (hchanged : result.changed = false) :
    Course host faults tx d
      ⟨result, true, (.createMarker, created d) :: (.writeMarker, written host info d) ::
        dropMarker faults (written host info d)⟩
  | kept {info staged : Entry Image} {oldVersion : String} {result : TransactionResult}
    (ready : Ready host tx d info staged oldVersion) (hmarker : d.marker = none)
    (hchanged : result.changed = false) :
    Course host faults tx d ⟨result, true, secureLog host info d⟩
  | unswapped {info staged : Entry Image} {oldVersion : String} {result : TransactionResult}
    (ready : Ready host tx d info staged oldVersion) (hmarker : d.marker = none)
    (hchanged : result.changed = false) :
    Course host faults tx d
      ⟨result, true, secureLog host info d ++ dropBackup faults (linked host info d) ++
        dropMarker faults ((dropBackup faults (linked host info d)).final (linked host info d))⟩
  | stuck {info staged : Entry Image} {oldVersion : String} {result : TransactionResult}
    (ready : Ready host tx d info staged oldVersion) (hmarker : d.marker = none)
    (hchanged : result.changed = false) {site : Site} (hsite : site.restores = true)
    (hfault : faults site ≠ none) :
    Course host faults tx d
      ⟨result, true, secureLog host info d ++ [(.renameStage, swapped host info staged d)]⟩
  | rolledBack {info staged : Entry Image} {oldVersion : String} {result : TransactionResult}
    (ready : Ready host tx d info staged oldVersion) (hmarker : d.marker = none)
    (hchanged : result.changed = false) :
    Course host faults tx d
      ⟨result, true, secureLog host info d ++ [(.renameStage, swapped host info staged d)] ++
        (.restore, restored host info d) :: dropMarker faults (restored host info d)⟩
  | done {info staged : Entry Image} {oldVersion : String}
    (ready : Ready host tx d info staged oldVersion) (hmarker : d.marker = none)
    (hversion : host.readback staged.image = some tx.targetVersion) :
    Course host faults tx d
      ⟨{ installed := tx.targetVersion, previous := oldVersion, changed := true }, false,
        secureLog host info d ++ [(.renameStage, swapped host info staged d)]⟩

section Stages

variable {site : Site} {entry : Option (Entry Image)}

theorem attempt_eq_ok {u : Unit} : attempt faults site = .ok u ↔ faults site = none := by
  rw [attempt]
  cases faults site <;> simp

theorem lstat_eq_ok {e : Entry Image} :
    lstat faults site entry = .ok e ↔ faults site = none ∧ entry = some e := by
  rw [lstat, seq_eq_ok, attempt_eq_ok, orElse_eq_ok]

theorem txFileHash_eq_ok {hash : String} :
    txFileHash host faults site entry = .ok hash ↔
      faults site = none ∧ ∃ e, entry = some e ∧ host.fileHash e.image = hash := by
  rw [txFileHash, seq_eq_ok, attempt_eq_ok]
  simp only [bind_eq_ok, orElse_eq_ok, pure_eq_ok]

theorem readback_eq_ok {version : String} :
    readback host faults site entry = .ok version ↔
      faults site = none ∧ ∃ e, entry = some e ∧ host.readback e.image = some version := by
  rw [readback, seq_eq_ok, attempt_eq_ok]
  simp only [bind_eq_ok, orElse_eq_ok]

theorem inspect_eq_ok {host : Host Image} {faults : Faults} {tx : Transaction Image}
    {d : Disk Image} {info : Entry Image} {oldVersion : String} :
    inspect host faults tx d = .ok (info, oldVersion) ↔
      host.executablePath ≠ "" ∧ txSemver tx.targetVersion = true ∧ d.executable = some info ∧
        info.regular = true ∧ host.readback info.image = some oldVersion ∧
        txSemver oldVersion = true ∧ faults .statExecutable = none ∧
        faults .hashExecutable = none ∧ faults .readOld = none ∧
        faults .rehashExecutable = none := by
  constructor
  · intro h
    simp only [inspect, bind_eq_ok, guarded_eq_ok, mapError_eq_ok, lstat_eq_ok, readback_eq_ok,
      txFileHash_eq_ok, pure_eq_ok, Prod.mk.injEq] at h
    obtain ⟨hpath, e, ⟨hstat, he⟩, hregular, hash, ⟨hhash, -⟩, version, ⟨hread, e', he', hversion⟩,
      hsemver, current, ⟨hrehash, -⟩, -, rfl, rfl⟩ := h
    obtain rfl : e = e' := Option.some.inj (he.symm.trans he')
    simp only [not_or, Bool.not_eq_false] at hpath hregular hsemver
    exact ⟨hpath.1, hpath.2, he, hregular, hversion, hsemver, hstat, hhash, hread, hrehash⟩
  · rintro ⟨hpath, htarget, he, hregular, hversion, hsemver, hstat, hhash, hread, hrehash⟩
    simp only [inspect, bind_eq_ok, guarded_eq_ok, mapError_eq_ok, lstat_eq_ok, readback_eq_ok,
      txFileHash_eq_ok, pure_eq_ok, Prod.mk.injEq]
    refine ⟨by simp [hpath, htarget], info, ⟨hstat, he⟩, by simp [hregular], _,
      ⟨hhash, info, he, rfl⟩, oldVersion, ⟨hread, info, he, hversion⟩, by simp [hsemver], _,
      ⟨hrehash, info, he, rfl⟩, by simp, rfl, rfl⟩

theorem stage_eq_ok (h : stage faults tx = .ok staged) :
    staged = ⟨tx.stageID, true, staged.image⟩ ∧ ∃ archive, Delivers tx staged.image archive := by
  simp only [stage, bind_eq_ok, guarded_eq_ok, mapError_eq_ok, attempt_eq_ok, orElse_eq_ok,
    pure_eq_ok] at h
  obtain ⟨-, -, archive, harchive, -, -, hregular, -, -, hsum, -, -, -, -, -, -, image, hextracted,
    -, -, -, -, -, -, -, -, rfl⟩ := h
  simp only [not_or, not_not, Bool.not_eq_false, Nat.not_lt] at hregular hsum
  exact ⟨rfl, archive, harchive, hregular.1, hregular.2, hsum.1, hsum.2.1, hsum.2.2, hextracted⟩

theorem stage_of_delivers {image : Image} {archive : Archive Image}
    (h : Delivers tx image archive) : stage noFaults tx = .ok ⟨tx.stageID, true, image⟩ := by
  simp only [stage, bind_eq_ok, guarded_eq_ok, mapError_eq_ok, attempt_eq_ok, orElse_eq_ok,
    pure_eq_ok]
  have hsize := h.size
  refine ⟨(), rfl, archive, h.found, (), rfl, ?_, (), rfl, ?_, (), rfl, (), rfl, (), rfl, image,
    h.extracted, (), rfl, (), rfl, (), rfl, (), rfl, rfl⟩
  · simp only [h.regular, not_or]
    exact ⟨by simp, by omega⟩
  · simp [h.length, h.hex, h.sha256]

theorem unchanged_self {statSite hashSite : Site} (hregular : info.regular = true)
    (hstat : faults statSite = none) (hhash : faults hashSite = none) :
    unchanged host faults statSite hashSite info (some info) = true := by
  have hlstat : lstat faults statSite (some info) = .ok info := lstat_eq_ok.mpr ⟨hstat, rfl⟩
  have hhash' : txFileHash host faults hashSite (some info) = .ok (host.fileHash info.image) :=
    txFileHash_eq_ok.mpr ⟨hhash, info, rfl, rfl⟩
  simp [unchanged, hlstat, hhash', hregular]

theorem restore_eq_ok {d' : Disk Image} (ready : Ready host tx d info staged oldVersion)
    (h : restore host faults info staged (swapped host info staged d) = .ok d') :
    d' = restored host info d := by
  have hbackup : (swapped host info staged d).backup = some info := ready.executable
  simp only [restore, bind_eq_ok, guarded_eq_ok, mapError_eq_ok, lstat_eq_ok, pure_eq_ok,
    hbackup] at h
  obtain ⟨bi, ⟨-, hbi⟩, -, -, -, -, -, -, -, -, rfl⟩ := h
  cases hbi
  rfl

theorem restore_eq_error {e : String} (ready : Ready host tx d info staged oldVersion)
    (h : restore host faults info staged (swapped host info staged d) = .error e) :
    ∃ site : Site, site.restores = true ∧ faults site ≠ none := by
  by_contra hnone
  push Not at hnone
  have hbackup : (swapped host info staged d).backup = some info := ready.executable
  have hregular : staged.regular = true := by rw [ready.staged_eq]
  have htarget : restoreTarget host faults staged (some staged) = .ok () := by
    simp only [restoreTarget, mapError_eq_ok, attempt_eq_ok, bind_eq_ok, guarded_eq_ok,
      txFileHash_eq_ok, check_eq_ok]
    refine ⟨(), hnone .restoreStatTarget rfl, by simp [hregular], _,
      ⟨hnone .restoreHashTarget rfl, staged, rfl, rfl⟩, by simp⟩
  have hok : restore host faults info staged (swapped host info staged d) =
      .ok (restored host info d) := by
    simp only [restore, bind_eq_ok, guarded_eq_ok, mapError_eq_ok, lstat_eq_ok, txFileHash_eq_ok,
      attempt_eq_ok, pure_eq_ok, hbackup]
    refine ⟨info, ⟨hnone .restoreStatBackup rfl, rfl⟩, by simp [ready.regular], _,
      ⟨hnone .restoreHashBackup rfl, info, rfl, rfl⟩, by simp, (), htarget, (),
      hnone .restoreRename rfl, rfl⟩
  rw [hok] at h
  cases h

end Stages

section Courses

theorem refreshInstalled_changed (d : Disk Image) {result : TransactionResult}
    (h : result.changed = false) : (refreshInstalled host faults d result).changed = false := by
  rw [refreshInstalled]
  split <;> exact h

section

variable (ready : Ready host tx d info staged oldVersion)
include ready

theorem course_rollback (hmarker : d.marker = none) (re : Option OSError) :
    Course host faults tx d (rollback host faults info staged oldVersion re
      (swapped host info staged d)
      (secureLog host info d ++ [(.renameStage, swapped host info staged d)])) := by
  rw [rollback]
  split
  next e herror =>
    obtain ⟨site, hsite, hfault⟩ := restore_eq_error ready herror
    exact .stuck ready hmarker (refreshInstalled_changed _ rfl) hsite hfault
  next d' hok =>
    obtain rfl := restore_eq_ok ready hok
    exact .rolledBack ready hmarker (refreshInstalled_changed _ rfl)

theorem course_promote (hmarker : d.marker = none) :
    Course host faults tx d (promote host faults tx info staged oldVersion (linked host info d)
      (secureLog host info d)) := by
  rw [promote]
  split
  · exact .unswapped ready hmarker rfl
  · dsimp only
    split
    · exact course_rollback ready hmarker _
    next version hread =>
      split_ifs with hversion
      · exact course_rollback ready hmarker none
      · obtain ⟨-, e, he, hreadback⟩ := readback_eq_ok.mp hread
        cases he
        rw [not_not] at hversion
        subst hversion
        exact .done ready hmarker hreadback

theorem course_secure :
    Course host faults tx d (secure host faults tx info staged oldVersion d) := by
  rw [secure]
  dsimp only
  split
  · exact .refused rfl
  · exact .refused rfl
  next hmarker =>
    split
    · exact .unwritten ready hmarker rfl
    · split
      · exact .unlinked ready hmarker rfl
      · split_ifs
        · exact .kept ready hmarker (refreshInstalled_changed _ rfl)
        · exact course_promote ready hmarker

end

theorem applyTransaction_course (host : Host Image) (faults : Faults) (tx : Transaction Image)
    (d : Disk Image) : Course host faults tx d (applyTransaction host faults tx d) := by
  rw [applyTransaction]
  split
  · exact .refused rfl
  next info oldVersion hinspect =>
    split
    · exact .refused rfl
    next staged hstage =>
      split_ifs with hunchanged hbackup
      · exact .refused (refreshInstalled_changed _ rfl)
      · exact .refused rfl
      · obtain ⟨-, htarget, hexecutable, hregular, hversion, hsemver, -⟩ :=
          inspect_eq_ok.mp hinspect
        obtain ⟨hstaged, hdelivers⟩ := stage_eq_ok hstage
        refine course_secure ⟨hexecutable, hregular, hversion, hsemver, htarget, hdelivers,
          hstaged, ?_⟩
        simpa using (not_or.mp hbackup).2

end Courses

end MiLsp.SelfUpdate
