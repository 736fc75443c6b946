import MiLsp.Library.Traces
import MiLsp.SelfUpdate.Engine
import MiLsp.SelfUpdate.Rollback

namespace MiLsp.SelfUpdate

open Library.Traces

variable {Image : Type} {host : Host Image} {source : Source} {call : Update Image}
  {w w' : World Image} {s prior : Status}

section Versions

def NotBelow (before after : Option String) : Prop :=
  after = before ∨ ∃ a b, before = some a ∧ after = some b ∧ compareVersions b a = some .gt

theorem NotBelow.trans {a b c : Option String} (hab : NotBelow a b) (hbc : NotBelow b c) :
    NotBelow a c := by
  rcases hab with rfl | ⟨x, y, rfl, rfl, hxy⟩
  · exact hbc
  · rcases hbc with rfl | ⟨y', z, hy, rfl, hyz⟩
    · exact .inr ⟨x, y, rfl, rfl, hxy⟩
    · cases hy
      exact .inr ⟨x, z, rfl, rfl, compareVersions_gt_trans hyz hxy⟩

end Versions

section Transactions

variable {faults : Faults} {tx : Transaction Image} {d : Disk Image}

def Restoring (faults : Faults) : Prop := ∀ site : Site, site.restores = true → faults site = none

theorem final_dropMarker (log : Log Image) (m : Mutation) (d d₀ : Disk Image) :
    ((log ++ [(m, d)] ++ dropMarker faults d).final d₀).executable = d.executable := by
  rw [dropMarker]
  cases faults .removeMarker <;> simp [Log.final]

theorem transaction_executable (hrestore : Restoring faults) :
    ((applyTransaction host faults tx d).log.final d).executable = d.executable ∨
      ∃ staged, ((applyTransaction host faults tx d).log.final d).executable = some staged ∧
        host.readback staged.image = some tx.targetVersion := by
  have hcourse := applyTransaction_course host faults tx d
  generalize applyTransaction host faults tx d = out at hcourse ⊢
  cases hcourse with
  | refused => exact .inl rfl
  | unwritten ready => exact .inl (final_dropMarker [] _ (created d) d)
  | @unlinked info staged oldVersion result ready =>
    exact .inl (final_dropMarker [(.createMarker, created d)] _ (written host info d) d)
  | kept => exact .inl rfl
  | @unswapped info staged oldVersion result ready =>
    left
    cases hfault : faults .removeBackup with
    | some e =>
      simp only [dropBackup, hfault, List.append_nil]
      exact final_dropMarker [(.createMarker, created d), (.writeMarker, written host info d)] _
        (linked host info d) d
    | none =>
      simp only [dropBackup, hfault]
      exact final_dropMarker (secureLog host info d) _ { linked host info d with backup := none } d
  | stuck _ _ _ hsite hfault => exact absurd (hrestore _ hsite) hfault
  | @rolledBack info staged oldVersion result ready =>
    left
    have hfinal := @final_dropMarker _ faults
      (secureLog host info d ++ [(.renameStage, swapped host info staged d)]) .restore
      (restored host info d) d
    rw [ready.executable]
    exact hfinal
  | @done info staged oldVersion ready hmarker hversion =>
    exact .inr ⟨staged, by simp [Log.final, swapped], hversion⟩

end Transactions

section Replies

structure Kept (w : World Image) (version : String) : Prop where
  status : ∃ prior last, readCached w.status = some prior ∧ prior.lastResult = .updated ∧
    prior.installed = version ∧ prior.lastCheck = some last ∧
    ∃ cache, w.cache = some cache ∧ cache.lastCheck = some last ∧ cache.release.version = version

structure Honest (host : Host Image) (w : World Image) (reply : Reply Image) : Prop where
  notBelow : NotBelow (installedVersion host w.disk) (installedVersion host reply.world.disk)
  updated : reply.status.lastResult = .updated →
    installedVersion host reply.world.disk = some reply.status.latest ∧
      reply.status.installed = reply.status.latest ∧
      ((∃ before, installedVersion host w.disk = some before ∧
          compareVersions reply.status.latest before = some .gt) ∨
        reply.world.disk = w.disk ∧ Kept w reply.status.latest)

theorem honest_of_disk {reply : Reply Image} (hdisk : reply.world.disk = w.disk)
    (hresult : reply.status.lastResult ≠ .updated) : Honest host w reply :=
  ⟨.inl (by rw [hdisk]), fun h ↦ absurd h hresult⟩

theorem saveStatus_status (s : Status) (w : World Image) : (saveStatus call s w).status = s := by
  rw [saveStatus]
  split_ifs <;> rfl

theorem saveStatus_disk (s : Status) (w : World Image) :
    (saveStatus call s w).world.disk = w.disk := by
  rw [saveStatus]
  split_ifs <;> rfl

variable {code : String}

theorem finishFailure_lastResult (h : s.lastResult ≠ .updated) :
    (finishFailure call s code w).status.lastResult ≠ .updated := by
  rw [finishFailure]
  split_ifs
  · simp [saveStatus_status]
  · simp [saveStatus_status]
  · exact h

theorem finishFailure_disk (s : Status) (code : String) (w : World Image) :
    (finishFailure call s code w).world.disk = w.disk := by
  rw [finishFailure]
  split_ifs
  · exact saveStatus_disk _ w
  · exact saveStatus_disk _ w
  · rfl

theorem honest_finishFailure (hdisk : w'.disk = w.disk) (h : s.lastResult ≠ .updated) :
    Honest host w (finishFailure call s code w') :=
  honest_of_disk ((finishFailure_disk s code w').trans hdisk) (finishFailure_lastResult h)

theorem readInstalled_eq_some {fails : Bool} {d : Disk Image} {v : String}
    (h : readInstalled host fails d = some v) : installedVersion host d = some v := by
  rw [readInstalled] at h
  split_ifs at h
  exact (Option.filter_eq_some_iff.mp h).1

theorem honest_install (hrestore : Restoring call.faults) {version hash : String}
    {archive : Archive Image} (hdisk : w'.disk = w.disk)
    (hinstalled : installedVersion host w.disk = some s.installed)
    (hgt : compareVersions version s.installed = some .gt) (hlatest : s.latest = version)
    (hresult : s.lastResult ≠ .updated) :
    Honest host w (install host call s version archive hash w') := by
  let tx : Transaction Image := ⟨some archive, hash, version, call.stageID⟩
  have hversion : NotBelow (installedVersion host w.disk)
      (installedVersion host ((applyTransaction host call.faults tx w'.disk).log.final
        w'.disk)) := by
    rcases @transaction_executable _ host call.faults tx w'.disk hrestore with
      h | ⟨staged, hstaged, hread⟩
    · left
      rw [installedVersion, h, hdisk]
      rfl
    · refine .inr ⟨s.installed, version, hinstalled, ?_, hgt⟩
      rw [installedVersion, hstaged]
      exact hread
  rw [install]
  split
  · exact ⟨hversion, fun h ↦ absurd h hresult⟩
  next actual hread =>
    split_ifs with hfailed hcode hmismatch hprevious
    · refine ⟨?_, fun h ↦ absurd h (finishFailure_lastResult hresult)⟩
      rw [finishFailure_disk]
      exact hversion
    · exact ⟨hversion, fun h ↦ absurd h hresult⟩
    · exact ⟨hversion, fun h ↦ absurd h hresult⟩
    · exact ⟨hversion, fun h ↦ absurd h hresult⟩
    · rw [not_or, not_not] at hmismatch
      have hactual := readInstalled_eq_some hread
      constructor
      · rw [saveStatus_disk]
        exact hversion
      · intro _
        rw [saveStatus_status, saveStatus_disk]
        rw [hlatest, hactual, hmismatch.2]
        exact ⟨rfl, rfl, .inl ⟨s.installed, hinstalled, hgt⟩⟩

variable {release : Release}

section

variable (hrestore : Restoring call.faults) (hdisk : w'.disk = w.disk)
  (hinstalled : installedVersion host w.disk = some s.installed)
include hrestore hdisk hinstalled

theorem honest_download (hgt : compareVersions release.version s.installed = some .gt)
    (hlatest : s.latest = release.version) (hresult : s.lastResult ≠ .updated) :
    Honest host w (download host source call s release w') := by
  have hfailure (code : String) : Honest host w (finishFailure call s code w') :=
    honest_finishFailure hdisk hresult
  rw [download]
  split
  · split
    · exact honest_of_disk hdisk hresult
    · split
      · exact hfailure _
      · split
        · exact hfailure _
        · split
          · exact hfailure _
          · split
            · exact hfailure _
            · split_ifs
              · exact honest_of_disk hdisk hresult
              · exact hfailure _
              · exact honest_install hrestore hdisk hinstalled hgt hlatest hresult
  · exact hfailure _

theorem honest_upgrade (hresult : s.lastResult ≠ .updated) :
    Honest host w (upgrade host source call s release w') := by
  rw [upgrade]
  split
  · exact honest_finishFailure hdisk hresult
  · exact honest_finishFailure hdisk hresult
  · refine honest_of_disk ((saveStatus_disk _ w').trans hdisk) ?_
    rw [saveStatus_status]
    simp
  next hgt =>
    split
    · exact honest_finishFailure hdisk hresult
    · exact honest_finishFailure hdisk hresult
    · exact honest_download hrestore hdisk hinstalled hgt rfl hresult

end

theorem validStatus_updated (h : validStatus s = true) (hresult : s.lastResult = .updated) :
    s.installed = s.latest := by
  rw [validStatus, hresult] at h
  simp only [Bool.and_eq_true, decide_eq_true_eq] at h
  exact h.2.2

variable {cache : UpdateCache} {last : ℤ}

theorem freshCache_eq_some (h : freshCache call w = some (cache, last)) :
    w.cache = some cache ∧ cache.lastCheck = some last := by
  rw [freshCache] at h
  split at h
  next cache' hcache =>
    split at h
    next last' hlast =>
      split_ifs at h
      cases h
      exact ⟨hcache, hlast⟩
    · cases h
  · cases h

theorem honest_nilStatus (hinstalled : installedVersion host w.disk = some s.installed)
    (hcache : w.cache = some cache ∧ cache.lastCheck = some last)
    (hprior : (readCached w.status).getD {} = prior) (hlast : prior.lastCheck = some last)
    (hlatest : prior.lastResult = .updated → prior.latest = cache.release.version)
    (hsame : prior.installed = s.installed) : Honest host w (nilStatus s prior w) := by
  refine ⟨.inl rfl, fun hupdated ↦ ?_⟩
  cases hcached : readCached w.status with
  | none =>
    rw [hcached] at hprior
    subst hprior
    cases hlast
  | some status =>
    rw [hcached, Option.getD_some] at hprior
    subst hprior
    have hvalid := (Option.filter_eq_some_iff.mp hcached).2
    have hequal := validStatus_updated hvalid hupdated
    have hversion := hlatest hupdated
    change installedVersion host w.disk = some status.latest ∧ status.installed = status.latest ∧ _
    refine ⟨by rw [hinstalled, ← hsame, hequal], hequal,
      .inr ⟨rfl, ⟨status, last, hcached, hupdated,
      hequal, hlast, cache, hcache.1, hcache.2, hversion.symm⟩⟩⟩

section

variable (hrestore : Restoring call.faults)
  (hinstalled : installedVersion host w.disk = some s.installed) (hresult : s.lastResult ≠ .updated)
include hrestore hinstalled hresult

theorem honest_applyFresh (hcache : w.cache = some cache ∧ cache.lastCheck = some last)
    (hprior : (readCached w.status).getD {} = prior) :
    Honest host w (applyFresh host source call s prior cache last w) := by
  rw [applyFresh]
  split_ifs with herror hcode hkept hkept hversion
  · exact honest_of_disk rfl hresult
  · refine honest_nilStatus hinstalled hcache hprior hkept.1 ?_ hkept.2.1
    intro hupdated
    rw [hkept.2.2.1] at hupdated
    cases hupdated
  · exact honest_finishFailure rfl hresult
  · exact honest_of_disk rfl hresult
  · exact honest_nilStatus hinstalled hcache hprior hkept.2.1 (fun _ ↦ hkept.2.2.1) hkept.2.2.2
  · exact honest_upgrade hrestore rfl hinstalled hresult

theorem honest_applyFetched : Honest host w (applyFetched host source call s w) := by
  rw [applyFetched]
  dsimp only
  split
  · exact honest_of_disk rfl hresult
  · split
    · split
      · exact honest_of_disk rfl hresult
      · exact honest_finishFailure rfl hresult
    · split
      · exact honest_of_disk rfl hresult
      · exact honest_upgrade hrestore rfl hinstalled hresult

end

theorem updatePolicy_reason {p : PolicySource} {policy : Policy}
    (h : updatePolicy p = .ok policy) : policy.reason ≠ some .updated := by
  rw [updatePolicy] at h
  split at h
  · cases h
    simp
  · split at h
    all_goals cases h
    · simp
    · dsimp only
      split_ifs <;> simp
    · dsimp only
      split_ifs <;> simp

theorem honest_applyLocked (hrestore : Restoring call.faults) {reason : Option LastResult}
    (hreason : reason ≠ some .updated)
    (hinstalled : installedVersion host w.disk = some s.installed)
    (hresult : s.lastResult ≠ .updated) :
    Honest host w (applyLocked host source call reason s w) := by
  rw [applyLocked.eq_def]
  cases reason with
  | some reason =>
    refine honest_of_disk (saveStatus_disk _ w) ?_
    rw [saveStatus_status]
    exact fun h ↦ hreason (congrArg some h)
  | none =>
    dsimp only
    split
    next cache last hfresh =>
      exact honest_applyFresh hrestore hinstalled hresult (freshCache_eq_some hfresh) rfl
    · exact honest_applyFetched hrestore hinstalled hresult

theorem honest_apply (hrestore : Restoring call.faults) (w : World Image) :
    Honest host w (apply host source call w) := by
  rw [apply]
  split
  · exact honest_of_disk rfl (by simp)
  · split
    · exact honest_of_disk rfl (by simp)
    · dsimp only
      split
      · exact honest_of_disk rfl (by simp)
      · exact honest_of_disk rfl (by simp)
      · split
        · exact honest_of_disk rfl (by simp)
        next actual hread =>
          split
          · exact honest_of_disk rfl (by simp)
          next policy hpolicy =>
            have hhonest := @honest_applyLocked _ host source call w
              { schema := statusSchema
                tool := toolName
                installed := actual
                channel := policy.channel
                auto := policy.auto }
              hrestore _ (updatePolicy_reason hpolicy) (readInstalled_eq_some hread) (by simp)
            exact ⟨hhonest.notBelow, hhonest.updated⟩

end Replies

section Runs

inductive Action (Image : Type)
  | update (call : Update Image)
  | meddle (status : Option Status) (cache : Option UpdateCache)

def actionStep (host : Host Image) (source : Source) (w : World Image) :
    Action Image → Option (World Image)
  | .update call => some (apply host source call w).world
  | .meddle status cache => some { w with status, cache }

def ActionRestores (_ : World Image) : Action Image → Prop
  | .update call => Restoring call.faults
  | .meddle _ _ => True

theorem notBelow_step {w₀ w w' : World Image} {action : Action Image}
    (h : NotBelow (installedVersion host w₀.disk) (installedVersion host w.disk))
    (hrestore : ActionRestores w action) (hstep : actionStep host source w action = some w') :
    NotBelow (installedVersion host w₀.disk) (installedVersion host w'.disk) := by
  cases action with
  | update call =>
    cases hstep
    exact h.trans (honest_apply hrestore w).notBelow
  | meddle status cache =>
    cases hstep
    exact h

end Runs

/-- The installed version stays or grows. A reported update was installed over a smaller version, or
repeats an earlier call's report for the same check and installed version. -/
theorem updater_never_downgrades (host : Host Image) (source : Source) :
    (∀ (w : World Image) (actions : List (Action Image)),
      Obeys (actionStep host source) ActionRestores actions w →
      Always (actionStep host source)
        (fun w' ↦ NotBelow (installedVersion host w.disk) (installedVersion host w'.disk))
        actions w) ∧
    ∀ (w : World Image) (call : Update Image), Restoring call.faults →
      Honest host w (apply host source call w) :=
  ⟨fun _ _ hobeys ↦ always_of_obeys (fun _ _ _ h hrestore hstep ↦ notBelow_step h hrestore hstep)
    (.inl rfl) hobeys, fun w _ hrestore ↦ honest_apply hrestore w⟩

def sampleSource : Source := ⟨fun _ ↦ true, "linux-x64"⟩

def sampleAsset (name : String) : Asset := ⟨name, downloadPrefix ++ "v3.0.0/" ++ name, 1⟩

def sampleRelease : Release where
  version := "3.0.0"
  assets :=
    [sampleAsset (releaseAssetName sampleSource "3.0.0"), sampleAsset (checksumsName "3.0.0")]

def sampleCall (image : Bool) (faults : Faults) : Update Bool where
  automatic := true
  minimumVersion := "0.16.0"
  now := 1
  firstReadFails := false
  lockedReadFails := false
  lastReadFails := false
  policy := ⟨true, false, .missing⟩
  lockedPolicy := ⟨true, false, .missing⟩
  lock := .taken
  firstSaveFails := false
  secondSaveFails := false
  statusSaveFails := false
  latest := .ok sampleRelease
  mkdirFails := false
  checksums := some [sampleDigest 'd' ++ "  " ++ releaseAssetName sampleSource "3.0.0"]
  archive := some ⟨true, 1, sampleDigest 'd', some image⟩
  archiveOpenFails := false
  archiveReadFails := false
  stageID := 2
  faults

def thirdHost : Host Bool :=
  { sampleHost with readback := fun image ↦ if image then some "3.0.0" else some "1.0.0" }

def sampleWorld (image : Bool) : World Bool := ⟨⟨some ⟨1, true, image⟩, none, none⟩, none, none⟩

theorem sample_call_honest :
    Honest thirdHost (sampleWorld false)
      (apply thirdHost sampleSource (sampleCall true noFaults) (sampleWorld false)) :=
  (updater_never_downgrades thirdHost sampleSource).2 (sampleWorld false)
    (sampleCall true noFaults) fun _ _ ↦ rfl

def brokenRestore : Faults := fun site ↦ if site = .restoreRename then some .other else none

/-- The second of two automatic calls repeats the first one's report; and a release whose image is
older than its name stays installed when the restore fails. -/
theorem kept_report_and_failed_restore :
    (let first := apply thirdHost sampleSource (sampleCall true noFaults) (sampleWorld false)
     let second := apply thirdHost sampleSource (sampleCall true noFaults) first.world
     first.status.lastResult = .updated ∧ second.status.lastResult = .updated ∧
       second.world.disk = first.world.disk) ∧
    installedVersion sampleHost (sampleWorld true).disk = some "2.0.0" ∧
    installedVersion sampleHost (apply sampleHost sampleSource (sampleCall false brokenRestore)
      (sampleWorld true)).world.disk = some "1.0.0" := by
  decide +kernel

end MiLsp.SelfUpdate
