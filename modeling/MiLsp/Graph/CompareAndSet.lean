import MiLsp.Graph.Pointer
import MiLsp.Graph.Publication

namespace MiLsp.Graph

open Library Attempt Option

variable {host : GraphHost} {s s' : GraphStore} {id : GraphDigest}
  {expectedPrior : Option GraphDigest} {publishedAt : Time}

section Errors

theorem checkAncestor_failsOnly (ws : String) (first : Bool) (id : GraphDigest) :
    FailsOnly .generationCorrupt (checkAncestor host s ws first id) := by
  refine (failsOnly_mapError _).bind fun g ↦ .guarded ?_
  cases first with
  | true => exact failsOnly_ok
  | false =>
    refine .guarded (.bind (.guarded (.guarded (.guarded ?_))) fun _ ↦ failsOnly_ok)
    split
    · exact failsOnly_ok
    · exact (failsOnly_mapError _).bind fun _ ↦ failsOnly_ok

theorem walkGraphGenerationAncestry_failsOnly (ws : String) (depth : ℕ) (seen : List GraphDigest)
    (replacement : Option (Option GraphDigest)) (id : GraphDigest) :
    FailsOnly .generationCorrupt
      (walkGraphGenerationAncestry host s ws depth seen replacement id) := by
  induction depth generalizing seen replacement id with
  | zero => exact failsOnly_error
  | succ depth ih =>
    refine .guarded ((checkAncestor_failsOnly ws _ id).bind fun g ↦ ?_)
    split
    · exact failsOnly_ok
    · exact .guarded (ih _ _ _)

theorem validateGraphGenerationAncestry_failsOnly (id : GraphDigest) (ws : String)
    (replacement : Option (Option GraphDigest)) :
    FailsOnly .generationCorrupt (validateGraphGenerationAncestry host s id ws replacement) := by
  refine .guarded ((walkGraphGenerationAncestry_failsOnly _ _ _ _ _).bind fun _ ↦ ?_)
  split
  · exact failsOnly_ok
  · exact walkGraphGenerationAncestry_failsOnly _ _ _ _ _

theorem validateActiveGraphPriorForReplacement_failsOnly (old : GraphDigest) (rows : ℕ) :
    FailsOnly .pointerConflict
      (validateActiveGraphPriorForReplacement host s old expectedPrior rows) := by
  refine .guarded (.guarded ?_)
  dsimp only
  split
  · exact failsOnly_error
  · exact failsOnly_ok

end Errors

/-- The activation inside a transaction does what the standalone one does, and refuses a caller who
expects no active generation when there is one. -/
def ComparesAndSets (host : GraphHost) (s : GraphStore) (id : GraphDigest)
    (expectedPrior : Option GraphDigest) (publishedAt : Time) : Prop :=
  (∀ s', activateGraphGenerationTx host s id expectedPrior publishedAt = .ok s' ↔
    activateGraphGenerationAt host s id expectedPrior publishedAt = .ok s') ∧
  (expectedPrior = none → publishedAt ≠ 0 →
    (∃ g, validateGraphGenerationConn host s id = .ok g) →
    (∃ old, s.active = some old ∧ old ≠ id) →
    activateGraphGenerationTx host s id expectedPrior publishedAt = .error .pointerConflict)

/-- A caller who expects no active generation finds none, or is refused for another reason. -/
def NothingToOverwrite (host : GraphHost) (s : GraphStore) (id : GraphDigest)
    (expectedPrior : Option GraphDigest) (publishedAt : Time) : Prop :=
  expectedPrior = none → publishedAt ≠ 0 → ∀ g, validateGraphGenerationConn host s id = .ok g →
    ∀ old, s.active = some old →
      validateActiveGraphPriorForReplacement host s old none s.activeRows ≠ .ok () ∨
      old = id ∧ validateGraphGenerationAncestry host s id g.workspaceIdentity none ≠ .ok ()

def switchAt (host : GraphHost) (s : GraphStore) (g : GraphGeneration)
    (expectedPrior : Option GraphDigest) (publishedAt : Time) : Except GraphError GraphStore := do
  checkPrior host s g s.active expectedPrior
  if g.status ≠ .staged && g.status ≠ .retired then throw .generationInvalid
  validateGraphGenerationAncestry host s g.generationID g.workspaceIdentity
    (proposedAncestry g s.active)
  s.switchActive g s.active publishedAt

namespace ActivePointer

variable (h : ActivePointer s) {g : GraphGeneration}

include h

theorem checkActiveRows_eq : checkActiveRows s.active s.activeRows = .ok () := by
  simp [checkActiveRows, h.pointed.activeRows_eq]

theorem checkPrior_of_active {old : GraphDigest} (hold : s.active = some old) :
    checkPrior host s g s.active expectedPrior = (do
      validateActiveGraphPriorForReplacement host s old expectedPrior s.activeRows
      validateGraphGenerationAncestry host s old g.workspaceIdentity none) := by
  unfold checkPrior
  rw [h.checkActiveRows_eq, hold]
  rfl

section

variable (hg : s.generations.find? id = some g)
include hg

theorem status_ne_active (hid : s.active ≠ some id) :
    g.status ≠ .active := fun hstatus ↦ hid ((h.pointer id).mpr ⟨g, hg, hstatus⟩)

theorem status_eq_active (hid : s.active = some id) : g.status = .active := by
  obtain ⟨g', hg', hstatus⟩ := (h.pointer id).mp hid
  obtain rfl := Option.some.inj (hg.symm.trans hg')
  exact hstatus

end

end ActivePointer

section Branches

variable {g : GraphGeneration} (htime : publishedAt ≠ 0)
  (hg : validateGraphGenerationConn host s id = .ok g)

include htime hg

theorem activateAt_of_ne (hne : expectedPrior ≠ s.active) :
    activateGraphGenerationAt host s id expectedPrior publishedAt = .error .pointerConflict := by
  unfold activateGraphGenerationAt
  rw [if_neg htime, hg]
  exact if_pos hne

theorem activateAt_of_not_active (hne : g.status ≠ .active) :
    activateGraphGenerationAt host s id s.active publishedAt =
      switchAt host s g s.active publishedAt := by
  have hkey := Table.key_of_find? (validateGraphGenerationConn_eq_ok.mp hg).1
  unfold activateGraphGenerationAt switchAt
  rw [if_neg htime, hg, hkey]
  refine (if_neg (not_not.mpr rfl)).trans (congrArg _ (funext fun _ ↦ ?_))
  cases hstatus : g.status with
  | active => exact absurd hstatus hne
  | staged => rfl
  | retired => rfl
  | invalid => rfl

section

variable (h : ActivePointer s)
include h

theorem activateAt_of_active (hid : s.active = some id) :
    activateGraphGenerationAt host s id s.active publishedAt = .ok s' ↔
      validateActiveGraphPriorForReplacement host s id (some id) s.activeRows = .ok () ∧
      validateGraphGenerationAncestry host s id g.workspaceIdentity none = .ok () ∧ s = s' := by
  have hstatus := h.status_eq_active (validateGraphGenerationConn_eq_ok.mp hg).1 hid
  unfold activateGraphGenerationAt
  rw [if_neg htime, hg]
  refine (iff_of_eq (congrArg (· = _) (if_neg (not_not.mpr rfl)))).trans ?_
  rw [h.checkPrior_of_active hid, hstatus, seq_eq_ok, seq_eq_ok, hid]
  rw [guarded_eq_ok, seq_eq_ok, pure_eq_ok]
  constructor
  · intro ⟨⟨hprior, hancestry⟩, _, _, hs'⟩
    exact ⟨hprior, hancestry, hs'⟩
  · intro ⟨hprior, hancestry, hs'⟩
    exact ⟨⟨hprior, hancestry⟩, not_not.mpr rfl, hancestry, hs'⟩

theorem activateTx_of_active (hid : s.active = some id) :
    activateGraphGenerationTx host s id expectedPrior publishedAt = .ok s' ↔
      validateActiveGraphPriorForReplacement host s id expectedPrior s.activeRows = .ok () ∧
      validateGraphGenerationAncestry host s id g.workspaceIdentity none = .ok () ∧ s = s' := by
  have hstatus := h.status_eq_active (validateGraphGenerationConn_eq_ok.mp hg).1 hid
  have hearly : (g.status = .active && s.active = some id) = true := by simp [hstatus, hid]
  unfold activateGraphGenerationTx
  rw [if_neg htime, hg]
  refine (iff_of_eq (congrArg (· = _) (if_pos hearly))).trans ?_
  rw [seq_eq_ok, seq_eq_ok, pure_eq_ok]

theorem activateTx_of_not_active (hne : g.status ≠ .active)
    (hexpected : expectedPrior = s.active ∨ expectedPrior = none) :
    activateGraphGenerationTx host s id expectedPrior publishedAt =
      switchAt host s g expectedPrior publishedAt := by
  have hkey := Table.key_of_find? (validateGraphGenerationConn_eq_ok.mp hg).1
  have hlate : ¬(g.status = .active && s.active = some id) = true := by simp [hne]
  have hpass : ¬(expectedPrior.isSome && expectedPrior ≠ s.active ||
      expectedPrior.isNone && s.active.isNone && s.activeRows ≠ 0) = true := by
    rw [h.pointed.activeRows_eq]
    obtain rfl | rfl := hexpected <;> cases s.active <;> simp
  unfold activateGraphGenerationTx switchAt
  rw [if_neg htime, hg, h.repairedPointer_eq, hkey]
  exact (if_neg hlate).trans (if_neg hpass)

theorem activateTx_of_ne (hne : g.status ≠ .active) {e : GraphDigest} (he : s.active ≠ some e) :
    activateGraphGenerationTx host s id (some e) publishedAt = .error .pointerConflict := by
  have hlate : ¬(g.status = .active && s.active = some id) = true := by simp [hne]
  unfold activateGraphGenerationTx
  rw [if_neg htime, hg, h.repairedPointer_eq]
  refine (if_neg hlate).trans (if_pos ?_)
  simp [he.symm]

end

end Branches

theorem switchAt_blind (h : ActivePointer s) {g : GraphGeneration} {old : GraphDigest}
    (hg : s.generations.find? g.generationID = some g) (hne : g.status ≠ .active)
    (hold : s.active = some old) :
    switchAt host s g none publishedAt = .error .pointerConflict ↔
      validateActiveGraphPriorForReplacement host s old none s.activeRows ≠ .ok () := by
  unfold switchAt
  rw [h.checkPrior_of_active hold]
  cases hprior : validateActiveGraphPriorForReplacement host s old none s.activeRows with
  | error e =>
    obtain rfl := validateActiveGraphPriorForReplacement_failsOnly old s.activeRows e hprior
    exact iff_of_true rfl nofun
  | ok =>
    -- the checks that are left fail with other errors, and the switch itself goes through
    refine iff_of_false ?_ (not_not.mpr rfl)
    have hcorrupt : GraphError.pointerConflict ≠ .generationCorrupt := nofun
    have hswitch : s.switchActive g s.active publishedAt ≠ .error .pointerConflict := by
      obtain ⟨s', hs'⟩ := h.pointed.switchActive_succeeds hg hne
      rw [hs']
      exact nofun
    refine bind_ne_error
      ((validateGraphGenerationAncestry_failsOnly old _ none).ne_error hcorrupt) fun _ ↦ ?_
    split
    · exact nofun
    · exact bind_ne_error
        ((validateGraphGenerationAncestry_failsOnly _ _ _).ne_error hcorrupt) fun _ ↦ hswitch

section Cases

variable {g : GraphGeneration} (h : ActivePointer s) (htime : publishedAt ≠ 0)
  (hg : validateGraphGenerationConn host s id = .ok g)

include h htime hg

theorem comparesAndSets_expecting (e : GraphDigest) :
    ComparesAndSets host s id (some e) publishedAt := by
  have hfind := (validateGraphGenerationConn_eq_ok.mp hg).1
  refine ⟨fun s' ↦ ?_, nofun⟩
  by_cases hid : s.active = some id
  · rw [activateTx_of_active htime hg h hid]
    by_cases he : some e = s.active
    · rw [he, activateAt_of_active htime hg h hid, hid]
    · rw [activateAt_of_ne htime hg he]
      refine iff_of_false ?_ nofun
      intro ⟨hprior, _⟩
      obtain ⟨-, hprior⟩ := guarded_eq_ok.mp hprior
      obtain ⟨hsame, -⟩ := guarded_eq_ok.mp hprior
      rw [hid] at he
      simp only [any_some, decide_eq_true_eq, ne_eq, not_not] at hsame
      exact he (congrArg some hsame)
  · have hne := h.status_ne_active hfind hid
    by_cases he : some e = s.active
    · rw [activateTx_of_not_active htime hg h hne (.inl he), he,
        activateAt_of_not_active htime hg hne]
    · rw [activateTx_of_ne htime hg h hne (Ne.symm he), activateAt_of_ne htime hg he]

theorem comparesAndSets_first (hnone : s.active = none) :
    ComparesAndSets host s id none publishedAt := by
  have hfind := (validateGraphGenerationConn_eq_ok.mp hg).1
  have hne := h.status_ne_active hfind (by simp [hnone])
  refine ⟨fun s' ↦ ?_, ?_⟩
  · rw [activateTx_of_not_active htime hg h hne (.inr rfl), ← hnone,
      activateAt_of_not_active htime hg hne]
  · intro _ _ _ ⟨old, hold, _⟩
    rw [hnone] at hold
    cases hold

theorem comparesAndSets_again (hid : s.active = some id) :
    ComparesAndSets host s id none publishedAt ↔
      validateActiveGraphPriorForReplacement host s id none s.activeRows ≠ .ok () ∨
      validateGraphGenerationAncestry host s id g.workspaceIdentity none ≠ .ok () := by
  have hat : activateGraphGenerationAt host s id none publishedAt = .error .pointerConflict :=
    activateAt_of_ne htime hg (by simp [hid])
  have htx : ∀ s', activateGraphGenerationTx host s id none publishedAt = .ok s' ↔ _ :=
    fun s' ↦ activateTx_of_active htime hg h hid
  constructor
  · intro ⟨hagrees, _⟩
    by_contra hpasses
    rw [not_or, not_not, not_not] at hpasses
    have hok := (hagrees s).mp ((htx s).mpr ⟨hpasses.1, hpasses.2, rfl⟩)
    rw [hat] at hok
    cases hok
  · intro hfails
    refine ⟨fun s' ↦ ?_, ?_⟩
    · rw [htx, hat]
      refine iff_of_false ?_ nofun
      intro ⟨hprior, hancestry, _⟩
      obtain hfails | hfails := hfails
      · exact hfails hprior
      · exact hfails hancestry
    · intro _ _ _ ⟨old, hold, hne⟩
      exact absurd (Option.some.inj (hold.symm.trans hid)) hne

theorem comparesAndSets_over {old : GraphDigest} (hold : s.active = some old) (hid : old ≠ id) :
    ComparesAndSets host s id none publishedAt ↔
      validateActiveGraphPriorForReplacement host s old none s.activeRows ≠ .ok () := by
  have hfind := (validateGraphGenerationConn_eq_ok.mp hg).1
  have hkey := Table.key_of_find? hfind
  have hne := h.status_ne_active hfind (by simp [hold, hid])
  have hat : activateGraphGenerationAt host s id none publishedAt = .error .pointerConflict :=
    activateAt_of_ne htime hg (by simp [hold])
  have htx : activateGraphGenerationTx host s id none publishedAt =
      switchAt host s g none publishedAt :=
    activateTx_of_not_active htime hg h hne (.inr rfl)
  rw [← switchAt_blind h (hkey ▸ hfind) hne hold, ← htx]
  constructor
  · intro ⟨_, hrefuses⟩
    exact hrefuses rfl htime ⟨g, hg⟩ ⟨old, hold, hid⟩
  · intro hconflict
    exact ⟨fun s' ↦ by rw [hat, hconflict], fun _ _ _ _ ↦ hconflict⟩

end Cases

theorem comparesAndSets_of_refused {e : GraphError}
    (hat : activateGraphGenerationAt host s id expectedPrior publishedAt = .error e)
    (htx : activateGraphGenerationTx host s id expectedPrior publishedAt = .error e)
    (hinvalid : publishedAt ≠ 0 → ∀ g, validateGraphGenerationConn host s id ≠ .ok g) :
    ComparesAndSets host s id expectedPrior publishedAt ↔
      NothingToOverwrite host s id expectedPrior publishedAt := by
  refine iff_of_true ⟨fun s' ↦ by rw [hat, htx], ?_⟩ ?_
  · intro _ htime ⟨g, hg⟩
    exact absurd hg (hinvalid htime g)
  · intro _ htime g hg
    exact absurd hg (hinvalid htime g)

/-- It is a compare-and-set exactly when a caller without an expectation has nothing to overwrite.
-/
theorem comparesAndSets_iff (h : ActivePointer s) :
    ComparesAndSets host s id expectedPrior publishedAt ↔
      NothingToOverwrite host s id expectedPrior publishedAt := by
  by_cases htime : publishedAt = 0
  · exact comparesAndSets_of_refused (if_pos htime) (if_pos htime) fun htime' ↦ absurd htime htime'
  cases hg : validateGraphGenerationConn host s id with
  | error e =>
    have hat : activateGraphGenerationAt host s id expectedPrior publishedAt = .error e := by
      unfold activateGraphGenerationAt
      rw [if_neg htime, hg]
      rfl
    have htx : activateGraphGenerationTx host s id expectedPrior publishedAt = .error e := by
      unfold activateGraphGenerationTx
      rw [if_neg htime, hg]
      rfl
    exact comparesAndSets_of_refused hat htx fun _ g ↦ by simp [hg]
  | ok g =>
    cases expectedPrior with
    | some e => exact iff_of_true (comparesAndSets_expecting h htime hg e) nofun
    | none =>
      have hnothing : NothingToOverwrite host s id none publishedAt ↔ ∀ old, s.active = some old →
          validateActiveGraphPriorForReplacement host s old none s.activeRows ≠ .ok () ∨
          old = id ∧
            validateGraphGenerationAncestry host s id g.workspaceIdentity none ≠ .ok () := by
        simp [NothingToOverwrite, htime, hg]
      rw [hnothing]
      cases hold : s.active with
      | none => exact iff_of_true (comparesAndSets_first h htime hg hold) nofun
      | some old =>
        simp only [Option.some.injEq, forall_eq']
        by_cases hid : old = id
        · subst hid
          rw [comparesAndSets_again h htime hg hold]
          simp only [true_and]
        · rw [comparesAndSets_over h htime hg hold hid]
          simp only [hid, false_and, or_false]

def sampleStaged : GraphStore :=
  (GraphCall.runAll sampleHost ⟨fun _ ↦ "", fun ids ↦ ids⟩ (.empty [])
    [.stage (sampleBundle 0), .activateAt (sampleSource 0) none 1, .stage (sampleBundle 1)]).graph

theorem sampleStaged_activePointer : ActivePointer sampleStaged :=
  GraphCall.runAll_activePointer activePointer_empty

theorem comparesAndSets_sample :
    ComparesAndSets sampleHost sampleStaged (sampleSource 1) (some (sampleSource 0)) 2 :=
  (comparesAndSets_iff sampleStaged_activePointer).mpr nofun

/-- A publisher that saw no active generation replaces one that was published since. -/
theorem activateTx_overwrites :
    sampleStaged.active = some (sampleSource 0) ∧
    (∃ s', activateGraphGenerationTx sampleHost sampleStaged (sampleSource 1) none 2 = .ok s') ∧
    ¬(∃ s', activateGraphGenerationAt sampleHost sampleStaged (sampleSource 1) none 2 = .ok s') ∧
    ¬ComparesAndSets sampleHost sampleStaged (sampleSource 1) none 2 := by
  have hactive : sampleStaged.active = some (sampleSource 0) := by decide +kernel
  have htx : (activateGraphGenerationTx sampleHost sampleStaged (sampleSource 1) none
      2).toOption.isSome = true := by decide +kernel
  have hat : (activateGraphGenerationAt sampleHost sampleStaged (sampleSource 1) none
      2).toOption.isSome = false := by decide +kernel
  obtain ⟨s', hs'⟩ := isSome_iff_exists.mp htx
  rw [toOption_eq_some] at hs'
  have hrefused : ¬∃ s', activateGraphGenerationAt sampleHost sampleStaged (sampleSource 1) none 2 =
      .ok s' := by
    intro ⟨s', hs'⟩
    rw [hs'] at hat
    cases hat
  exact ⟨hactive, ⟨s', hs'⟩, hrefused, fun hcompares ↦ hrefused ⟨s', (hcompares.1 s').mp hs'⟩⟩

end MiLsp.Graph
