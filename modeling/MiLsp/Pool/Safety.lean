import MiLsp.Library.Traces
import MiLsp.Pool.Runtimes
import MiLsp.Pool.Watchers

namespace MiLsp.Pool

open Library Traces Entries List Manager

section Steps

variable {cfg : Config} {st st' : Manager} {a : Action} {started : Option ℕ}

/-- A failing call closes a runtime only if it alone uses it under the computed key. After the
shutdown no call makes a runtime, starts a server or registers a watcher. -/
def Orderly (st : Manager) : Action → Prop
  | .acquire _ _ _ _ started | .warm _ _ _ started => st.stage = .down → started = none
  | .serve _ up => st.stage = .down → up = false
  | .drop c => Registered st c.runtime →
      (st.runtime c.runtime).key = c.rk ∧ (st.runtime c.runtime).activeCalls = 1
  | .registerWatcher _ => st.stage.registers = true
  | _ => True

theorem inv_watchers (h : Inv st) (hruntimes : st'.runtimes = st.runtimes)
    (hruntime : st'.runtime = st.runtime) (hnext : st'.nextRuntime = st.nextRuntime)
    (hcalls : st'.calls = st.calls) (hstage : st'.stage = st.stage) : Inv st' := by
  obtain ⟨runtimes, runtime, next, calls, watchers, roots, opened, nextWatcher, ensures, stopping,
    stage⟩ := st'
  subst hruntimes hruntime hnext hcalls hstage
  exact { h with }

theorem inv_shutdown (h : Inv st) (hstep : st.shutdown = some st') : Inv st' := by
  have hup : st.stage ≠ .down := by
    intro hdown
    rw [shutdown, hdown] at hstep
    cases hstep
  rw [shutdown] at hstep
  split at hstep
  next =>
    cases hstep
    exact inv_stage h hup nofun
  next =>
    cases hstep
    exact inv_stage h hup nofun
  next =>
    cases hstep
    exact inv_stage h hup nofun
  next =>
    cases hstep
    have hdraining : Inv { st with stage := .draining (st.watchers.map Prod.snd) } :=
      inv_stage h hup nofun
    exact inv_watchers hdraining rfl rfl rfl rfl rfl
  next watchers _ =>
    obtain ⟨-, hst⟩ := Option.ite_none_right_eq_some.mp hstep
    cases hst
    exact inv_down h hup
  next => cases hstep

theorem watching_shutdown (h : Watching st) (hstep : st.shutdown = some st') : Watching st' := by
  rw [shutdown] at hstep
  split at hstep
  next =>
    cases hstep
    exact { h with drained := nofun }
  next =>
    cases hstep
    exact { h with drained := nofun }
  next =>
    cases hstep
    exact { h with drained := nofun }
  next =>
    cases hstep
    exact watching_stopWatchers h
  next watchers hstage =>
    obtain ⟨-, hst⟩ := Option.ite_none_right_eq_some.mp hstep
    cases hst
    have hnil := h.drained (by rw [hstage]; rfl)
    rw [foldl_evict]
    exact { h with drained := fun _ ↦ hnil }
  next => cases hstep

theorem step_acquire {rk key : String} {backend : Backend} {m : Moment} :
    step cfg st (.acquire rk key backend m started) =
      some { (st.getOrCreate cfg m key backend true started).1 with
        calls := (st.getOrCreate cfg m key backend true started).2.elim []
          (fun i ↦ [⟨i, rk, backend = .kotlin, .acquired⟩]) ++
          (st.getOrCreate cfg m key backend true started).1.calls } := by
  rw [step]
  generalize st.getOrCreate cfg m key backend true started = out
  obtain ⟨st', runtime⟩ := out
  cases runtime with
  | none => rfl
  | some i => rfl

theorem inv_reorder (h : Inv st) {runtimes : List (String × ℕ)}
    (hperm : runtimes.Perm st.runtimes) : Inv { st with runtimes } := by
  have hreg (i : ℕ) : Registered { st with runtimes } i ↔ Registered st i :=
    (hperm.map Prod.snd).mem_iff
  exact { h with
    keys := (hperm.map Prod.fst).nodup_iff.mpr h.keys
    registered := fun pair hpair ↦ h.registered pair (hperm.mem_iff.mp hpair)
    held := fun c hc ↦ (h.held c hc).imp_left (hreg _).mpr
    dropped := fun c hc hdropped ↦ mt (hreg _).mp (h.dropped c hc hdropped)
    running := fun i hi ↦ (h.running i hi).imp_left (hreg _).mpr
    down := fun hdown ↦ perm_nil.mp (h.down hdown ▸ hperm) }

inductive Moves (st : Manager) (a : Action) : Manager → Prop
  | gets {key : String} {mark : ℕ} {started runtime : Option ℕ} {out : Manager}
      {take : ℕ → List Call} (hgets : Gets st key mark started out runtime)
      (hstarted : Orderly st a → st.stage = .down → started = none)
      (hruntime : ∀ i, ∀ c ∈ take i, c.runtime = i)
      (hphase : ∀ i, ∀ c ∈ take i, c.phase = .acquired) (hlength : ∀ i, (take i).length = mark) :
      Moves st a { out with calls := runtime.elim [] take ++ out.calls }
  | advance {c : Call} {r : Runtime} {phase : Phase} (hc : c ∈ st.calls)
      (hold : c.phase ≠ .dropped ∧ c.phase ≠ .spent) (hphase : phase ≠ .dropped)
      (hkey : r.key = (st.runtime c.runtime).key)
      (hactive : r.activeCalls = (st.runtime c.runtime).activeCalls)
      (hclosed : r.closed = (st.runtime c.runtime).closed)
      (hrunning : r.running = true → (st.runtime c.runtime).running = true ∨
        (Orderly st a → st.stage ≠ .down)) :
      Moves st a ((st.set c.runtime r).advance c phase)
  | drop {c : Call} (ha : a = .drop c) (hc : c ∈ st.calls) (hphase : c.phase = .failing) :
      Moves st a (st.drop c)
  | close {c : Call} (ha : a = .close c) (hc : c ∈ st.calls) (hphase : c.phase = .dropped) :
      Moves st a (st.close c)
  | release {c : Call} (hc : c ∈ st.calls) (hphase : c.phase = .spent ∨ c.phase = .answered) :
      Moves st a (st.releaseRuntime c)
  | sweep {st' : Manager} (hsweep : Sweep st st') : Moves st a st'
  | watch {st' : Manager} (hruntimes : st'.runtimes = st.runtimes)
      (hruntime : st'.runtime = st.runtime) (hnext : st'.nextRuntime = st.nextRuntime)
      (hcalls : st'.calls = st.calls) (hstage : st'.stage = st.stage)
      (hwatching : Watching st → Orderly st a → Watching st') : Moves st a st'
  | shutdown {st' : Manager} (ha : a = .shutdown) (hst' : st.shutdown = some st') : Moves st a st'
  | reorder {runtimes : List (String × ℕ)} (hperm : runtimes.Perm st.runtimes) :
      Moves st a { st with runtimes }

section Moves

variable {c : Call} {t : Ensure}

theorem moves_warm (hkeys : (st.runtimes.map Prod.fst).Nodup) (key : String) (backend : Backend)
    (m : Moment) (started : Option ℕ) : Moves st (.warm key backend m started)
      (st.getOrCreate cfg m key backend false started).1 := by
  have hmoves := @Moves.gets st (.warm key backend m started) _ _ _ _ _ (fun _ ↦ [])
    (gets_getOrCreate cfg m hkeys key backend false started) id (by simp) (by simp) (by simp)
  rw [Option.elim_nil] at hmoves
  exact hmoves

theorem moves_serve (hc : c ∈ st.calls) (hphase : c.phase = .acquired) (up : Bool) :
    Moves st (.serve c up) (st.serve c up) := by
  refine .advance hc (by simp [hphase]) nofun rfl rfl rfl fun hrunning ↦ ?_
  refine (Bool.or_eq_true_iff.mp hrunning).imp_right fun hup hok hdown ↦ ?_
  rw [hok hdown] at hup
  cases hup

theorem moves_update {failed : Bool} (hc : c ∈ st.calls) (hphase : c.phase = .updating failed)
    (now : ℤ) (pid : ℕ) (locked : Bool) : Moves st a (st.update c failed now pid locked) := by
  obtain ⟨r, hr, hkey, hactive, hclosed, hrunning⟩ := update_fields st c failed now pid locked
  rw [hr]
  exact .advance hc (by simp [hphase]) (by split_ifs <;> exact nofun) hkey hactive hclosed
    fun hrun ↦ .inl (hrunning.symm.trans hrun)

theorem moves_ensure (key : String) : Moves st (.ensure key) (st.ensureFileWatcher cfg key) := by
  have hwatching := fun (h : Watching st) (_ : Orderly st (.ensure key)) ↦ watching_ensure h cfg key
  rw [ensureFileWatcher] at hwatching ⊢
  split_ifs at hwatching ⊢
  · exact .watch rfl rfl rfl rfl rfl hwatching
  · rw [makeRoom_frame] at hwatching ⊢
    exact .watch rfl rfl rfl rfl rfl hwatching

theorem moves_startWatcher (ht : t.watcher = none) (started : Bool) :
    Moves st (.startWatcher t started) (st.startWatcher t started) := by
  have hwatching := fun (h : Watching st) (_ : Orderly st (.startWatcher t started)) ↦
    watching_start h ht started
  rw [startWatcher] at hwatching ⊢
  split_ifs at hwatching ⊢
  · exact .watch rfl rfl rfl rfl rfl hwatching
  · exact .watch rfl rfl rfl rfl rfl hwatching

theorem moves_registerWatcher {w : ℕ} (hw : t.watcher = some w) :
    Moves st (.registerWatcher t) (st.registerWatcher cfg t w) := by
  have hwatching := fun (h : Watching st) (hok : Orderly st (.registerWatcher t)) ↦
    watching_register h cfg hw hok
  rw [registerWatcher] at hwatching ⊢
  split_ifs at hwatching ⊢
  · exact .watch rfl rfl rfl rfl rfl hwatching
  · rw [makeRoom_frame] at hwatching ⊢
    exact .watch rfl rfl rfl rfl rfl hwatching

end Moves

theorem step_moves (hkeys : (st.runtimes.map Prod.fst).Nodup) (hstep : step cfg st a = some st') :
    Moves st a st' := by
  cases a with
  | acquire rk key backend m started =>
    rw [step_acquire] at hstep
    cases hstep
    exact .gets (gets_getOrCreate cfg m hkeys key backend true started) id (by simp) (by simp)
      (by simp)
  | warm key backend m started =>
    cases hstep
    exact moves_warm hkeys key backend m started
  | serve c up =>
    obtain ⟨⟨hc, hphase⟩, hst⟩ := Option.ite_none_right_eq_some.mp hstep
    cases hst
    exact moves_serve hc hphase up
  | answer c failed died =>
    obtain ⟨⟨hc, hphase⟩, hst⟩ := Option.ite_none_right_eq_some.mp hstep
    cases hst
    exact .advance hc (by simp [hphase]) nofun rfl rfl rfl fun hrunning ↦
      .inl (Bool.and_eq_true_iff.mp hrunning).1
  | update c now pid locked =>
    rw [step] at hstep
    split at hstep
    next failed hphase =>
      obtain ⟨hc, hst⟩ := Option.ite_none_right_eq_some.mp hstep
      cases hst
      exact moves_update hc hphase now pid locked
    next => cases hstep
  | drop c =>
    obtain ⟨⟨hc, hphase⟩, hst⟩ := Option.ite_none_right_eq_some.mp hstep
    cases hst
    exact .drop rfl hc hphase
  | close c =>
    obtain ⟨⟨hc, hphase⟩, hst⟩ := Option.ite_none_right_eq_some.mp hstep
    cases hst
    exact .close rfl hc hphase
  | release c =>
    obtain ⟨⟨hc, hphase⟩, hst⟩ := Option.ite_none_right_eq_some.mp hstep
    cases hst
    exact .release hc hphase
  | reap m privateBytes =>
    obtain ⟨-, hst⟩ := Option.ite_none_right_eq_some.mp hstep
    cases hst
    exact .sweep (sweep_reapIdle cfg m hkeys privateBytes)
  | ensure key =>
    cases hstep
    exact moves_ensure key
  | startWatcher t started =>
    obtain ⟨⟨-, ht, -⟩, hst⟩ := Option.ite_none_right_eq_some.mp hstep
    cases hst
    exact moves_startWatcher ht started
  | giveUpWatcher t =>
    obtain ⟨-, hst⟩ := Option.ite_none_right_eq_some.mp hstep
    cases hst
    exact .watch rfl rfl rfl rfl rfl fun h _ ↦ watching_giveUp h t
  | registerWatcher t =>
    rw [step] at hstep
    split at hstep
    next w hw =>
      obtain ⟨-, hst⟩ := Option.ite_none_right_eq_some.mp hstep
      cases hst
      exact moves_registerWatcher hw
    next => cases hstep
  | stopWatcher w =>
    obtain ⟨-, hst⟩ := Option.ite_none_right_eq_some.mp hstep
    cases hst
    exact .watch rfl rfl rfl rfl rfl fun h _ ↦ watching_stop h w
  | shutdown => exact .shutdown rfl hstep
  | reorder runtimes =>
    obtain ⟨hperm, hst⟩ := Option.ite_none_right_eq_some.mp hstep
    cases hst
    exact .reorder hperm

theorem inv_step (h : Inv st) (hok : Orderly st a) (hstep : step cfg st a = some st') :
    Inv st' := by
  cases step_moves h.keys hstep with
  | gets hgets hstarted hruntime hphase hlength =>
    exact inv_gets h hgets (hstarted hok) hruntime hphase hlength
  | @advance c _ _ hc hold hphase hkey hactive hclosed hrunning =>
    refine inv_advance h hc hold hphase hkey hactive hclosed fun hrun ↦ ?_
    refine (hrunning hrun).imp_right fun hup ↦ ?_
    rcases h.held c hc with hreg | hdown | ⟨-, hend⟩
    · exact hreg
    · exact absurd hdown.1 (hup hok)
    · exact absurd hend (not_or.mpr hold)
  | drop ha hc hphase =>
    subst ha
    exact inv_drop h hc hphase (fun hreg ↦ (hok hreg).1) fun hreg ↦ (hok hreg).2
  | close ha hc hphase => exact inv_close h hc hphase
  | release hc hphase => exact inv_release h hc hphase
  | sweep hsweep => exact inv_sweep h hsweep
  | watch hruntimes hruntime hnext hcalls hstage =>
    exact inv_watchers h hruntimes hruntime hnext hcalls hstage
  | shutdown ha hst' => exact inv_shutdown h hst'
  | reorder hperm => exact inv_reorder h hperm

theorem watching_sweep (h : Watching st) (hsweep : Sweep st st') : Watching st' := by
  rw [hsweep.frame]
  exact { h with }

theorem watching_gets (h : Watching st) {key : String} {mark : ℕ} {runtime : Option ℕ}
    (hgets : Gets st key mark started st' runtime) : Watching st' := by
  cases hgets with
  | reuse => exact { h with }
  | refuse hroom => exact watching_sweep h hroom
  | @create room _ r hroom _ _ _ _ _ hsweep =>
    have hwatching := watching_sweep h hroom
    have hregistered : Watching (room.register r) := { hwatching with }
    exact watching_sweep hregistered hsweep

theorem watching_step (h : Watching st) (hinv : Inv st) (hok : Orderly st a)
    (hstep : step cfg st a = some st') : Watching st' := by
  cases step_moves hinv.keys hstep with
  | gets hgets =>
    have hgot := watching_gets h hgets
    exact { hgot with }
  | sweep hsweep => exact watching_sweep h hsweep
  | watch _ _ _ _ _ hwatching => exact hwatching h hok
  | shutdown ha hst' => exact watching_shutdown h hst'
  | advance => exact { h with }
  | drop => exact { h with }
  | close => exact { h with }
  | release => exact { h with }
  | reorder => exact { h with }

end Steps

section Closers

variable {cfg : Config} {st st' : Manager} {a : Action}

/-- No step but the shutdown closes a client on which another call is active. -/
def Careful (cfg : Config) (st : Manager) (a : Action) : Prop :=
  ∀ st', step cfg st a = some st' → ∀ i, (st.runtime i).closed = false →
    (st'.runtime i).closed = true → a = .shutdown ∨ (∀ c ∈ st.calls, c.runtime ≠ i) ∨
      ∃ c ∈ st.calls, a = .close c ∧ ∀ c' ∈ st.calls.erase c, c'.runtime ≠ i

theorem gets_closes (h : Inv st) {key : String} {mark : ℕ} {started runtime : Option ℕ}
    (hgets : Gets st key mark started st' runtime) {i : ℕ} (hopen : (st.runtime i).closed = false)
    (hclosed : (st'.runtime i).closed = true) : ∀ c ∈ st.calls, c.runtime ≠ i := by
  cases hgets with
  | reuse _ _ _ _ hsame =>
    have hfalse := (update_field Runtime.closed hsame i).symm.trans hclosed
    rw [hopen] at hfalse
    cases hfalse
  | refuse hroom => exact h.no_call (hroom.idle_of_closed hopen hclosed)
  | @create room _ r hroom _ _ _ _ hnew hsweep =>
    have hnext : room.nextRuntime = st.nextRuntime := by rw [hroom.frame]
    rcases eq_or_ne i room.nextRuntime with rfl | hne
    · intro c hc heq
      have hlt := h.calls c hc
      omega
    · have hregister : (room.register r).runtime i = room.runtime i := Function.update_of_ne hne ..
      cases hroomClosed : (room.runtime i).closed with
      | true => exact h.no_call (hroom.idle_of_closed hopen hroomClosed)
      | false =>
        have hidle := hsweep.idle_of_closed (hregister ▸ hroomClosed) hclosed
        rw [hregister, hroom.activeCalls] at hidle
        exact h.no_call hidle

theorem close_careful (h : Inv st) {c : Call} (hc : c ∈ st.calls) (hphase : c.phase = .dropped)
    (hopen : (st.runtime c.runtime).closed = false) :
    ∀ c' ∈ st.calls.erase c, c'.runtime ≠ c.runtime := by
  rcases h.held c hc with hreg | ⟨-, hclosed⟩ | ⟨hsole, -⟩
  · exact absurd hreg (h.dropped c hc hphase)
  · rw [hopen] at hclosed
    cases hclosed
  · exact runtime_ne_of_sole h hc hsole

theorem careful_of_inv (h : Inv st) (a : Action) : Careful cfg st a := by
  intro st' hstep i hopen hclosed
  have hchanged : (st'.runtime i).closed ≠ (st.runtime i).closed := by
    rw [hopen, hclosed]
    exact nofun
  cases step_moves h.keys hstep with
  | gets hgets => exact .inr (.inl (gets_closes h hgets hopen hclosed))
  | advance _ _ _ _ _ hsame => exact absurd (update_field Runtime.closed hsame i) hchanged
  | drop => exact absurd rfl hchanged
  | @close c ha hc hphase =>
    rcases eq_or_ne i c.runtime with rfl | hne
    · exact .inr (.inr ⟨c, hc, ha, close_careful h hc hphase hopen⟩)
    · have hsame : ((st.close c).runtime i) = st.runtime i := Function.update_of_ne hne ..
      exact absurd (congrArg Runtime.closed hsame) hchanged
  | release =>
    refine absurd (update_field Runtime.closed ?_ i) hchanged
    rfl
  | sweep hsweep => exact .inr (.inl (h.no_call (hsweep.idle_of_closed hopen hclosed)))
  | watch _ hruntime => exact absurd (by rw [hruntime]) hchanged
  | shutdown ha => exact .inl ha
  | reorder => exact absurd rfl hchanged

end Closers

/-- No closed client is registered. After the shutdown nothing is, and what is open is about to be
closed. -/
structure Safe (st : Manager) : Prop where
  registered : ∀ pair ∈ st.runtimes, (st.runtime pair.2).closed = false
  down : st.stage = .down → st.runtimes = [] ∧ st.watchers = []
  runtimes : st.stage = .down → ∀ i, (st.runtime i).running = true →
    ∃ c ∈ st.calls, c.runtime = i ∧ c.phase = .dropped
  watchers : st.stage = .down → ∀ w ∈ st.opened, w ∈ st.stopping ∨
    ∃ t ∈ st.ensures, t.watcher = some w

theorem safe_of_inv {st : Manager} (h : Inv st) (hw : Watching st) : Safe st where
  registered := fun pair hpair ↦ (h.registered pair hpair).2.1
  down := fun hdown ↦ ⟨h.down hdown, hw.drained (by rw [hdown]; rfl)⟩
  runtimes := by
    intro hdown i hi
    refine (h.running i hi).resolve_left ?_
    rw [Registered, h.down hdown]
    exact not_mem_nil
  watchers := by
    intro hdown w hopened
    refine (hw.opened w hopened).resolve_left ?_
    rw [hw.drained (by rw [hdown]; rfl)]
    exact not_mem_nil

theorem orderly_pool_safe (cfg : Config) (actions : List Action)
    (h : Obeys (step cfg) Orderly actions {}) :
    Obeys (step cfg) (Careful cfg) actions {} ∧ Always (step cfg) Safe actions {} := by
  have hinv : Always (step cfg) (fun st ↦ Inv st ∧ Watching st) actions {} :=
    always_of_obeys
      (fun _ _ _ hst hok hstep ↦
        ⟨inv_step hst.1 hok hstep, watching_step hst.2 hst.1 hok hstep⟩)
      ⟨inv_empty, watching_empty⟩ h
  exact ⟨hinv.obeys fun _ a hst ↦ careful_of_inv hst.1 a,
    hinv.mono fun _ hst ↦ safe_of_inv hst.1 hst.2⟩

section Samples

instance (st : Manager) : (a : Action) → Decidable (Orderly st a)
  | .acquire _ _ _ _ started | .warm _ _ _ started =>
    inferInstanceAs (Decidable (st.stage = .down → started = none))
  | .serve _ up => inferInstanceAs (Decidable (st.stage = .down → up = false))
  | .drop c => inferInstanceAs (Decidable (c.runtime ∈ st.runtimes.map Prod.snd → _ ∧ _))
  | .registerWatcher _ => inferInstanceAs (Decidable (st.stage.registers = true))
  | .answer .. | .update .. | .close _ | .release _ | .reap .. | .ensure _ | .startWatcher ..
  | .giveUpWatcher _ | .stopWatcher _ | .shutdown | .reorder _ => .isTrue trivial

def sampleConfig : Config where
  maxWorkers := 4
  idleTimeout := 1800 * 1000000000
  softMemoryThresh := 500 * 1024 * 1024
  maxRuntimeBytes := 1024 * 1024 * 1024
  totalRuntimeBytes := 0
  maxWatchedRoots := 8

def sampleMoment : Moment := ⟨1, fun _ ↦ 0⟩

def sampleAcquire (rk key : String) : Action := .acquire rk key .kotlin sampleMoment (some 7)

def sampleFailure (rk : String) : List Action :=
  let c : Call := ⟨0, rk, true, .acquired⟩
  [.serve c true, .answer { c with phase := .serving } true false,
    .update { c with phase := .updating true } 2 7 true, .drop { c with phase := .failing }]

def sampleClose (rk : String) : Action := .close ⟨0, rk, true, .dropped⟩

def sampleShutdown : List Action := .replicate 5 .shutdown

theorem lone_failure_safe : let actions := sampleAcquire "k" "k" :: sampleFailure "k" ++
      [sampleClose "k", .release ⟨0, "k", true, .spent⟩, .ensure "/ws"] ++ sampleShutdown
    Obeys (step sampleConfig) (Careful sampleConfig) actions {} ∧
      Always (step sampleConfig) Safe actions {} :=
  orderly_pool_safe sampleConfig _ (obeys_of_run (by decide +kernel))

/-- A failing call closes a client in use or leaves it registered; a late call leaves a runtime or a
watcher behind the shutdown, or starts the server of a closed client. -/
theorem disorderly_pool_unsafe :
    ¬Obeys (step sampleConfig) (Careful sampleConfig)
      (sampleAcquire "k" "k" :: sampleAcquire "k" "k" :: sampleFailure "k" ++ [sampleClose "k"])
      {} ∧
    ¬Always (step sampleConfig) Safe
      (sampleAcquire "old" "k" :: sampleFailure "old" ++ [sampleClose "old"]) {} ∧
    ¬Always (step sampleConfig) Safe (sampleShutdown ++ [sampleAcquire "k" "k"]) {} ∧
    ¬Always (step sampleConfig) Safe
      (.ensure "/ws" :: .startWatcher ⟨"/ws", none⟩ true :: sampleShutdown ++
        [.registerWatcher ⟨"/ws", some 0⟩]) {} ∧
    ¬Always (step sampleConfig) Safe
      (sampleAcquire "k" "k" :: sampleShutdown ++ [.serve ⟨0, "k", true, .acquired⟩ true]) {} := by
  refine ⟨?_, ?_, ?_, ?_, ?_⟩
  · refine not_obeys_of_end (fun st st' ↦ decide ((st.runtime 0).closed = false ∧
      (st'.runtime 0).closed = true ∧ ⟨0, "k", true, .acquired⟩ ∈ st.calls)) ?_ (by decide +kernel)
    intro st st' hstep hbad hcareful
    obtain ⟨hopen, hclosed, hcall⟩ := of_decide_eq_true hbad
    rcases hcareful st' hstep 0 hopen hclosed with hnot | hidle | ⟨c, -, hclose, hidle⟩
    · cases hnot
    · exact hidle _ hcall rfl
    · cases hclose
      exact hidle _ ((mem_erase_of_ne (by decide)).mpr hcall) rfl
  · refine not_always_of_end (fun st ↦ decide (("k", 0) ∈ st.runtimes ∧ (st.runtime 0).closed)) ?_
      (by decide +kernel)
    intro st hbad hsafe
    obtain ⟨hmem, hclosed⟩ := of_decide_eq_true hbad
    rw [hsafe.registered _ hmem] at hclosed
    cases hclosed
  · refine not_always_of_end (fun st ↦ decide (st.stage = .down ∧ st.runtimes ≠ [])) ?_
      (by decide +kernel)
    intro st hbad hsafe
    obtain ⟨hdown, hmem⟩ := of_decide_eq_true hbad
    exact hmem (hsafe.down hdown).1
  · refine not_always_of_end (fun st ↦ decide (st.stage = .down ∧ st.watchers ≠ [])) ?_
      (by decide +kernel)
    intro st hbad hsafe
    obtain ⟨hdown, hmem⟩ := of_decide_eq_true hbad
    exact hmem (hsafe.down hdown).2
  · refine not_always_of_end (fun st ↦ decide (st.stage = .down ∧ (st.runtime 0).running ∧
      ∀ c ∈ st.calls, c.phase ≠ .dropped)) ?_ (by decide +kernel)
    intro st hbad hsafe
    obtain ⟨hdown, hrunning, hcalls⟩ := of_decide_eq_true hbad
    obtain ⟨c, hc, -, hphase⟩ := hsafe.runtimes hdown 0 hrunning
    exact hcalls c hc hphase

end Samples

end MiLsp.Pool
