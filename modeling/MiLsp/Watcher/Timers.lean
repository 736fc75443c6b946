import MiLsp.Watcher.Events

namespace MiLsp.Watcher

open Library.Traces List Function Option

def Stage.isBlocked : Stage → Bool
  | blocked _ => true
  | _ => false

def Flight.toDefer (f : Flight) : List WatcherEvent :=
  f.deferred ++ (f.todo.filter (·.2.isBlocked)).map Prod.fst

namespace FileWatcher

variable (s : FileWatcher)

/-- A timer runs, or a flush will start one for a blocked event it has not put off before. -/
def WillFlush : Prop :=
  s.batchTimer ≠ .idle ∨ ∃ f ∈ s.flights, ∃ e ∈ f.toDefer, s.batchRetry e.path = 0

def Attended : Prop :=
  ∀ x ∈ s.pending.rows, s.batchDiagnostics x.path = none → s.WillFlush

/-- An indexed flush clears a pending path's diagnostic, and a failed one gives a path back without
one, only while the path is attended to. -/
def Guarded : Action → Prop
  | .proceed i => ∀ f, s.flights[i]? = some f → match f.todo with
    | (e, .succeeded) :: _ => (∃ x ∈ s.pending.rows, x.path = e.path) →
      s.batchTimer ≠ .idle ∨ ∃ g ∈ s.flights, ∃ q ∈ g.toDefer,
        s.batchRetry q.path = 0 ∨ q.path = e.path
    | (e, .recorded) :: _ => s.batchDiagnostics e.path = none → s.WillFlush
    | _ => True
  | _ => True

variable {s s' : FileWatcher} {f f' : Flight} {i : ℕ} {P : Flight → Prop} {e : WatcherEvent}

theorem exists_flight_of_set (hf : s.flights[i]? = some f) (h : P f → P f')
    (hex : ∃ g ∈ s.flights, P g) : ∃ g ∈ s.flights.set i f', P g := by
  obtain ⟨g, hg, hP⟩ := hex
  rcases @mem_flights_set s f f' i hf g hg with rfl | hg
  · exact ⟨f', mem_set_self hf, h hP⟩
  · exact ⟨g, hg, hP⟩

theorem exists_flight_set_iff (hf : s.flights[i]? = some f) (h : P f' ↔ P f) :
    (∃ g ∈ s.flights.set i f', P g) ↔ ∃ g ∈ s.flights, P g := by
  constructor
  · rintro ⟨g, hg, hP⟩
    rcases mem_or_eq_of_mem_set hg with hg | rfl
    · exact ⟨g, hg, hP⟩
    · exact ⟨f, mem_of_getElem? hf, h.mp hP⟩
  · exact exists_flight_of_set hf h.mpr

theorem updateDiagnosticLocked_eq_none (s : FileWatcher) (path : String)
    (diagnostic : WatcherDiagnostic) (other : String) :
    (s.updateDiagnosticLocked path diagnostic).batchDiagnostics other = none ↔
      other ≠ path ∧ s.batchDiagnostics other = none := by
  rw [updateDiagnosticLocked]
  dsimp only
  rw [update_apply]
  split_ifs with h
  · simp [h]
  · simp [h]

section

variable (acc : FileWatcher × ℕ) {events : List WatcherEvent}
include acc

theorem deferEvent_diagnostics (e : WatcherEvent) (path : String) :
    (deferEvent acc e).1.batchDiagnostics path = none ↔
      path ≠ e.path ∧ acc.1.batchDiagnostics path = none := by
  have hdiag : (deferEvent acc e).1.batchDiagnostics path =
      (((acc.1.addPending { e with op := e.op.orWrite }).updateDiagnosticLocked e.path
        ⟨"", acc.1.batchRetry e.path + 1,
          maxDeferredBatchRetries < acc.1.batchRetry e.path + 1⟩).batchDiagnostics path) := by
    rw [deferEvent]
    split_ifs <;> rfl
  rw [hdiag, updateDiagnosticLocked_eq_none]
  rfl

theorem deferEvent_retry (e : WatcherEvent) (path : String) :
    (deferEvent acc e).1.batchRetry path =
      if path = e.path then acc.1.batchRetry e.path + 1 else acc.1.batchRetry path := by
  have hretry : (deferEvent acc e).1.batchRetry =
      Function.update acc.1.batchRetry e.path (acc.1.batchRetry e.path + 1) := by
    rw [deferEvent]
    split_ifs <;> rfl
  rw [hretry, update_apply]

theorem deferEvent_count (e : WatcherEvent) :
    (deferEvent acc e).2 = if acc.1.batchRetry e.path = 0 then acc.2 + 1 else acc.2 := by
  have hcount : (deferEvent acc e).2 =
      if maxDeferredBatchRetries < acc.1.batchRetry e.path + 1 then acc.2 else acc.2 + 1 := by
    rw [deferEvent]
    split_ifs with h h' h'
    · rfl
    · exact absurd h h'
    · exact absurd h' h
    · rfl
  rw [hcount, maxDeferredBatchRetries]
  split_ifs <;> omega

theorem foldl_deferEvent_diagnostics (events : List WatcherEvent) (path : String) :
    (events.foldl deferEvent acc).1.batchDiagnostics path = none ↔
      (∀ e ∈ events, path ≠ e.path) ∧ acc.1.batchDiagnostics path = none := by
  induction events generalizing acc with
  | nil => simp
  | cons e events ih =>
    rw [foldl_cons, ih, deferEvent_diagnostics, forall_mem_cons, and_assoc]
    tauto

theorem foldl_deferEvent_retry {path : String} (h : ∀ e ∈ events, path ≠ e.path) :
    (events.foldl deferEvent acc).1.batchRetry path = acc.1.batchRetry path := by
  induction events generalizing acc with
  | nil => rfl
  | cons e events ih =>
    rw [foldl_cons, ih _ fun e' he' ↦ h e' (mem_cons_of_mem e he'), deferEvent_retry,
      if_neg (h e mem_cons_self)]

theorem le_foldl_deferEvent_count (events : List WatcherEvent) :
    acc.2 ≤ (events.foldl deferEvent acc).2 := by
  induction events generalizing acc with
  | nil => exact le_rfl
  | cons e events ih =>
    have hone : acc.2 ≤ (deferEvent acc e).2 := by
      rw [deferEvent_count]
      split_ifs <;> omega
    exact hone.trans (ih (deferEvent acc e))

theorem foldl_deferEvent_count_pos {e : WatcherEvent} (he : e ∈ events)
    (h : acc.1.batchRetry e.path = 0) : 0 < (events.foldl deferEvent acc).2 := by
  induction events generalizing acc with
  | nil => cases he
  | cons e' events ih =>
    by_cases hpath : e.path = e'.path
    · have hcount := deferEvent_count acc e'
      rw [← hpath, if_pos h] at hcount
      have hle := le_foldl_deferEvent_count (deferEvent acc e') events
      rw [foldl_cons]
      omega
    · refine ih (deferEvent acc e') ?_ ?_
      · rcases mem_cons.mp he with rfl | he
        · exact absurd rfl hpath
        · exact he
      · rw [deferEvent_retry, if_neg hpath, h]

end

theorem deferBatchRetryEvents_timer (s : FileWatcher) (events : List WatcherEvent) :
    (s.deferBatchRetryEvents events).batchRetry =
        (events.foldl deferEvent (s, 0)).1.batchRetry ∧
      (s.deferBatchRetryEvents events).batchDiagnostics =
        (events.foldl deferEvent (s, 0)).1.batchDiagnostics ∧
      (s.batchTimer ≠ .idle ∨ 0 < (events.foldl deferEvent (s, 0)).2 →
        (s.deferBatchRetryEvents events).batchTimer ≠ .idle) := by
  obtain ⟨-, -, -, htimer⟩ := foldl_deferEvent_frame (s, 0) events
  rw [deferBatchRetryEvents]
  dsimp only
  split_ifs with hcount
  · refine ⟨rfl, rfl, ?_⟩
    rintro (h | h)
    · rw [htimer]
      exact h
    · omega
  · obtain ⟨-, -, -, -, hretry, hdiagnostics, harmed⟩ :=
      arm_frame (events.foldl deferEvent (s, 0)).1
    exact ⟨hretry, hdiagnostics, fun _ ↦ harmed⟩

theorem attended_defer (hf : s.flights[i]? = some f) (htodo : f.todo = []) (h : s.Attended)
    (hproceed : s.proceed i f = some s') : s'.Attended := by
  rw [proceed, htodo] at hproceed
  cases hproceed
  obtain ⟨hpending, hflights, -, -⟩ := deferBatchRetryEvents_frame s f.deferred
  obtain ⟨hretry, hdiag, htimer⟩ := deferBatchRetryEvents_timer s f.deferred
  intro x hx hnone
  rw [hdiag, foldl_deferEvent_diagnostics] at hnone
  rw [hpending] at hx
  have hold : x ∈ s.pending.rows := by
    rcases mem_pending_foldl hx with ⟨e, he, hpath⟩ | hx
    · exact absurd hpath (hnone.1 e he)
    · exact hx
  rcases h x hold hnone.2 with hrunning | ⟨g, hg, q, hq, hzero⟩
  · exact .inl (htimer (.inl hrunning))
  · by_cases hmem : ∃ e ∈ f.deferred, q.path = e.path
    · obtain ⟨e, he, hpath⟩ := hmem
      exact .inl (htimer (.inr (foldl_deferEvent_count_pos (s, 0) he (hpath ▸ hzero))))
    · right
      have hsame : (s.deferBatchRetryEvents f.deferred).batchRetry q.path = 0 := by
        rw [hretry, foldl_deferEvent_retry _ fun e he hpath ↦ hmem ⟨e, he, hpath⟩, hzero]
      rw [hflights]
      rcases @mem_flights_set s f { f with todo := [], deferred := [] } i hf g hg with rfl | hg
      · rw [Flight.toDefer, htodo, filter_nil, map_nil, append_nil] at hq
        exact absurd ⟨q, hq, rfl⟩ hmem
      · exact ⟨g, hg, q, hq, hsame⟩

theorem Flight.mem_toDefer {f : Flight} :
    e ∈ f.toDefer ↔ e ∈ f.deferred ∨ ∃ x ∈ f.todo, x.2.isBlocked ∧ x.1 = e := by
  simp [Flight.toDefer, and_assoc]

theorem attended_finish {outcome : Outcome} (hf : s.flights[i]? = some f) (h : s.Attended)
    (hfinish : s.finish i f outcome = some s') : s'.Attended := by
  obtain ⟨⟨events, f'⟩, hanswer, rfl⟩ := map_eq_some_iff.mp hfinish
  obtain ⟨-, hdeferred, -, -, hkept⟩ := Flight.answer_spec hanswer
  intro x hx hnone
  refine (h x hx hnone).imp_right fun hex ↦ ?_
  refine exists_flight_of_set hf ?_ hex
  rintro ⟨e, he, hzero⟩
  refine ⟨e, Flight.mem_toDefer.mpr ?_, hzero⟩
  rcases Flight.mem_toDefer.mp he with he | ⟨y, hy, hblocked, rfl⟩
  · exact .inl (hdeferred ▸ he)
  · rcases hkept y hy with hy | hrunning
    · exact .inr ⟨y, hy, hblocked, rfl⟩
    · rw [hrunning] at hblocked
      cases hblocked

theorem attended_record {error : String} (hf : s.flights[i]? = some f)
    (hdefer : ∀ q, q ∈ f.toDefer → q ∈ f'.toDefer) (h : s.Attended) :
    ({ s.recordBatchFailure e error with flights := s.flights.set i f' } :
      FileWatcher).Attended := by
  intro x hx hnone
  have hold := (updateDiagnosticLocked_eq_none s _ _ _).mp hnone
  refine (h x hx hold.2).imp_right fun hex ↦ ?_
  refine exists_flight_of_set hf ?_ hex
  rintro ⟨q, hq, hzero⟩
  exact ⟨q, hdefer q hq, hzero⟩

section

variable {e : WatcherEvent} (hf : s.flights[i]? = some f)
  (hdefer : ∀ q, q ∈ f'.toDefer ↔ q ∈ f.toDefer) (h : s.Attended)
include hf hdefer h

theorem attended_reset_iff :
    ({ s.resetBatchRetry e.path with flights := s.flights.set i f' } : FileWatcher).Attended ↔
      ((∃ x ∈ s.pending.rows, x.path = e.path) → s.batchTimer ≠ .idle ∨
        ∃ g ∈ s.flights, ∃ q ∈ g.toDefer, s.batchRetry q.path = 0 ∨ q.path = e.path) := by
  have hflush : ({ s.resetBatchRetry e.path with flights := s.flights.set i f' } :
      FileWatcher).WillFlush ↔ s.batchTimer ≠ .idle ∨
        ∃ g ∈ s.flights, ∃ q ∈ g.toDefer, s.batchRetry q.path = 0 ∨ q.path = e.path := by
    have hretry : ∀ path : String, (s.resetBatchRetry e.path).batchRetry path = 0 ↔
        s.batchRetry path = 0 ∨ path = e.path := by
      intro path
      change Function.update s.batchRetry e.path 0 path = 0 ↔ _
      rw [update_apply]
      split_ifs with hpath
      · simp [hpath]
      · simp [hpath]
    unfold WillFlush
    simp only [hretry]
    refine or_congr Iff.rfl (exists_flight_set_iff hf ?_)
    simp only [hdefer]
  constructor
  · rintro hattended ⟨x, hx, hpath⟩
    refine hflush.mp (hattended x hx ?_)
    exact (update_apply _ _ _ _).trans (if_pos hpath)
  · intro hguard x hx hnone
    rw [hflush]
    by_cases hpath : x.path = e.path
    · exact hguard ⟨x, hx, hpath⟩
    · have hold : s.batchDiagnostics x.path = none := by
        have hupdate := (update_apply s.batchDiagnostics e.path none x.path).symm
        rw [if_neg hpath] at hupdate
        exact hupdate.trans hnone
      refine (h x hx hold).imp_right ?_
      rintro ⟨g, hg, q, hq, hzero⟩
      exact ⟨g, hg, q, hq, .inl hzero⟩

theorem attended_retain_iff :
    ({ s.retainBatchFailure e with flights := s.flights.set i f' } : FileWatcher).Attended ↔
      (s.batchDiagnostics e.path = none → s.WillFlush) := by
  have hflush : ({ s.retainBatchFailure e with flights := s.flights.set i f' } :
      FileWatcher).WillFlush ↔ s.WillFlush := by
    refine or_congr Iff.rfl (exists_flight_set_iff hf ?_)
    simp only [hdefer]
  constructor
  · intro hattended hnone
    obtain ⟨x, hx, hpath, -⟩ := pending_addPending s e
    exact hflush.mp (hattended x hx (hpath ▸ hnone))
  · intro hguard x hx hnone
    rw [hflush]
    rcases mem_pending_addPending hx with hpath | hold
    · exact hguard (hpath ▸ hnone)
    · exact h x hold hnone

end

theorem attended_step {a : Action} (h : s.Attended) (hstep : s.step a = some s') :
    s'.Attended ↔ s.Guarded a := by
  cases a with
  | event e =>
    cases hstep
    obtain ⟨-, -, -, -, htimer⟩ := scheduleBatchEvent_frame s e
    exact iff_of_true (fun _ _ _ ↦ .inl htimer) trivial
  | fire =>
    rw [step] at hstep
    split_ifs at hstep
    cases hstep
    exact iff_of_true (fun _ _ _ ↦ .inl (by simp)) trivial
  | take =>
    rw [step] at hstep
    split_ifs at hstep
    cases hstep
    exact iff_of_true (fun x hx ↦ by cases hx) trivial
  | finish i outcome =>
    obtain ⟨f, hf, hfinish⟩ := bind_eq_some_iff.mp hstep
    exact iff_of_true (attended_finish hf h hfinish) trivial
  | proceed i =>
    obtain ⟨f, hf, hproceed⟩ := bind_eq_some_iff.mp hstep
    simp only [Guarded, hf, some.injEq, forall_eq']
    cases htodo : f.todo with
    | nil => exact iff_of_true (attended_defer hf htodo h hproceed) trivial
    | cons entry rest =>
      obtain ⟨e, stage⟩ := entry
      have htail : ∀ g : Flight, g.deferred = f.deferred → g.todo = rest →
          stage.isBlocked = false → ∀ q, q ∈ g.toDefer ↔ q ∈ f.toDefer := by
        intro g hdeferred hrest hstage q
        rw [Flight.mem_toDefer, Flight.mem_toDefer, hdeferred, hrest, htodo]
        simp [hstage]
      rw [proceed, htodo] at hproceed
      cases stage with
      | running => cases hproceed
      | succeeded =>
        cases hproceed
        exact attended_reset_iff hf (htail ⟨f.since, rest, f.deferred⟩ rfl rfl rfl) h
      | blocked error =>
        cases hproceed
        refine iff_of_true (attended_record hf ?_ h) trivial
        intro q hq
        rw [Flight.mem_toDefer, htodo] at hq
        rw [Flight.mem_toDefer]
        rcases hq with hq | ⟨x, hx, hblocked, rfl⟩
        · exact .inl (mem_append_left _ hq)
        · rcases mem_cons.mp hx with rfl | hx
          · exact .inl (mem_append_right _ (mem_singleton_self e))
          · exact .inr ⟨x, hx, hblocked, rfl⟩
      | failed error =>
        cases hproceed
        refine iff_of_true (attended_record hf ?_ h) trivial
        intro q hq
        rw [Flight.mem_toDefer, htodo] at hq
        rw [Flight.mem_toDefer]
        rcases hq with hq | ⟨x, hx, hblocked, rfl⟩
        · exact .inl hq
        · rcases mem_cons.mp hx with rfl | hx
          · cases hblocked
          · exact .inr ⟨x, mem_cons_of_mem _ hx, hblocked, rfl⟩
      | recorded =>
        cases hproceed
        exact attended_retain_iff hf (htail ⟨f.since, rest, f.deferred⟩ rfl rfl rfl) h

end FileWatcher

/-- No event is lost, and no pending path without a diagnostic left alone, exactly when every step
is guarded. -/
theorem watcher_keeps_events_iff (perFile : Bool) (actions : List Action) :
    Always FileWatcher.step (fun s ↦ s.NoEventLost ∧ s.Attended) actions (.new perFile) ↔
      Obeys FileWatcher.step FileWatcher.Guarded actions (.new perFile) := by
  have hlost : Always FileWatcher.step FileWatcher.NoEventLost actions (.new perFile) :=
    (FileWatcher.noEventLost_always perFile actions).mono fun s h ↦ h.2
  rw [hlost.and]
  have hnew : (FileWatcher.new perFile).Attended := by
    intro x hx
    cases hx
  exact always_iff_obeys (fun _ _ _ _ _ ↦ trivial)
    (fun s a s' (_ : True) hs hstep ↦ FileWatcher.attended_step hs hstep) trivial hnew actions

section Samples

instance (s : FileWatcher) : Decidable s.WillFlush :=
  inferInstanceAs (Decidable (_ ∨ ∃ f ∈ s.flights, ∃ e ∈ f.toDefer, s.batchRetry e.path = 0))

instance (s : FileWatcher) : Decidable s.Attended :=
  inferInstanceAs (Decidable (∀ x ∈ s.pending.rows, s.batchDiagnostics x.path = none → _))

def sampleWrite : WatcherEvent := ⟨"a.go", .onlyWrite, by decide⟩

/-- A second event comes during the path's first flush, which fails and gives it back; the second is
indexed. -/
def overlappingFlushes : List Action :=
  [.event sampleWrite, .fire, .take, .event sampleWrite, .fire, .take,
    .finish 0 (.failed "read failed"), .proceed 0, .proceed 0, .finish 1 .succeeded, .proceed 1]

theorem overlapping_flushes_strand_path :
    ¬Always FileWatcher.step (fun s ↦ s.NoEventLost ∧ s.Attended) overlappingFlushes
      (.new false) := by
  apply not_always_of_end (fun s ↦ !decide s.Attended)
  · intro s hs h
    simp [h.2] at hs
  · decide +kernel

end Samples

end MiLsp.Watcher
