import MiLsp.Library.Traces
import MiLsp.Watcher.Model

namespace MiLsp.Watcher

open Library.Traces List Flight

def Flight.held (f : Flight) : List WatcherEvent := f.todo.map Prod.fst ++ f.deferred

namespace FileWatcher

variable (s : FileWatcher)

def Holds (i : ℕ) (x : WatcherEvent) : Prop :=
  x ∈ s.pending.rows ∨ (∃ f ∈ s.flights, i < f.since ∧ x ∈ f.held) ∨
    ∃ r ∈ s.served, i < r.2 ∧ r.1 = x

def NoEventLost : Prop :=
  ∀ i e, s.log[i]? = some e → ∃ x, s.Holds i x ∧ x.path = e.path ∧ e.op.Within x.op

def Answered : Prop :=
  ∀ f ∈ s.flights, ∀ x ∈ f.todo, x.2 = .succeeded → (x.1, f.since) ∈ s.served

def Hands (s s' : FileWatcher) : Prop :=
  ∀ i x, i < s.log.length → s.Holds i x →
    ∃ x', s'.Holds i x' ∧ x'.path = x.path ∧ x.op.Within x'.op

variable {s s' : FileWatcher} {f f' : Flight} {i : ℕ}

theorem NoEventLost.hands (h : s.NoEventLost) (hlog : s'.log = s.log) (hands : s.Hands s') :
    s'.NoEventLost := by
  intro i e he
  rw [hlog] at he
  obtain ⟨x, hx, hpath, hop⟩ := h i e he
  obtain ⟨x', hx', hpath', hop'⟩ := hands i x (List.getElem?_eq_some_iff.mp he).1 hx
  exact ⟨x', hx', hpath'.trans hpath, hop.trans hop'⟩

theorem mem_flights_set (hf : s.flights[i]? = some f) {g : Flight} (hg : g ∈ s.flights) :
    g = f ∨ g ∈ s.flights.set i f' := by
  obtain ⟨j, hj⟩ := mem_iff_getElem?.mp hg
  by_cases hij : i = j
  · subst hij
    exact .inl (Option.some.inj (hj.symm.trans hf))
  · right
    exact mem_iff_getElem?.mpr ⟨j, by rw [getElem?_set_ne hij, hj]⟩

theorem mem_set_self (hf : s.flights[i]? = some f) : f' ∈ s.flights.set i f' :=
  List.mem_set (List.getElem?_eq_some_iff.mp hf).1 f'

theorem hands_of_flight (hf : s.flights[i]? = some f) (hflights : s'.flights = s.flights.set i f')
    (hsince : f'.since = f.since)
    (hpending : ∀ x ∈ s.pending.rows, ∃ x' ∈ s'.pending.rows, x'.path = x.path ∧ x.op.Within x'.op)
    (hserved : ∀ r ∈ s.served, r ∈ s'.served)
    (hheld : ∀ x ∈ f.held, x ∈ f'.held ∨
      (∃ x' ∈ s'.pending.rows, x'.path = x.path ∧ x.op.Within x'.op) ∨ (x, f.since) ∈ s'.served) :
    s.Hands s' := by
  rintro n x - (hx | ⟨g, hg, hn, hx⟩ | ⟨r, hr, hn, rfl⟩)
  · obtain ⟨x', hx', hpath, hop⟩ := hpending x hx
    exact ⟨x', .inl hx', hpath, hop⟩
  · rcases @mem_flights_set s f f' i hf g hg with rfl | hg'
    · rcases hheld x hx with hx' | ⟨x', hx', hpath, hop⟩ | hx'
      · exact ⟨x, .inr (.inl ⟨f', hflights ▸ mem_set_self hf, hsince ▸ hn, hx'⟩), rfl, .refl _⟩
      · exact ⟨x', .inl hx', hpath, hop⟩
      · exact ⟨x, .inr (.inr ⟨_, hx', hn, rfl⟩), rfl, .refl _⟩
    · exact ⟨x, .inr (.inl ⟨g, hflights ▸ hg', hn, hx⟩), rfl, .refl _⟩
  · exact ⟨r.1, .inr (.inr ⟨r, hserved r hr, hn, rfl⟩), rfl, .refl _⟩

theorem scheduleBatchEvent_frame (s : FileWatcher) (e : WatcherEvent) :
    (s.scheduleBatchEvent e).pending =
        ((s.resetBatchRetry e.path).addPending { e with op := e.op.orWrite }).pending ∧
      (s.scheduleBatchEvent e).flights = s.flights ∧
      (s.scheduleBatchEvent e).served = s.served ∧
      (s.scheduleBatchEvent e).log = s.log ++ [{ e with op := e.op.orWrite }] ∧
      (s.scheduleBatchEvent e).batchTimer ≠ .idle := by
  obtain ⟨hpending, hflights, hserved, hlog, -, -, htimer⟩ := arm_frame
    { (s.resetBatchRetry e.path).addPending { e with op := e.op.orWrite } with
      log := s.log ++ [{ e with op := e.op.orWrite }] }
  exact ⟨hpending, hflights, hserved, hlog, htimer⟩

theorem noEventLost_event (h : s.NoEventLost) (e : WatcherEvent) :
    (s.scheduleBatchEvent e).NoEventLost := by
  obtain ⟨hpending, hflights, hserved, hlog, -⟩ := scheduleBatchEvent_frame s e
  intro i e' he'
  rw [hlog, getElem?_append] at he'
  split_ifs at he' with hi
  · obtain ⟨x, hx, hpath, hop⟩ := h i e' he'
    rcases hx with hx | ⟨f, hf, hsince, hx⟩ | ⟨r, hr, hsince, hx⟩
    · obtain ⟨x', hx', hpath', hop'⟩ :=
        @exists_pending_addPending (s.resetBatchRetry e.path) x { e with op := e.op.orWrite } hx
      exact ⟨x', .inl (hpending ▸ hx'), hpath'.trans hpath, hop.trans hop'⟩
    · exact ⟨x, .inr (.inl ⟨f, hflights ▸ hf, hsince, hx⟩), hpath, hop⟩
    · exact ⟨x, .inr (.inr ⟨r, hserved ▸ hr, hsince, hx⟩), hpath, hop⟩
  · -- the new event
    obtain rfl : { e with op := e.op.orWrite } = e' := by
      rw [getElem?_singleton] at he'
      split_ifs at he'
      exact Option.some.inj he'
    obtain ⟨x, hx, hpath, hop⟩ :=
      pending_addPending (s.resetBatchRetry e.path) { e with op := e.op.orWrite }
    exact ⟨x, .inl (hpending ▸ hx), hpath, hop⟩

theorem hands_takeBatch (s : FileWatcher) : s.Hands s.takeBatch := by
  rintro i x hi (hx | ⟨f, hf, hsince, hx⟩ | ⟨r, hr, hsince, hx⟩)
  · refine ⟨{ x with op := x.op.orWrite }, .inr (.inl ⟨_, mem_append_right _
      (mem_singleton_self _), hi, ?_⟩), rfl, Ops.within_orWrite _⟩
    rw [held, map_map, append_nil]
    refine mem_map.mpr ⟨_, mem_map.mpr ⟨x, ?_, rfl⟩, rfl⟩
    exact (perm_insertionSort _ _).mem_iff.mpr hx
  · exact ⟨x, .inr (.inl ⟨f, mem_append_left _ hf, hsince, hx⟩), rfl, .refl _⟩
  · exact ⟨x, .inr (.inr ⟨r, hr, hsince, hx⟩), rfl, .refl _⟩

theorem answered_of_flight (h : s.Answered)
    (hflights : s'.flights = s.flights.set i f') (hserved : ∀ r ∈ s.served, r ∈ s'.served)
    (htodo : ∀ x ∈ f'.todo, x.2 = .succeeded → (x.1, f'.since) ∈ s'.served) : s'.Answered := by
  intro g hg x hx hstage
  rw [hflights] at hg
  rcases mem_or_eq_of_mem_set hg with hg | rfl
  · exact hserved _ (h g hg x hx hstage)
  · exact htodo x hx hstage

theorem mem_serve {r : WatcherEvent × ℕ} (outcome : Outcome) (since : ℕ)
    (events : List WatcherEvent) (hr : r ∈ s.served) : r ∈ s.serve outcome since events := by
  unfold serve
  split_ifs
  · exact mem_append_right _ hr
  · exact hr

theorem finish_spec {outcome : Outcome} (hf : s.flights[i]? = some f)
    (h : s.finish i f outcome = some s') :
    s'.log = s.log ∧ s.Hands s' ∧ (s.Answered → s'.Answered) := by
  obtain ⟨⟨events, f'⟩, hanswer, rfl⟩ := Option.map_eq_some_iff.mp h
  obtain ⟨hsince, hdeferred, htodo, hstages, -⟩ := answer_spec hanswer
  refine ⟨rfl, ?_, ?_⟩
  · refine hands_of_flight hf rfl hsince (fun x hx ↦ ⟨x, hx, rfl, .refl _⟩)
      (fun r hr ↦ mem_serve outcome f.since events hr) ?_
    intro x hx
    left
    rw [held, htodo, hdeferred]
    exact hx
  · intro hanswered
    refine answered_of_flight hanswered rfl (fun r hr ↦ mem_serve outcome f.since events hr) ?_
    intro x hx hstage
    rw [hsince]
    rcases hstages x hx with hx | ⟨hx, hevent⟩
    · exact mem_serve outcome f.since events
        (hanswered f (mem_of_getElem? hf) x hx hstage)
    · cases outcome with
      | succeeded => exact mem_append_left _ (mem_map.mpr ⟨x.1, hevent, rfl⟩)
      | blocked error => cases hx.symm.trans hstage
      | failed error => cases hx.symm.trans hstage

theorem proceed_spec (hf : s.flights[i]? = some f) (hanswered : s.Answered)
    (h : s.proceed i f = some s') : s'.log = s.log ∧ s.Hands s' ∧ s'.Answered := by
  have hmem : f ∈ s.flights := mem_of_getElem? hf
  have hkept : ∀ x ∈ s.pending.rows, ∃ x' ∈ s.pending.rows, x'.path = x.path ∧
      x.op.Within x'.op := fun x hx ↦ ⟨x, hx, rfl, .refl _⟩
  rw [proceed] at h
  split at h
  next htodo =>
    cases h
    obtain ⟨hpending, hflights, hserved, hlog⟩ := deferBatchRetryEvents_frame s f.deferred
    have hset := congrArg (·.set i { f with deferred := [] }) hflights
    refine ⟨hlog, ?_, ?_⟩
    · refine hands_of_flight hf hset rfl ?_ (fun r hr ↦ hserved ▸ hr) ?_
      · intro x hx
        obtain ⟨x', hx', hx''⟩ := exists_pending_foldl (s, 0) f.deferred hx
        exact ⟨x', hpending ▸ hx', hx''⟩
      · intro x hx
        rw [held, htodo] at hx
        obtain ⟨x', hx', hx''⟩ := pending_foldl (s, 0) (by simpa using hx)
        exact .inr (.inl ⟨x', hpending ▸ hx', hx''⟩)
    · refine answered_of_flight hanswered hset (fun r hr ↦ hserved ▸ hr) ?_
      intro x hx
      rw [htodo] at hx
      cases hx
  · cases h
  next e rest htodo =>
    cases h
    refine ⟨rfl, hands_of_flight hf rfl rfl hkept (fun r hr ↦ hr) ?_,
      answered_of_flight hanswered rfl (fun r hr ↦ hr) ?_⟩
    · intro x hx
      rw [held, htodo, map_cons, cons_append, mem_cons] at hx
      rcases hx with rfl | hx
      · exact .inr (.inr (hanswered f hmem _ (htodo ▸ mem_cons_self) rfl))
      · exact .inl hx
    · exact fun x hx ↦ hanswered f hmem x (htodo ▸ mem_cons_of_mem _ hx)
  next e error rest htodo =>
    cases h
    refine ⟨rfl, hands_of_flight hf rfl rfl hkept (fun r hr ↦ hr) ?_,
      answered_of_flight hanswered rfl (fun r hr ↦ hr) ?_⟩
    · intro x hx
      left
      rw [held, htodo, map_cons, cons_append, mem_cons, mem_append] at hx
      simp only [held, mem_append, mem_singleton]
      tauto
    · exact fun x hx ↦ hanswered f hmem x (htodo ▸ mem_cons_of_mem _ hx)
  next e error rest htodo =>
    cases h
    refine ⟨rfl, hands_of_flight hf rfl rfl hkept (fun r hr ↦ hr) ?_,
      answered_of_flight hanswered rfl (fun r hr ↦ hr) ?_⟩
    · intro x hx
      left
      simpa [held, htodo] using hx
    · intro x hx hstage
      rcases mem_cons.mp hx with rfl | hx
      · cases hstage
      · exact hanswered f hmem x (htodo ▸ mem_cons_of_mem _ hx) hstage
  next e rest htodo =>
    cases h
    refine ⟨rfl, hands_of_flight hf rfl rfl ?_ (fun r hr ↦ hr) ?_,
      answered_of_flight hanswered rfl (fun r hr ↦ hr) ?_⟩
    · exact fun x hx ↦ exists_pending_addPending e hx
    · intro x hx
      rw [held, htodo, map_cons, cons_append, mem_cons] at hx
      rcases hx with rfl | hx
      · exact .inr (.inl (pending_addPending s _))
      · exact .inl hx
    · exact fun x hx ↦ hanswered f hmem x (htodo ▸ mem_cons_of_mem _ hx)

theorem step_spec {a : Action} (h : s.Answered) (hstep : s.step a = some s') :
    s'.Answered ∧ (s.NoEventLost → s'.NoEventLost) := by
  cases a with
  | event e =>
    cases hstep
    obtain ⟨-, hflights, hserved, -⟩ := scheduleBatchEvent_frame s e
    refine ⟨?_, fun hlost ↦ noEventLost_event hlost e⟩
    intro f hf x hx hstage
    exact hserved ▸ h f (hflights ▸ hf) x hx hstage
  | fire =>
    rw [step] at hstep
    split_ifs at hstep
    cases hstep
    exact ⟨h, id⟩
  | take =>
    rw [step] at hstep
    split_ifs at hstep
    cases hstep
    refine ⟨?_, fun hlost ↦ hlost.hands rfl (hands_takeBatch s)⟩
    intro f hf x hx hstage
    rcases mem_append.mp hf with hf | hf
    · exact h f hf x hx hstage
    · rw [mem_singleton.mp hf] at hx
      obtain ⟨e, -, rfl⟩ := mem_map.mp hx
      cases hstage
  | finish i outcome =>
    obtain ⟨f, hf, hfinish⟩ := Option.bind_eq_some_iff.mp hstep
    obtain ⟨hlog, hhands, hanswered⟩ := finish_spec hf hfinish
    exact ⟨hanswered h, fun hlost ↦ hlost.hands hlog hhands⟩
  | proceed i =>
    obtain ⟨f, hf, hproceed⟩ := Option.bind_eq_some_iff.mp hstep
    obtain ⟨hlog, hhands, hanswered⟩ := proceed_spec hf h hproceed
    exact ⟨hanswered, fun hlost ↦ hlost.hands hlog hhands⟩

theorem noEventLost_always (perFile : Bool) (actions : List Action) :
    Always step (fun s ↦ s.Answered ∧ s.NoEventLost) actions (.new perFile) := by
  refine always_of_step ?_ ⟨by simp [Answered, new], by simp [NoEventLost, new]⟩
    actions
  rintro s a s' ⟨hanswered, hlost⟩ hstep
  exact (step_spec hanswered hstep).imp_right fun h ↦ h hlost

end FileWatcher

end MiLsp.Watcher
