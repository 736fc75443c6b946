import MiLsp.Watcher.Events
import MiLsp.Watcher.Handler

namespace MiLsp.Watcher

open Library.Traces Incremental List Option

structure Monitored where
  watcher : FileWatcher
  world : Incremental.World
  answers : List (ℕ × List WatcherEvent × Incremental.World)

inductive Move
  | event (e : WatcherEvent)
  | fire
  | take
  | change (world : Incremental.World)
  | finish (i : ℕ)
  | proceed (i : ℕ)

namespace Monitored

def new (world : Incremental.World) : Monitored := ⟨.new false, world, []⟩

variable (m : Monitored)

def watch (a : Action) : Option Monitored :=
  (m.watcher.step a).map fun s ↦ { m with watcher := s }

def batch (i : ℕ) : List WatcherEvent :=
  ((m.watcher.flights[i]?).map fun f ↦ f.todo.map Prod.fst).getD []

def step (root : String) (m : Monitored) : Move → Option Monitored
  | .event e => m.watch (.event e)
  | .fire => m.watch .fire
  | .take => m.watch .take
  | .change world => some { m with world }
  | .finish i =>
    (m.watcher.step (.finish i (batchOutcome m.world root (m.batch i)))).map fun s ↦
      { m with watcher := s, answers := (i, m.batch i, m.world) :: m.answers }
  | .proceed i => m.watch (.proceed i)

def Indexable (w : Incremental.World) (e : WatcherEvent) : Prop :=
  ((w.readFile e.path).toOption.isSome ∧ w.shouldIgnore e.path = false) ∨
    ((w.readFile e.path).toOption = none ∧ e.op.present = false)

/-- A finished flush has cleared what it could index and has had no event since it began. -/
def Cleared : Prop :=
  ∀ answer ∈ m.answers, ∀ f ∈ m.watcher.flights[answer.1]?, f.todo = [] → f.deferred = [] →
    ∀ e ∈ answer.2.1, Indexable answer.2.2 e →
      (∀ y ∈ m.watcher.log.drop f.since, y.path ≠ e.path) →
        ∀ x ∈ m.watcher.pending.rows, x.path ≠ e.path

def Clean (root : String) (m : Monitored) : Move → Prop
  | .finish i => m.world.Healthy ∧ (∀ e ∈ m.batch i, domain m.world root e = some .code) ∧
    PoisonFree m.world root (m.batch i)
  | _ => True

end Monitored

namespace FileWatcher

/-- The handler never failed: what is pending had an event after the start of every flush. -/
structure Untroubled (s : FileWatcher) : Prop where
  batched : s.perFile = false
  stages : ∀ f ∈ s.flights, f.deferred = [] ∧ ∀ x ∈ f.todo, x.2 = .running ∨ x.2 = .succeeded
  since : ∀ f ∈ s.flights, f.since ≤ s.log.length
  fresh : ∀ x ∈ s.pending.rows, ∀ f ∈ s.flights, ∃ y ∈ s.log.drop f.since, y.path = x.path

variable {s s' : FileWatcher} {f f' : Flight} {i : ℕ}

theorem untroubled_event (h : s.Untroubled) (e : WatcherEvent) :
    (s.scheduleBatchEvent e).Untroubled := by
  obtain ⟨hpending, hflights, -, hlog, -⟩ := scheduleBatchEvent_frame s e
  refine ⟨?_, hflights ▸ h.stages, ?_, ?_⟩
  · rw [scheduleBatchEvent, arm]
    split_ifs <;> exact h.batched
  · intro f hf
    rw [hlog, length_append]
    have := h.since f (hflights ▸ hf)
    omega
  · intro x hx f hf
    rw [hflights] at hf
    rw [hlog, drop_append_of_le_length (h.since f hf)]
    rw [hpending] at hx
    rcases mem_pending_addPending hx with hpath | hx
    · exact ⟨_, mem_append_right _ (mem_singleton_self _), hpath.symm⟩
    · obtain ⟨y, hy, hpath⟩ := h.fresh x hx f hf
      exact ⟨y, mem_append_left _ hy, hpath⟩

theorem untroubled_take (h : s.Untroubled) : s.takeBatch.Untroubled := by
  refine ⟨h.batched, ?_, ?_, fun x hx ↦ by cases hx⟩
  · intro f hf
    rcases mem_append.mp hf with hf | hf
    · exact h.stages f hf
    · rw [mem_singleton.mp hf]
      refine ⟨rfl, fun x hx ↦ ?_⟩
      obtain ⟨e, -, rfl⟩ := mem_map.mp hx
      exact .inl rfl
  · intro f hf
    rcases mem_append.mp hf with hf | hf
    · exact h.since f hf
    · rw [mem_singleton.mp hf]
      exact le_rfl

section

variable (h : s.Untroubled) (hf : s.flights[i]? = some f)
include h hf

theorem untroubled_flight (hbatched : s'.perFile = s.perFile) (hlog : s'.log = s.log)
    (hpending : s'.pending = s.pending) (hflights : s'.flights = s.flights.set i f')
    (hsince : f'.since = f.since)
    (hstages : f'.deferred = [] ∧ ∀ x ∈ f'.todo, x.2 = .running ∨ x.2 = .succeeded) :
    s'.Untroubled := by
  have hmem := mem_of_getElem? hf
  have hcases : ∀ g ∈ s'.flights, g ∈ s.flights ∨ g = f' := by
    intro g hg
    rw [hflights] at hg
    exact mem_or_eq_of_mem_set hg
  refine ⟨hbatched.trans h.batched, fun g hg ↦ ?_, fun g hg ↦ ?_, fun x hx g hg ↦ ?_⟩
  · rcases hcases g hg with hg | rfl
    · exact h.stages g hg
    · exact hstages
  · rw [hlog]
    rcases hcases g hg with hg | rfl
    · exact h.since g hg
    · exact hsince ▸ h.since f hmem
  · rw [hpending] at hx
    rw [hlog]
    rcases hcases g hg with hg | rfl
    · exact h.fresh x hx g hg
    · exact hsince ▸ h.fresh x hx f hmem

theorem untroubled_finish (hfinish : s.finish i f .succeeded = some s') : s'.Untroubled := by
  obtain ⟨⟨events, f'⟩, hanswer, rfl⟩ := map_eq_some_iff.mp hfinish
  obtain ⟨hsince, hdeferred, -, hstages, -⟩ := Flight.answer_spec hanswer
  obtain ⟨hnone, hold⟩ := h.stages f (mem_of_getElem? hf)
  refine untroubled_flight h hf rfl rfl rfl rfl hsince ⟨hdeferred.trans hnone, fun x hx ↦ ?_⟩
  rcases hstages x hx with hx | ⟨hx, -⟩
  · exact hold x hx
  · exact .inr hx

theorem untroubled_proceed (hproceed : s.proceed i f = some s') : s'.Untroubled := by
  obtain ⟨hnone, hold⟩ := h.stages f (mem_of_getElem? hf)
  rw [proceed] at hproceed
  split at hproceed
  next htodo =>
    rw [hnone] at hproceed
    cases hproceed
    exact untroubled_flight h hf rfl rfl rfl rfl rfl ⟨rfl, fun x hx ↦ by rw [htodo] at hx; cases hx⟩
  · cases hproceed
  next e rest htodo =>
    cases hproceed
    exact untroubled_flight h hf rfl rfl rfl rfl rfl
      ⟨hnone, fun x hx ↦ hold x (htodo ▸ mem_cons_of_mem _ hx)⟩
  -- the other stages need a handler that failed
  next e error rest htodo =>
    have hstage := hold (e, .blocked error) (htodo ▸ mem_cons_self)
    simp at hstage
  next e error rest htodo =>
    have hstage := hold (e, .failed error) (htodo ▸ mem_cons_self)
    simp at hstage
  next e rest htodo =>
    have hstage := hold (e, .recorded) (htodo ▸ mem_cons_self)
    simp at hstage

end

end FileWatcher

namespace Monitored

variable {root : String} {m m' : Monitored}

theorem watch_eq_some {a : Action} :
    m.watch a = some m' ↔ ∃ s, m.watcher.step a = some s ∧ { m with watcher := s } = m' :=
  map_eq_some_iff

theorem untroubled_step {a : Move} (h : m.watcher.Untroubled) (hclean : m.Clean root a)
    (hstep : m.step root a = some m') : m'.watcher.Untroubled := by
  cases a with
  | event e =>
    obtain ⟨s, hs, rfl⟩ := watch_eq_some.mp hstep
    cases hs
    exact FileWatcher.untroubled_event h e
  | fire =>
    obtain ⟨s, hs, rfl⟩ := watch_eq_some.mp hstep
    rw [FileWatcher.step] at hs
    split_ifs at hs
    cases hs
    exact ⟨h.batched, h.stages, h.since, h.fresh⟩
  | take =>
    obtain ⟨s, hs, rfl⟩ := watch_eq_some.mp hstep
    rw [FileWatcher.step] at hs
    split_ifs at hs
    cases hs
    exact FileWatcher.untroubled_take h
  | change world =>
    cases hstep
    exact h
  | finish i =>
    obtain ⟨hhealthy, -, hfree⟩ := hclean
    rw [step, (batchOutcome_succeeded_iff hhealthy).mpr hfree] at hstep
    obtain ⟨s, hs, rfl⟩ := map_eq_some_iff.mp hstep
    obtain ⟨f, hf, hfinish⟩ := bind_eq_some_iff.mp hs
    exact FileWatcher.untroubled_finish h hf hfinish
  | proceed i =>
    obtain ⟨s, hs, rfl⟩ := watch_eq_some.mp hstep
    obtain ⟨f, hf, hproceed⟩ := bind_eq_some_iff.mp hs
    exact FileWatcher.untroubled_proceed h hf hproceed

theorem cleared_of_untroubled (h : m.watcher.Untroubled) : m.Cleared := by
  intro answer _ f hf _ _ e _ _ hquiet x hx hpath
  obtain ⟨y, hy, hsame⟩ := h.fresh x hx f (mem_of_getElem? hf)
  exact hquiet y hy (hsame.trans hpath)

/-- In a run whose batches are all free of poison every flush clears what it could index. -/
theorem clean_batches_cleared (root : String) (world : Incremental.World) (moves : List Move)
    (hclean : Obeys (step root) (Clean root) moves (new world)) :
    Always (step root) Cleared moves (new world) := by
  have hnew : (new world).watcher.Untroubled :=
    ⟨rfl, (fun f hf ↦ by cases hf), (fun f hf ↦ by cases hf), (fun x hx ↦ by cases hx)⟩
  have huntroubled : Always (step root) (fun m ↦ m.watcher.Untroubled) moves (new world) :=
    always_of_obeys (fun _ _ _ hm hok hstep ↦ untroubled_step hm hok hstep) hnew hclean
  exact huntroubled.mono fun _ ↦ cleared_of_untroubled

section Samples

instance (w : Incremental.World) (e : WatcherEvent) : Decidable (Indexable w e) :=
  inferInstanceAs (Decidable ((_ ∧ _) ∨ (_ ∧ _)))

instance (m : Monitored) : Decidable m.Cleared :=
  inferInstanceAs (Decidable (∀ answer ∈ m.answers, ∀ f ∈ m.watcher.flights[answer.1]?, _))

def sampleRemoved : WatcherEvent := ⟨"/ws/a.go", ⟨false, false, true, false⟩, by decide⟩

theorem sample_poisonFree : PoisonFree sampleWorld "/ws" [sampleRemoved, sampleSaved] := by
  have hdone : batchOutcome sampleWorld "/ws" [sampleRemoved, sampleSaved] = .succeeded := by
    decide +kernel
  exact (batchOutcome_succeeded_iff sampleWorld_healthy).mp hdone

/-- A removed and a saved file in one batch are both cleared. -/
theorem pair_cleared :
    Always (step "/ws") Cleared
      [.event sampleRemoved, .event sampleSaved, .fire, .take, .finish 0, .proceed 0, .proceed 0]
      (new sampleWorld) := by
  apply clean_batches_cleared
  intro m₁ h₁
  cases h₁
  refine ⟨trivial, fun m₂ h₂ ↦ ⟨trivial, fun m₃ h₃ ↦ ⟨trivial, fun m₄ h₄ ↦ ⟨trivial,
    fun m₅ h₅ ↦ ⟨?_, fun _ _ ↦ ⟨trivial, fun _ _ ↦ ⟨trivial, trivial⟩⟩⟩⟩⟩⟩⟩
  cases h₂
  cases h₃
  cases h₄
  have hbatch : ∀ e ∈ [sampleRemoved, sampleSaved], domain sampleWorld "/ws" e = some .code := by
    decide +kernel
  exact ⟨sampleWorld_healthy, hbatch, sample_poisonFree⟩

def sampleBrief : WatcherEvent := ⟨"/ws/a.go", ⟨true, false, true, false⟩, by decide⟩

def sampleFlush : List Move :=
  [.fire, .take, .finish 0, .proceed 0, .proceed 0, .proceed 0, .proceed 0]

theorem brief_file_poisons_batch :
    sampleWorld.Healthy ∧
      (∀ e ∈ [sampleBrief, sampleSaved], domain sampleWorld "/ws" e = some .code) ∧
      Indexable sampleWorld sampleSaved ∧
      ¬Always (step "/ws") Cleared (.event sampleBrief :: .event sampleSaved :: sampleFlush)
        (new sampleWorld) := by
  refine ⟨sampleWorld_healthy, by decide +kernel, by decide +kernel, ?_⟩
  apply not_always_of_end (fun m ↦ !decide m.Cleared)
  · simp
  · decide +kernel

end Samples

end Monitored

end MiLsp.Watcher
