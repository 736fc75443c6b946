import Mathlib.Data.List.Sort
import MiLsp.Library.Table

namespace MiLsp.Watcher

open Library List Table

structure Ops where
  create : Bool
  write : Bool
  remove : Bool
  rename : Bool
deriving DecidableEq

namespace Ops

def none : Ops := ⟨false, false, false, false⟩

def onlyWrite : Ops := ⟨false, true, false, false⟩

variable (a b : Ops)

def or : Ops :=
  ⟨a.create || b.create, a.write || b.write, a.remove || b.remove, a.rename || b.rename⟩

def orWrite (a : Ops) : Ops := if a = none then onlyWrite else a

def Within : Prop := a.or b = b

instance : Decidable (a.Within b) := inferInstanceAs (Decidable (_ = _))

theorem within_iff {a b : Ops} : a.Within b ↔ (a.create → b.create) ∧ (a.write → b.write) ∧
    (a.remove → b.remove) ∧ (a.rename → b.rename) := by
  cases b
  simp [Within, or]

theorem Within.refl (a : Ops) : a.Within a := by simp [within_iff]

theorem Within.trans {a b c : Ops} (hab : a.Within b) (hbc : b.Within c) : a.Within c := by
  rw [within_iff] at *
  tauto

theorem within_or_left : a.Within (a.or b) := by simp +contextual [within_iff, or]

theorem within_or_right : b.Within (a.or b) := by simp +contextual [within_iff, or]

theorem within_orWrite (a : Ops) : a.Within a.orWrite := by
  unfold orWrite
  split_ifs with h
  · rw [h]
    decide
  · exact .refl a

end Ops

structure WatcherEvent where
  path : String
  op : Ops
  path_ne : path ≠ ""

structure WatcherDiagnostic where
  error : String
  attempts : ℕ
  exhausted : Bool

inductive Stage
  | running
  | succeeded
  | blocked (error : String)
  | failed (error : String)
  | recorded
deriving DecidableEq

/-- How a call of the indexer ends: a lock error is one that is worth another try. -/
inductive Outcome
  | succeeded
  | blocked (error : String)
  | failed (error : String)
deriving DecidableEq

def Outcome.stage : Outcome → Stage
  | succeeded => .succeeded
  | blocked error => .blocked error
  | failed error => .failed error

/-- The events accepted before it took its batch, what is left of it, and what it will put off. -/
structure Flight where
  since : ℕ
  todo : List (WatcherEvent × Stage)
  deferred : List WatcherEvent

def Flight.answer (perFile : Bool) (f : Flight) (outcome : Outcome) :
    Option (List WatcherEvent × Flight) :=
  if perFile then
    match f.todo with
    | (e, .running) :: rest => some ([e], { f with todo := (e, outcome.stage) :: rest })
    | _ => none
  else if f.todo.all (·.2 = .running) then
    some (f.todo.map Prod.fst, { f with todo := f.todo.map fun x ↦ (x.1, outcome.stage) })
  else none

inductive TimerState
  | idle
  | armed
  /-- The callback runs, but has not taken the batch yet. -/
  | fired
deriving DecidableEq

structure FileWatcher where
  /-- One handler for the batch, or (for a caller that gives one) one for each file. -/
  perFile : Bool
  pending : Table WatcherEvent.path
  batchRetry : String → ℕ
  batchDiagnostics : String → Option WatcherDiagnostic
  batchTimer : TimerState
  flights : List Flight
  log : List WatcherEvent
  /-- What was indexed, with the number of events accepted when its batch was taken. -/
  served : List (WatcherEvent × ℕ)

def FileWatcher.new (perFile : Bool) : FileWatcher :=
  ⟨perFile, .empty, fun _ ↦ 0, fun _ ↦ none, .idle, [], [], []⟩

def maxDeferredBatchRetries : ℕ := 1

namespace FileWatcher

variable (s : FileWatcher) (e : WatcherEvent)

def addPending : FileWatcher :=
  let op := match s.pending.find? e.path with
    | some old => old.op.or e.op
    | none => e.op
  { s with pending := s.pending.put ⟨e.path, op, e.path_ne⟩ }

def updateDiagnosticLocked (path : String) (diagnostic : WatcherDiagnostic) : FileWatcher :=
  let merged : WatcherDiagnostic := match s.batchDiagnostics path with
    | none => diagnostic
    | some current =>
      { error := if diagnostic.error = "" then current.error else diagnostic.error
        attempts := max diagnostic.attempts current.attempts
        exhausted := diagnostic.exhausted || current.exhausted }
  { s with batchDiagnostics := Function.update s.batchDiagnostics path (some merged) }

def resetBatchRetry (path : String) : FileWatcher :=
  { s with
    batchRetry := Function.update s.batchRetry path 0
    batchDiagnostics := Function.update s.batchDiagnostics path none }

def arm : FileWatcher := if s.batchTimer = .idle then { s with batchTimer := .armed } else s

def scheduleBatchEvent : FileWatcher :=
  let e := { e with op := e.op.orWrite }
  let s := (s.resetBatchRetry e.path).addPending e
  { s with log := s.log ++ [e] }.arm

def recordBatchFailure (error : String) : FileWatcher :=
  s.updateDiagnosticLocked e.path ⟨error, s.batchRetry e.path, false⟩

def retainBatchFailure : FileWatcher := s.addPending e

def deferEvent (acc : FileWatcher × ℕ) (e : WatcherEvent) : FileWatcher × ℕ :=
  let s := acc.1.addPending { e with op := e.op.orWrite }
  let round := s.batchRetry e.path + 1
  let s := { s with batchRetry := Function.update s.batchRetry e.path round }
  let s := s.updateDiagnosticLocked e.path ⟨"", round, maxDeferredBatchRetries < round⟩
  if maxDeferredBatchRetries < round then (s, acc.2) else (s, acc.2 + 1)

def deferBatchRetryEvents (events : List WatcherEvent) : FileWatcher :=
  let (s, deferredFiles) := events.foldl deferEvent (s, 0)
  if deferredFiles = 0 then s else s.arm

def takeBatch : FileWatcher :=
  let events := (s.pending.rows.insertionSort fun a b ↦ a.path ≤ b.path).map
    fun e ↦ { e with op := e.op.orWrite }
  { s with
    pending := .empty
    batchTimer := .idle
    flights := s.flights ++ [⟨s.log.length, events.map fun e ↦ (e, .running), []⟩] }

def serve (outcome : Outcome) (since : ℕ) (events : List WatcherEvent) : List (WatcherEvent × ℕ) :=
  if outcome = .succeeded then events.map (fun e ↦ (e, since)) ++ s.served else s.served

def finish (i : ℕ) (f : Flight) (outcome : Outcome) : Option FileWatcher :=
  (f.answer s.perFile outcome).map fun answer ↦
    { s with
      flights := s.flights.set i answer.2
      served := s.serve outcome f.since answer.1 }

/-- The next section under the lock of a flush whose next event has an answer. -/
def proceed (i : ℕ) (f : Flight) : Option FileWatcher :=
  match f.todo with
  | [] =>
    let s := s.deferBatchRetryEvents f.deferred
    some { s with flights := s.flights.set i { f with deferred := [] } }
  | (_, .running) :: _ => none
  | (e, .succeeded) :: rest =>
    let s := s.resetBatchRetry e.path
    some { s with flights := s.flights.set i { f with todo := rest } }
  | (e, .blocked error) :: rest =>
    let s := s.recordBatchFailure e error
    some { s with flights :=
      s.flights.set i { f with todo := rest, deferred := f.deferred ++ [e] } }
  | (e, .failed error) :: rest =>
    let s := s.recordBatchFailure e error
    some { s with flights := s.flights.set i { f with todo := (e, .recorded) :: rest } }
  | (e, .recorded) :: rest =>
    let s := s.retainBatchFailure e
    some { s with flights := s.flights.set i { f with todo := rest } }

end FileWatcher

inductive Action
  | event (e : WatcherEvent)
  | fire
  | take
  | finish (i : ℕ) (outcome : Outcome)
  | proceed (i : ℕ)

def FileWatcher.step (s : FileWatcher) : Action → Option FileWatcher
  | .event e => some (s.scheduleBatchEvent e)
  | .fire => if s.batchTimer = .armed then some { s with batchTimer := .fired } else none
  | .take => if s.batchTimer = .fired then some s.takeBatch else none
  | .finish i outcome => s.flights[i]?.bind fun f ↦ s.finish i f outcome
  | .proceed i => s.flights[i]?.bind fun f ↦ s.proceed i f

theorem Flight.answer_spec {perFile : Bool} {f f' : Flight} {outcome : Outcome}
    {events : List WatcherEvent} (h : f.answer perFile outcome = some (events, f')) :
    f'.since = f.since ∧ f'.deferred = f.deferred ∧ f'.todo.map Prod.fst = f.todo.map Prod.fst ∧
      (∀ x ∈ f'.todo, x ∈ f.todo ∨ x.2 = outcome.stage ∧ x.1 ∈ events) ∧
      ∀ x ∈ f.todo, x ∈ f'.todo ∨ x.2 = .running := by
  rw [answer] at h
  split_ifs at h with hperFile hrunning
  · split at h
    next e rest htodo =>
      cases h
      refine ⟨rfl, rfl, by rw [htodo]; rfl, ?_, ?_⟩
      · intro x hx
        rcases mem_cons.mp hx with rfl | hx
        · exact .inr ⟨rfl, mem_singleton_self e⟩
        · exact .inl (htodo ▸ mem_cons_of_mem _ hx)
      · intro x hx
        rw [htodo] at hx
        rcases mem_cons.mp hx with rfl | hx
        · exact .inr rfl
        · exact .inl (mem_cons_of_mem _ hx)
    · cases h
  · cases h
    refine ⟨rfl, rfl, by simp, ?_, ?_⟩
    · intro x hx
      obtain ⟨y, hy, rfl⟩ := mem_map.mp hx
      exact .inr ⟨rfl, mem_map.mpr ⟨y, hy, rfl⟩⟩
    · intro x hx
      exact .inr (by simpa using all_eq_true.mp hrunning x hx)

namespace FileWatcher

variable {s : FileWatcher} {x : WatcherEvent}

theorem exists_pending_addPending (e : WatcherEvent) (hx : x ∈ s.pending.rows) :
    ∃ x' ∈ (s.addPending e).pending.rows, x'.path = x.path ∧ x.op.Within x'.op := by
  by_cases hpath : x.path = e.path
  · have hfind : s.pending.find? e.path = some x := hpath ▸ find?_of_mem hx
    refine ⟨_, mem_put.mpr (.inr rfl), hpath.symm, ?_⟩
    rw [hfind]
    exact Ops.within_or_left _ _
  · exact ⟨x, mem_put.mpr (.inl ⟨hx, hpath⟩), rfl, .refl _⟩

theorem pending_addPending (s : FileWatcher) (e : WatcherEvent) :
    ∃ x ∈ (s.addPending e).pending.rows, x.path = e.path ∧ e.op.Within x.op := by
  refine ⟨_, mem_put.mpr (.inr rfl), rfl, ?_⟩
  split
  · exact Ops.within_or_right _ _
  · exact .refl _

theorem mem_pending_addPending {e : WatcherEvent} (hx : x ∈ (s.addPending e).pending.rows) :
    x.path = e.path ∨ x ∈ s.pending.rows := by
  rcases mem_put.mp hx with ⟨hold, -⟩ | rfl
  · exact .inr hold
  · exact .inl rfl

section

variable (acc : FileWatcher × ℕ)
include acc

theorem deferEvent_frame (e : WatcherEvent) :
    (deferEvent acc e).1.flights = acc.1.flights ∧ (deferEvent acc e).1.served = acc.1.served ∧
      (deferEvent acc e).1.log = acc.1.log ∧
      (deferEvent acc e).1.batchTimer = acc.1.batchTimer := by
  rw [deferEvent]
  split_ifs <;> exact ⟨rfl, rfl, rfl, rfl⟩

variable (events : List WatcherEvent)

theorem foldl_deferEvent_frame : (events.foldl deferEvent acc).1.flights = acc.1.flights ∧
      (events.foldl deferEvent acc).1.served = acc.1.served ∧
      (events.foldl deferEvent acc).1.log = acc.1.log ∧
      (events.foldl deferEvent acc).1.batchTimer = acc.1.batchTimer := by
  induction events generalizing acc with
  | nil => exact ⟨rfl, rfl, rfl, rfl⟩
  | cons e events ih =>
    obtain ⟨hflights, hserved, hlog, htimer⟩ := ih (deferEvent acc e)
    obtain ⟨hflights', hserved', hlog', htimer'⟩ := deferEvent_frame acc e
    exact ⟨hflights.trans hflights', hserved.trans hserved', hlog.trans hlog', htimer.trans htimer'⟩

theorem deferEvent_pending (e : WatcherEvent) :
    (deferEvent acc e).1.pending =
      (acc.1.addPending { e with op := e.op.orWrite }).pending := by
  rw [deferEvent]
  split_ifs <;> rfl

theorem exists_pending_foldl {x : WatcherEvent} (hx : x ∈ acc.1.pending.rows) :
    ∃ x' ∈ (events.foldl deferEvent acc).1.pending.rows,
      x'.path = x.path ∧ x.op.Within x'.op := by
  induction events generalizing acc x with
  | nil => exact ⟨x, hx, rfl, .refl _⟩
  | cons e events ih =>
    obtain ⟨x₁, hx₁, hpath₁, hop₁⟩ := exists_pending_addPending { e with op := e.op.orWrite } hx
    rw [← deferEvent_pending] at hx₁
    obtain ⟨x₂, hx₂, hpath₂, hop₂⟩ := ih (deferEvent acc e) hx₁
    exact ⟨x₂, hx₂, hpath₂.trans hpath₁, hop₁.trans hop₂⟩

theorem pending_foldl {events : List WatcherEvent} {e : WatcherEvent} (he : e ∈ events) :
    ∃ x ∈ (events.foldl deferEvent acc).1.pending.rows, x.path = e.path ∧ e.op.Within x.op := by
  induction events generalizing acc with
  | nil => cases he
  | cons e' events ih =>
    rcases mem_cons.mp he with rfl | he
    · obtain ⟨x, hx, hpath, hop⟩ := pending_addPending acc.1 { e with op := e.op.orWrite }
      rw [← deferEvent_pending] at hx
      obtain ⟨x', hx', hpath', hop'⟩ := exists_pending_foldl (deferEvent acc e) events hx
      exact ⟨x', hx', hpath'.trans hpath, ((Ops.within_orWrite _).trans hop).trans hop'⟩
    · exact ih (deferEvent acc e') he

end

theorem mem_pending_foldl {acc : FileWatcher × ℕ} {events : List WatcherEvent}
    (hx : x ∈ (events.foldl deferEvent acc).1.pending.rows) :
    (∃ e ∈ events, x.path = e.path) ∨ x ∈ acc.1.pending.rows := by
  induction events generalizing acc with
  | nil => exact .inr hx
  | cons e events ih =>
    rcases ih hx with ⟨e', he', hpath⟩ | hx
    · exact .inl ⟨e', mem_cons_of_mem e he', hpath⟩
    · rw [deferEvent_pending] at hx
      rcases mem_pending_addPending hx with hpath | hx
      · exact .inl ⟨e, mem_cons_self, hpath⟩
      · exact .inr hx

theorem arm_frame (s : FileWatcher) : s.arm.pending = s.pending ∧ s.arm.flights = s.flights ∧
    s.arm.served = s.served ∧ s.arm.log = s.log ∧ s.arm.batchRetry = s.batchRetry ∧
    s.arm.batchDiagnostics = s.batchDiagnostics ∧ s.arm.batchTimer ≠ .idle := by
  unfold arm
  split_ifs with h
  · exact ⟨rfl, rfl, rfl, rfl, rfl, rfl, by simp⟩
  · exact ⟨rfl, rfl, rfl, rfl, rfl, rfl, h⟩

theorem deferBatchRetryEvents_frame (s : FileWatcher) (events : List WatcherEvent) :
    (s.deferBatchRetryEvents events).pending = (events.foldl deferEvent (s, 0)).1.pending ∧
      (s.deferBatchRetryEvents events).flights = s.flights ∧
      (s.deferBatchRetryEvents events).served = s.served ∧
      (s.deferBatchRetryEvents events).log = s.log := by
  obtain ⟨hflights, hserved, hlog, -⟩ := foldl_deferEvent_frame (s, 0) events
  rw [deferBatchRetryEvents]
  dsimp only
  split_ifs
  · exact ⟨rfl, hflights, hserved, hlog⟩
  · obtain ⟨hpending, hflights', hserved', hlog', -⟩ :=
      arm_frame (events.foldl deferEvent (s, 0)).1
    exact ⟨hpending, hflights'.trans hflights, hserved'.trans hserved, hlog'.trans hlog⟩

end FileWatcher

end MiLsp.Watcher
