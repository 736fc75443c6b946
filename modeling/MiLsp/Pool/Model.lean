import Mathlib.Algebra.Ring.Nat
import Mathlib.Data.List.Perm.Basic

namespace MiLsp.Pool

structure Config where
  maxWorkers : ℕ
  idleTimeout : ℤ
  softMemoryThresh : ℕ
  maxRuntimeBytes : ℕ
  totalRuntimeBytes : ℕ
  maxWatchedRoots : ℕ

inductive Backend
  | roslyn
  | tsserver
  | lsp
  | kotlin
deriving DecidableEq

def Backend.startsAtOnce : Backend → Bool
  | roslyn | tsserver => true
  | lsp | kotlin => false

structure Moment where
  now : ℤ
  processMemoryBytes : ℕ → ℕ

def memCacheTTL : ℤ := 10 * 1000000000

def zeroTime : ℤ := -62135596800 * 1000000000

structure Runtime where
  key : String := ""
  activeCalls : ℕ := 0
  lastUsedUnix : ℤ := 0
  lastUsedAt : ℤ := 0
  pid : ℕ := 0
  memoryBytes : ℕ := 0
  memCachedAt : ℤ := 0
  /-- The server process of the client is up. -/
  running : Bool := false
  closed : Bool := false

namespace Runtime

variable (r : Runtime)

def lastUsed : ℤ := if r.lastUsedUnix ≠ 0 then r.lastUsedUnix else r.lastUsedAt

def close : Runtime := { r with running := false, closed := true }

def refreshMemory (m : Moment) : Runtime :=
  if m.now - r.memCachedAt > memCacheTTL then
    { r with memoryBytes := m.processMemoryBytes r.pid, memCachedAt := m.now }
  else r

def updateStatus (now : ℤ) (pid : ℕ) : Runtime :=
  let r := if r.pid ≠ pid then
    { r with pid, memoryBytes := 0, memCachedAt := if pid = 0 then now else zeroTime } else r
  { r with lastUsedAt := now }

end Runtime

inductive Phase
  | acquired
  | serving
  | updating (failed : Bool)
  | failing
  | dropped
  | spent
  | answered
deriving DecidableEq

structure Call where
  runtime : ℕ
  rk : String
  kotlin : Bool
  phase : Phase := .acquired
deriving DecidableEq

structure Ensure where
  key : String
  watcher : Option ℕ := none
deriving DecidableEq

inductive Stage
  | up
  | stopping
  | reaped
  | cancelled
  | draining (watchers : List ℕ)
  | down
deriving DecidableEq

structure Manager where
  runtimes : List (String × ℕ) := []
  runtime : ℕ → Runtime := fun _ ↦ {}
  nextRuntime : ℕ := 0
  calls : List Call := []
  watchers : List (String × ℕ) := []
  watcherRoots : List String := []
  opened : List ℕ := []
  nextWatcher : ℕ := 0
  ensures : List Ensure := []
  /-- The watchers whose `Stop` is under way. -/
  stopping : List ℕ := []
  stage : Stage := .up

namespace Manager

section Runtimes

variable (cfg : Config) (m : Moment) (st : Manager)

def set (i : ℕ) (r : Runtime) : Manager := { st with runtime := Function.update st.runtime i r }

def evict (pair : String × ℕ) : Manager :=
  { st.set pair.2 (st.runtime pair.2).close with runtimes := st.runtimes.filter (·.1 ≠ pair.1) }

def leastRecentlyUsedIdleRuntime : Option (String × ℕ) :=
  st.runtimes.foldl (fun victim pair ↦
    if (st.runtime pair.2).activeCalls > 0 then victim
    else
      let older := victim.all fun v ↦ (st.runtime pair.2).lastUsed < (st.runtime v.2).lastUsed
      if older then some pair else victim) none

def evictLeastRecentlyUsed : Manager :=
  match st.leastRecentlyUsedIdleRuntime with
  | some victim => st.evict victim
  | none => st

def evictIdle (excess : Runtime → Bool) (st : Manager) (pair : String × ℕ) : Manager :=
  let r := st.runtime pair.2
  if decide (r.activeCalls = 0) && excess r then st.evict pair else st

def refreshMemory (st : Manager) (pair : String × ℕ) : Manager :=
  st.set pair.2 ((st.runtime pair.2).refreshMemory m)

def runtimeMemoryTotal : ℕ := (st.runtimes.map fun pair ↦ (st.runtime pair.2).memoryBytes).sum

def boundTotal : ℕ → Manager → Manager
  | 0, st => st
  | fuel + 1, st =>
    let st := st.runtimes.foldl (refreshMemory m) st
    if st.runtimeMemoryTotal ≤ cfg.totalRuntimeBytes then st
    else match st.leastRecentlyUsedIdleRuntime with
      | none => st
      | some victim => boundTotal fuel (st.evict victim)

def enforceIdleMemoryBounds : Manager :=
  let st := st.runtimes.foldl (fun st pair ↦
    (refreshMemory m st pair).evictIdle (fun r ↦ r.memoryBytes > cfg.maxRuntimeBytes) pair) st
  if cfg.totalRuntimeBytes = 0 then st else boundTotal cfg m st.runtimes.length st

def reapIdle (privateBytes : ℕ) : Manager :=
  let timeout := if privateBytes > cfg.softMemoryThresh then cfg.idleTimeout.tdiv 2
    else cfg.idleTimeout
  let st := st.runtimes.foldl (evictIdle fun r ↦ m.now - r.lastUsed > timeout) st
  st.enforceIdleMemoryBounds cfg m

def register (r : Runtime) : Manager :=
  let i := st.nextRuntime
  { st.set i r with runtimes := (r.key, i) :: st.runtimes, nextRuntime := i + 1 }

/-- `started` has the process of a new client, and is empty when it could not be made or started. -/
def getOrCreate (key : String) (backend : Backend) (markActive : Bool) (started : Option ℕ) :
    Manager × Option ℕ :=
  let mark := if markActive then 1 else 0
  match st.runtimes.lookup key with
  | some i =>
    let r := st.runtime i
    (st.set i { r with
      lastUsedAt := m.now, lastUsedUnix := m.now, activeCalls := r.activeCalls + mark }, some i)
  | none =>
    let st := if st.runtimes.length ≥ cfg.maxWorkers then st.evictLeastRecentlyUsed else st
    match started with
    | none => (st, none)
    | some pid =>
      let r : Runtime :=
        { key, activeCalls := mark, lastUsedUnix := m.now, lastUsedAt := m.now, pid
          memoryBytes := m.processMemoryBytes pid, memCachedAt := m.now
          running := backend.startsAtOnce }
      ((st.register r).enforceIdleMemoryBounds cfg m, some st.nextRuntime)

end Runtimes

section Calls

variable (st : Manager) (c : Call)

def advance (phase : Phase) : Manager :=
  { st with calls := { c with phase } :: st.calls.erase c }

/-- Every client starts its server, also again, when a call finds that it is not up. -/
def serve (up : Bool) : Manager :=
  let r := st.runtime c.runtime
  (st.set c.runtime { r with running := r.running || up }).advance c .serving

/-- A client takes its server down when the call is cancelled or the connection breaks. -/
def answer (failed died : Bool) : Manager :=
  let r := st.runtime c.runtime
  (st.set c.runtime { r with running := r.running && !died }).advance c (.updating failed)

def update (failed : Bool) (now : ℤ) (pid : ℕ) (locked : Bool) : Manager :=
  let r := { st.runtime c.runtime with lastUsedUnix := now }
  let registered := locked && decide (st.runtimes.lookup r.key = some c.runtime)
  let r := if registered then r.updateStatus now pid else r
  (st.set c.runtime r).advance c (if failed && c.kotlin then .failing else .answered)

def drop : Manager :=
  let runtimes := if st.runtimes.lookup c.rk = some c.runtime then
    st.runtimes.filter (·.1 ≠ c.rk) else st.runtimes
  { st.advance c .dropped with runtimes }

def close : Manager :=
  (st.set c.runtime (st.runtime c.runtime).close).advance c .spent

def releaseRuntime : Manager :=
  let r := st.runtime c.runtime
  { st.set c.runtime { r with activeCalls := r.activeCalls - 1 } with calls := st.calls.erase c }

end Calls

section Watchers

variable (cfg : Config) (st : Manager)

def touchWatcher (key : String) : Manager :=
  { st with watcherRoots := st.watcherRoots.erase key ++ [key] }

def evictWatcher : Manager :=
  match st.watcherRoots with
  | [] => st
  | victim :: rest =>
    let st := { st with watcherRoots := rest }
    match st.watchers.lookup victim with
    | none => st
    | some w =>
      { st with watchers := st.watchers.filter (·.1 ≠ victim), stopping := w :: st.stopping }

def makeRoom : Manager :=
  if st.watchers.length ≥ cfg.maxWatchedRoots then st.evictWatcher else st

def ensureFileWatcher (key : String) : Manager :=
  if (st.watchers.lookup key).isSome then st.touchWatcher key
  else
    let st := st.makeRoom cfg
    { st with ensures := ⟨key, none⟩ :: st.ensures }

variable (t : Ensure)

def startWatcher (started : Bool) : Manager :=
  let w := st.nextWatcher
  let st := { st with
    opened := w :: st.opened, nextWatcher := w + 1, ensures := st.ensures.erase t }
  if started then { st with ensures := { t with watcher := some w } :: st.ensures }
  else { st with stopping := w :: st.stopping }

def giveUpWatcher : Manager :=
  { st with ensures := st.ensures.erase t, stopping := t.watcher.toList ++ st.stopping }

def registerWatcher (w : ℕ) : Manager :=
  let st := { st with ensures := st.ensures.erase t }
  if (st.watchers.lookup t.key).isSome then
    { st.touchWatcher t.key with stopping := w :: st.stopping }
  else
    let st := st.makeRoom cfg
    { st with
      watchers := (t.key, w) :: st.watchers
      watcherRoots := st.watcherRoots ++ [t.key] }

def stopWatcher (w : ℕ) : Manager :=
  { st with stopping := st.stopping.erase w, opened := st.opened.filter (· ≠ w) }

def stopWatchers : Manager :=
  let watchers := st.watchers.map Prod.snd
  { st with
    watchers := []
    watcherRoots := []
    stopping := watchers ++ st.stopping
    stage := .draining watchers }

def shutdown : Option Manager :=
  match st.stage with
  | .up => some { st with stage := .stopping }
  | .stopping => some { st with stage := .reaped }
  | .reaped => some { st with stage := .cancelled }
  | .cancelled => some st.stopWatchers
  | .draining watchers =>
    if ∀ w ∈ watchers, w ∉ st.stopping then
      some { st.runtimes.foldl evict st with stage := .down }
    else none
  | .down => none

end Watchers

end Manager

def Stage.reaps : Stage → Bool
  | .up | .stopping => true
  | _ => false

def Stage.watches : Stage → Bool
  | .up | .stopping | .reaped => true
  | _ => false

inductive Action
  | acquire (rk key : String) (backend : Backend) (m : Moment) (started : Option ℕ)
  | warm (key : String) (backend : Backend) (m : Moment) (started : Option ℕ)
  | serve (c : Call) (up : Bool)
  | answer (c : Call) (failed died : Bool)
  | update (c : Call) (now : ℤ) (pid : ℕ) (locked : Bool)
  | drop (c : Call)
  | close (c : Call)
  | release (c : Call)
  | reap (m : Moment) (privateBytes : ℕ)
  | ensure (key : String)
  | startWatcher (t : Ensure) (started : Bool)
  | giveUpWatcher (t : Ensure)
  | registerWatcher (t : Ensure)
  | stopWatcher (w : ℕ)
  | shutdown
  /-- The order in which the map is walked may change at any time. -/
  | reorder (runtimes : List (String × ℕ))

def step (cfg : Config) (st : Manager) : Action → Option Manager
  | .acquire rk key backend m started =>
    let (st, runtime) := st.getOrCreate cfg m key backend true started
    match runtime with
    | some i => some { st with calls := ⟨i, rk, backend = .kotlin, .acquired⟩ :: st.calls }
    | none => some st
  | .warm key backend m started => some (st.getOrCreate cfg m key backend false started).1
  | .serve c up => if c ∈ st.calls ∧ c.phase = .acquired then some (st.serve c up) else none
  | .answer c failed died =>
    if c ∈ st.calls ∧ c.phase = .serving then some (st.answer c failed died) else none
  | .update c now pid locked =>
    match c.phase with
    | .updating failed =>
      if c ∈ st.calls then some (st.update c failed now pid locked) else none
    | _ => none
  | .drop c => if c ∈ st.calls ∧ c.phase = .failing then some (st.drop c) else none
  | .close c => if c ∈ st.calls ∧ c.phase = .dropped then some (st.close c) else none
  | .release c =>
    if c ∈ st.calls ∧ (c.phase = .spent ∨ c.phase = .answered) then some (st.releaseRuntime c)
    else none
  | .reap m privateBytes =>
    if st.stage.reaps then some (st.reapIdle cfg m privateBytes) else none
  | .ensure key => some (st.ensureFileWatcher cfg key)
  | .startWatcher t started =>
    if t ∈ st.ensures ∧ t.watcher = none ∧ (started → st.stage.watches) then
      some (st.startWatcher t started) else none
  | .giveUpWatcher t => if t ∈ st.ensures then some (st.giveUpWatcher t) else none
  | .registerWatcher t =>
    match t.watcher with
    | some w => if t ∈ st.ensures then some (st.registerWatcher cfg t w) else none
    | none => none
  | .stopWatcher w => if w ∈ st.stopping then some (st.stopWatcher w) else none
  | .shutdown => st.shutdown
  | .reorder runtimes => if runtimes.Perm st.runtimes then some { st with runtimes } else none

end MiLsp.Pool
