import Mathlib.Data.Int.Notation
import Mathlib.Data.List.Perm.Basic

namespace MiLsp.Snapshots

structure Entry where
  key : String := ""
  inUse : ℕ := 0
  lastUsed : ℤ := 0
  closed : ℕ := 0

structure Flight where
  key : String := ""
  cancelled : Bool := false
  completed : Bool := false
  waiters : ℕ := 0
  entry : Option ℕ := none

inductive Caller
  | waiting (flight : ℕ)
  | holding (entry : ℕ)
deriving DecidableEq

structure Cache where
  entries : List (String × ℕ)
  flights : List (String × ℕ)
  entry : ℕ → Entry
  flight : ℕ → Flight
  nextEntry : ℕ
  nextFlight : ℕ
  callers : List Caller
  builds : List ℕ
  /-- Entries that were taken out or discarded, and whose database is still open. -/
  closing : List ℕ

def Cache.empty : Cache := ⟨[], [], fun _ ↦ {}, fun _ ↦ {}, 0, 0, [], [], []⟩

def maxWorktreeGraphSnapshots : ℕ := 4

namespace Cache

variable (st : Cache)

def setEntry (e : ℕ) (entry : Entry) : Cache :=
  { st with entry := Function.update st.entry e entry }

variable (f : ℕ)

def setFlight (flight : Flight) : Cache :=
  { st with flight := Function.update st.flight f flight }

def oldestIdle : Option ℕ :=
  st.entries.foldl (fun oldest pair ↦
    let idle := decide ((st.entry pair.2).inUse = 0)
    let older := oldest.all fun o ↦ decide ((st.entry pair.2).lastUsed < (st.entry o).lastUsed)
    if idle && older then some pair.2 else oldest) none

def pruneLoop : ℕ → Cache → Cache
  | 0, st => st
  | fuel + 1, st =>
    if st.entries.length ≤ maxWorktreeGraphSnapshots then st
    else match st.oldestIdle with
      | none => st
      | some e =>
        pruneLoop fuel
          { st with
            entries := st.entries.filter (·.1 ≠ (st.entry e).key)
            closing := e :: st.closing }

def prune : Cache := pruneLoop st.entries.length st

def acquire (key : String) (now : ℤ) : Cache :=
  match st.entries.lookup key with
  | some e =>
    let entry := st.entry e
    { st.setEntry e { entry with inUse := entry.inUse + 1, lastUsed := now } with
      callers := .holding e :: st.callers }
  | none =>
    match st.flights.lookup key with
    | some f =>
      let flight := st.flight f
      { st.setFlight f { flight with waiters := flight.waiters + 1 } with
        callers := .waiting f :: st.callers }
    | none =>
      let f := st.nextFlight
      { st.setFlight f { key, waiters := 1 } with
        flights := (key, f) :: st.flights
        nextFlight := f + 1
        callers := .waiting f :: st.callers
        builds := f :: st.builds }

def wake (now : ℤ) : Cache :=
  let flight := st.flight f
  let st := st.setFlight f { flight with waiters := flight.waiters - 1 }
  let callers := st.callers.erase (.waiting f)
  match flight.entry with
  | some e => { st.setEntry e { st.entry e with lastUsed := now } with
      callers := .holding e :: callers }
  | none => { st with callers }

def leave : List (String × ℕ) :=
  let key := (st.flight f).key
  if st.flights.lookup key = some f then st.flights.filter (·.1 ≠ key) else st.flights

def cancelWaiter : Cache :=
  let flight := st.flight f
  let waiters := flight.waiters - 1
  let st := { st with callers := st.callers.erase (.waiting f) }
  if flight.completed then
    let st := st.setFlight f { flight with waiters }
    match flight.entry with
    | some e => (st.setEntry e { st.entry e with inUse := (st.entry e).inUse - 1 }).prune
    | none => st.prune
  else if waiters = 0 then
    Cache.prune
      { st.setFlight f { flight with waiters, cancelled := true } with flights := st.leave f }
  else (st.setFlight f { flight with waiters }).prune

def complete (built : Bool) (now : ℤ) : Cache :=
  let flight := { st.flight f with completed := true }
  let own := decide (st.flights.lookup flight.key = some f)
  let st := { st.setFlight f flight with flights := st.leave f, builds := st.builds.erase f }
  let e := st.nextEntry
  if built && !flight.cancelled && decide (0 < flight.waiters) && own then
    let st := st.setEntry e { key := flight.key, inUse := flight.waiters, lastUsed := now }
    Cache.prune
      { st.setFlight f { flight with entry := some e } with
        entries := (flight.key, e) :: st.entries
        nextEntry := e + 1 }
  else if built then
    Cache.prune
      { st.setEntry e {} with
        nextEntry := e + 1
        closing := e :: st.closing }
  else st.prune

def release (e : ℕ) (now : ℤ) : Cache :=
  let entry := st.entry e
  let inUse := entry.inUse - 1
  let lastUsed := if inUse = 0 then now else entry.lastUsed
  Cache.prune
    { st.setEntry e { entry with inUse, lastUsed } with
      callers := st.callers.erase (.holding e) }

def close (e : ℕ) : Cache :=
  { st.setEntry e { st.entry e with closed := (st.entry e).closed + 1 } with
    closing := st.closing.erase e }

end Cache

inductive Action
  | acquire (key : String) (now : ℤ)
  | wake (flight : ℕ) (now : ℤ)
  | cancel (flight : ℕ)
  | complete (flight : ℕ) (built : Bool) (now : ℤ)
  | release (entry : ℕ) (now : ℤ)
  | close (entry : ℕ)
  /-- The order in which the map is walked may change at any time. -/
  | reorder (entries : List (String × ℕ))

def step (st : Cache) : Action → Option Cache
  | .acquire key now => some (st.acquire key now)
  | .wake f now =>
    if .waiting f ∈ st.callers ∧ (st.flight f).completed then some (st.wake f now) else none
  | .cancel f => if .waiting f ∈ st.callers then some (st.cancelWaiter f) else none
  | .complete f built now => if f ∈ st.builds then some (st.complete f built now) else none
  | .release e now => if .holding e ∈ st.callers then some (st.release e now) else none
  | .close e => if e ∈ st.closing then some (st.close e) else none
  | .reorder entries => if entries.Perm st.entries then some { st with entries } else none

end MiLsp.Snapshots
