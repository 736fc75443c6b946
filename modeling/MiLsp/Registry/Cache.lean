import MiLsp.Registry.Model

namespace MiLsp.Registry

structure DiskFile where
  modTime : ℤ
  text : String

def DiskFile.size (f : DiskFile) : ℕ := f.text.utf8ByteSize

structure CacheEntry where
  modTime : ℤ
  size : ℕ
  registry : RegistryFile

inductive Load
  | started
  | statted (modTime : ℤ) (size : ℕ)
  | missed (modTime : ℤ) (size : ℕ)
  | decoded (modTime : ℤ) (size : ℕ) (registry : RegistryFile)
  | finished (result : Option RegistryFile)
deriving DecidableEq

def Load.decodedAt : Load → Option ℤ
  | .decoded modTime _ _ => some modTime
  | _ => none

structure Reader where
  process : ℕ
  load : Load
deriving DecidableEq

structure Holder where
  process : ℕ
  op : Op
  load : Load := .started
  saved : Bool := false

structure Processes where
  file : Option DiskFile
  caches : List (ℕ × CacheEntry) := []
  readers : List Reader := []
  holder : Option Holder := none
  /-- The operations that came to their end, in the order in which they had the lock. -/
  log : List Op := []

variable (decode : String → Option RegistryFile)

def readRegistry : Option DiskFile → Option RegistryFile
  | none => some {}
  | some f => decode f.text

def loadStep (file : Option DiskFile) (cached : Option CacheEntry) :
    Load → Load × Option CacheEntry
  | .started =>
    match file with
    | none => (.finished (some {}), cached)
    | some f => (.statted f.modTime f.size, cached)
  | .statted modTime size =>
    match cached with
    | none => (.missed modTime size, cached)
    | some entry =>
      if entry.modTime = modTime ∧ entry.size = size then
        (.finished (some (cloneRegistry entry.registry)), cached)
      else (.missed modTime size, cached)
  | .missed modTime size =>
    match file.bind fun f ↦ decode f.text with
    | none => (.finished none, cached)
    | some registry => (.decoded modTime size registry, cached)
  | .decoded modTime size registry =>
    (.finished (some registry), some ⟨modTime, size, cloneRegistry registry⟩)
  | .finished result => (.finished result, cached)

inductive Action
  /-- `LoadRegistry` outside the lock. -/
  | read (process : ℕ)
  | advance (reader : Reader)
  | lock (process : ℕ) (op : Op)
  | load
  /-- The rename of `SaveRegistry`: the file's new time and text. -/
  | save (modTime : ℤ) (text : String)
  /-- The operation has nothing to save. -/
  | pass
  /-- A file operation failed, in `SaveRegistry` or before it. -/
  | fail (saving : Bool)
  | unlock

namespace Processes

variable (st : Processes)

def cache (process : ℕ) : Option CacheEntry := st.caches.lookup process

def setCache (process : ℕ) (cached : Option CacheEntry) : Processes :=
  { st with
    caches := cached.toList.map (process, ·) ++ st.caches.filter (·.1 ≠ process) }

def advance (reader : Reader) : Processes :=
  let (load, cached) := loadStep decode st.file (st.cache reader.process) reader.load
  { st.setCache reader.process cached with
    readers := { reader with load } :: st.readers.erase reader }

def load (h : Holder) : Processes :=
  let (load, cached) := loadStep decode st.file (st.cache h.process) h.load
  { st.setCache h.process cached with holder := some { h with load } }

end Processes

def step (st : Processes) : Action → Option Processes
  | .read process => some { st with readers := ⟨process, .started⟩ :: st.readers }
  | .advance reader => if reader ∈ st.readers then some (st.advance decode reader) else none
  | .lock process op =>
    match st.holder with
    | none => some { st with holder := some ⟨process, op, .started, false⟩ }
    | some _ => none
  | .load =>
    match st.holder with
    | some h => if h.saved then none else some (st.load decode h)
    | none => none
  | .save modTime text =>
    match st.holder with
    | some ⟨process, op, .finished (some registry), false⟩ =>
      if (op.run registry).isSome ∧ decode text = op.run registry ∧
          ∀ f ∈ st.file, f.modTime ≤ modTime then
        some { st with
          file := some ⟨modTime, text⟩
          holder := some ⟨process, op, .finished (some registry), true⟩
          log := st.log ++ [op] }
      else none
    | _ => none
  | .pass =>
    match st.holder with
    | some ⟨_, op, .finished (some registry), false⟩ =>
      if op.run registry = none then some { st with holder := none, log := st.log ++ [op] }
      else none
    | _ => none
  | .fail saving =>
    match st.holder with
    | some ⟨process, _, _, false⟩ =>
      let st := if saving then st.setCache process none else st
      some { st with holder := none }
    | _ => none
  | .unlock =>
    match st.holder with
    | some ⟨process, _, _, true⟩ => some { st.setCache process none with holder := none }
    | _ => none

end MiLsp.Registry
