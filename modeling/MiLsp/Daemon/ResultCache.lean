import MiLsp.Library.Recency
import MiLsp.Library.Table
import Mathlib.Data.Int.Notation

namespace MiLsp.Daemon

open Library Recency List Table

def resultCacheMaxSize : ℕ := 256

structure ResultCacheEntry where
  key : String
  envelope : List UInt8
  expiresAt : ℤ

structure ResultCache where
  entries : Table ResultCacheEntry.key := .empty
  /-- The keys in the order in which they were last used. -/
  lru : List String := []
  hits : ℕ := 0
  misses : ℕ := 0

namespace ResultCache

variable (rc : ResultCache)

def keys : List String := rc.entries.rows.map (·.key)

def get (key : String) (now : ℤ) : ResultCache × Option (List UInt8) :=
  match rc.entries.find? key with
  | none => ({ rc with misses := rc.misses + 1 }, none)
  | some entry =>
    if now > entry.expiresAt then
      ({ rc with
        entries := rc.entries.delete fun e ↦ e.key = key
        lru := rc.lru.erase key
        misses := rc.misses + 1 }, none)
    else
      ({ rc with lru := rc.lru.erase key ++ [key], hits := rc.hits + 1 }, some entry.envelope)

def makeRoom : ResultCache :=
  if rc.lru.length ≥ resultCacheMaxSize then
    match rc.lru with
    | [] => rc
    | victim :: rest =>
      { rc with lru := rest, entries := rc.entries.delete fun e ↦ e.key = victim }
  else rc

/-- The cache is `disabled` where the environment says so; only `set` looks there. -/
def set (key : String) (envelope : List UInt8) (ttl now : ℤ) (disabled : Bool) : ResultCache :=
  if disabled then rc
  else
    let entry := ⟨key, envelope, now + ttl⟩
    match rc.entries.find? key with
    | some _ => { rc with entries := rc.entries.put entry, lru := rc.lru.erase key ++ [key] }
    | none =>
      let rc := rc.makeRoom
      { rc with entries := rc.entries.put entry, lru := rc.lru ++ [key] }

end ResultCache

inductive Call
  | get (key : String) (now : ℤ)
  | set (key : String) (envelope : List UInt8) (ttl now : ℤ) (disabled : Bool)

namespace Call

def uses : Call → List String
  | .get key _ => [key]
  | .set key _ _ _ disabled => if disabled then [] else [key]

def sets : Call → List ResultCacheEntry
  | .get .. => []
  | .set key envelope ttl now disabled => if disabled then [] else [⟨key, envelope, now + ttl⟩]

def run (rc : ResultCache) : Call → ResultCache
  | .get key now => (rc.get key now).1
  | .set key envelope ttl now disabled => rc.set key envelope ttl now disabled

end Call

def lastSet (calls : List Call) (key : String) : Option ResultCacheEntry :=
  ((calls.flatMap Call.sets).filter (·.key = key)).getLast?

structure Consistent (calls : List Call) (rc : ResultCache) : Prop where
  tracks : Tracks (calls.flatMap Call.uses) rc.lru rc.keys
  bounded : rc.keys.length ≤ resultCacheMaxSize
  latest : ∀ key entry, rc.entries.find? key = some entry → lastSet calls key = some entry

open ResultCache Call

section

variable {calls : List Call} {rc : ResultCache} {key : String} {c : Call}

theorem keys_delete (entries : Table ResultCacheEntry.key) (key : String) :
    (entries.delete fun e ↦ e.key = key).rows.map (·.key) =
      (entries.rows.map (·.key)).erase key := by
  simpa [delete] using map_filter_ne entries.nodup key

theorem mem_keys (h : rc.entries.find? key = some entry) : key ∈ rc.keys :=
  key_of_find? h ▸ mem_map_of_mem (mem_of_find? h)

theorem uses_append : (calls ++ [c]).flatMap uses = calls.flatMap uses ++ c.uses := by
  rw [flatMap_append, flatMap_singleton]

theorem lastSet_append :
    lastSet (calls ++ [c]) key = (c.sets.filter (·.key = key)).getLast?.or (lastSet calls key) := by
  rw [lastSet, flatMap_append, flatMap_singleton, filter_append, getLast?_append, lastSet]

variable (h : Consistent calls rc)
include h

theorem Consistent.remove (key : String) {hits misses : ℕ} :
    Consistent calls ⟨rc.entries.delete fun e ↦ e.key = key, rc.lru.erase key, hits, misses⟩ where
  tracks := by
    rw [ResultCache.keys, keys_delete]
    exact h.tracks.remove key
  bounded := Nat.le_trans (filter_sublist.map _).length_le h.bounded
  latest := by
    intro k entry hfind
    rw [find?_delete_key] at hfind
    split_ifs at hfind
    exact h.latest k entry hfind

theorem Consistent.unset {rc' : ResultCache} (hentries : rc'.entries = rc.entries)
    (hsets : c.sets = []) (htracks : Tracks (calls.flatMap uses ++ c.uses) rc'.lru rc.keys) :
    Consistent (calls ++ [c]) rc' := by
  rw [ResultCache.keys, ← hentries] at htracks
  refine ⟨uses_append ▸ htracks, ?_, fun k entry hfind ↦ ?_⟩
  · rw [ResultCache.keys, hentries]
    exact h.bounded
  · rw [hentries] at hfind
    rw [lastSet_append, hsets]
    exact h.latest k entry hfind

theorem consistent_get (key : String) (now : ℤ) :
    Consistent (calls ++ [.get key now]) (rc.get key now).1 := by
  rw [ResultCache.get]
  split
  next hfind => exact h.unset rfl rfl (h.tracks.skip (find?_eq_none_iff.mp hfind))
  next entry hfind =>
    split_ifs
    · have hremoved := @Consistent.remove _ _ h key rc.hits (rc.misses + 1)
      refine hremoved.unset rfl rfl (hremoved.tracks.skip ?_)
      rw [ResultCache.keys, keys_delete]
      exact rc.entries.nodup.not_mem_erase
    · exact h.unset rfl rfl (h.tracks.touch (mem_keys hfind))

theorem Consistent.put (envelope : List UInt8) (ttl now : ℤ)
    (hroom : (rc.keys.erase key).length < resultCacheMaxSize) :
    Consistent (calls ++ [.set key envelope ttl now false])
      { rc with
        entries := rc.entries.put ⟨key, envelope, now + ttl⟩
        lru := rc.lru.erase key ++ [key] } := by
  have hkeys : (rc.entries.put ⟨key, envelope, now + ttl⟩).rows.map (·.key) =
      rc.keys.erase key ++ [key] := by
    rw [Table.put, map_append, map_filter_ne rc.entries.nodup]
    rfl
  refine ⟨?_, ?_, fun k entry hfind ↦ ?_⟩
  · rw [ResultCache.keys, hkeys, uses_append]
    exact h.tracks.put key
  · rw [ResultCache.keys, hkeys, length_append]
    exact hroom
  · rw [Table.find?_put] at hfind
    rw [lastSet_append]
    rcases eq_or_ne key k with rfl | hk
    · rw [if_pos rfl] at hfind
      simpa [sets] using hfind
    · rw [if_neg hk] at hfind
      simpa [sets, hk] using h.latest k entry hfind

theorem makeRoom_cases : rc.makeRoom = rc ∧ rc.keys.length < resultCacheMaxSize ∨
    ∃ victim ∈ rc.keys, rc.keys.length = resultCacheMaxSize ∧
      Oldest (calls.flatMap uses) rc.keys victim ∧
      rc.makeRoom = { rc with
        lru := rc.lru.erase victim, entries := rc.entries.delete fun e ↦ e.key = victim } := by
  rw [makeRoom, h.tracks.perm.length_eq]
  split_ifs with hfull
  · have hlen := Nat.le_antisymm h.bounded hfull
    split
    next hnil =>
      rw [← h.tracks.perm.length_eq, hnil] at hlen
      cases hlen
    next victim rest hlru =>
      have hmem := h.tracks.perm.mem_iff.mp (hlru ▸ mem_cons_self)
      refine .inr ⟨victim, hmem, hlen, h.tracks.oldest hlru, ?_⟩
      rw [hlru, erase_cons_head]
  · exact .inl ⟨rfl, Nat.lt_of_not_le hfull⟩

theorem consistent_makeRoom : Consistent calls rc.makeRoom ∧
    rc.makeRoom.keys.length < resultCacheMaxSize ∧ rc.makeRoom.keys ⊆ rc.keys := by
  obtain ⟨heq, hlt⟩ | ⟨victim, hmem, hlen, -, heq⟩ := makeRoom_cases h
  · rw [heq]
    exact ⟨h, hlt, Subset.refl _⟩
  · rw [heq, ResultCache.keys, keys_delete, ← hlen]
    exact ⟨h.remove victim, Nat.le_of_eq (length_erase_add_one hmem), erase_subset⟩

theorem consistent_set (key : String) (envelope : List UInt8) (ttl now : ℤ) (disabled : Bool) :
    Consistent (calls ++ [.set key envelope ttl now disabled])
      (rc.set key envelope ttl now disabled) := by
  rw [ResultCache.set]
  cases disabled with
  | true => exact h.unset rfl rfl ((append_nil _).symm ▸ h.tracks)
  | false =>
    rw [if_neg Bool.false_ne_true]
    dsimp only
    split
    next entry hfind =>
      have hlen := length_erase_add_one (mem_keys hfind)
      exact h.put envelope ttl now (Nat.le_trans (Nat.le_of_eq hlen) h.bounded)
    next hfind =>
      obtain ⟨hroom, hlt, hsub⟩ := consistent_makeRoom h
      have hkey : key ∉ rc.makeRoom.keys := fun hmem ↦ find?_eq_none_iff.mp hfind (hsub hmem)
      have hput := @Consistent.put _ _ key hroom envelope ttl now
      rw [erase_of_not_mem hkey, erase_of_not_mem (mt hroom.tracks.perm.mem_iff.mp hkey)] at hput
      exact hput hlt

theorem set_evicts {envelope : List UInt8} {ttl now : ℤ} {disabled : Bool} {victim : String}
    (hmem : victim ∈ rc.keys) (hgone : victim ∉ (rc.set key envelope ttl now disabled).keys) :
    rc.keys.length = resultCacheMaxSize ∧ key ∉ rc.keys ∧
      Oldest (calls.flatMap uses) rc.keys victim := by
  have hthere : rc.entries.find? victim ≠ none := fun hnone ↦ find?_eq_none_iff.mp hnone hmem
  rw [ResultCache.keys, ← find?_eq_none_iff, ResultCache.set] at hgone
  cases disabled with
  | true => exact absurd hgone hthere
  | false =>
    rw [if_neg Bool.false_ne_true] at hgone
    dsimp only at hgone
    split at hgone
    next =>
      rw [find?_put] at hgone
      split_ifs at hgone
      exact absurd hgone hthere
    next hfind =>
      rw [find?_put] at hgone
      split_ifs at hgone
      obtain ⟨heq, -⟩ | ⟨first, -, hlen, holdest, heq⟩ := makeRoom_cases h
      · rw [heq] at hgone
        exact absurd hgone hthere
      · rw [heq, find?_delete_key] at hgone
        split_ifs at hgone with hfirst
        · exact ⟨hlen, find?_eq_none_iff.mp hfind, hfirst ▸ holdest⟩
        · exact absurd hgone hthere

theorem Consistent.run (later : List Call) : Consistent (calls ++ later) (later.foldl run rc) := by
  induction later generalizing calls rc with
  | nil => exact (append_nil calls).symm ▸ h
  | cons c later ih =>
    have hstep : Consistent (calls ++ [c]) (c.run rc) := by
      cases c with
      | get key now => exact consistent_get h key now
      | set key envelope ttl now disabled => exact consistent_set h key envelope ttl now disabled
    rw [append_cons]
    exact ih hstep

end

theorem resultCache_consistent (calls : List Call) :
    let rc := calls.foldl Call.run {}
    rc.lru.Nodup ∧ rc.lru.Perm rc.keys ∧ rc.keys.length ≤ resultCacheMaxSize ∧
      (∀ key now envelope, (rc.get key now).2 = some envelope →
        ∃ entry, lastSet calls key = some entry ∧ entry.envelope = envelope ∧
          now ≤ entry.expiresAt) ∧
      ∀ key envelope ttl now disabled,
        ∀ victim ∈ rc.keys, victim ∉ (rc.set key envelope ttl now disabled).keys →
          rc.keys.length = resultCacheMaxSize ∧ key ∉ rc.keys ∧
            Oldest (calls.flatMap Call.uses) rc.keys victim := by
  have hempty : Consistent [] {} := ⟨.empty, Nat.zero_le _, nofun⟩
  have h := hempty.run calls
  rw [nil_append] at h
  refine ⟨h.tracks.nodup, h.tracks.perm, h.bounded, fun key now envelope hget ↦ ?_,
    fun key envelope ttl now disabled victim ↦ set_evicts h⟩
  rw [ResultCache.get] at hget
  split at hget
  next => cases hget
  next entry hfind =>
    split_ifs at hget with hexpired
    cases hget
    exact ⟨entry, h.latest key entry hfind, rfl, Int.not_lt.mp hexpired⟩

end MiLsp.Daemon
