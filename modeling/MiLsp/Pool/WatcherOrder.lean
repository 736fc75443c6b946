import MiLsp.Library.Recency
import MiLsp.Pool.Watchers

namespace MiLsp.Pool

open Library Entries Recency List Manager

inductive Section
  | ensure (key : String)
  | register (t : Ensure) (w : ℕ)
  | stopWatchers

namespace Section

def run (cfg : Config) (st : Manager) : Section → Manager
  | ensure key => st.ensureFileWatcher cfg key
  | register t w => st.registerWatcher cfg t w
  | stopWatchers => st.stopWatchers

def touches (st : Manager) : Section → List String
  | ensure key => if (st.watchers.lookup key).isSome then [key] else []
  | register t _ => [t.key]
  | stopWatchers => []

def track (cfg : Config) (tracked : Manager × List String) (s : Section) : Manager × List String :=
  (s.run cfg tracked.1, tracked.2 ++ s.touches tracked.1)

end Section

def Manager.watched (st : Manager) : List String := st.watchers.map Prod.fst

structure Listed (cfg : Config) (log : List String) (st : Manager) : Prop where
  tracks : Tracks log st.watcherRoots st.watched
  bounded : 0 < cfg.maxWatchedRoots → st.watched.length ≤ cfg.maxWatchedRoots

section

variable {cfg : Config} {log : List String} {st : Manager} {key : String}

theorem mem_watched : key ∈ st.watched ↔ (st.watchers.lookup key).isSome := by
  constructor
  · intro hmem
    obtain ⟨pair, hpair, rfl⟩ := mem_map.mp hmem
    refine Option.isSome_iff_ne_none.mpr fun hnone ↦ ?_
    exact ne_of_lookup hnone pair hpair rfl
  · intro hsome
    exact mem_map_of_mem (mem_of_lookup (Option.some_get hsome).symm)

variable (h : Listed cfg log st)
include h

theorem makeRoom_evicted : st.makeRoom cfg = st ∧
      (0 < cfg.maxWatchedRoots → st.watched.length < cfg.maxWatchedRoots) ∨
    ∃ victim ∈ st.watched, Oldest log st.watched victim ∧
      (st.makeRoom cfg).watcherRoots = st.watcherRoots.erase victim ∧
      (st.makeRoom cfg).watched = st.watched.erase victim := by
  have hperm := h.tracks.perm
  have hlen : st.watched.length = st.watchers.length := length_map ..
  rw [makeRoom]
  split_ifs with hfull
  · rw [evictWatcher]
    split
    next hnil =>
      refine .inl ⟨rfl, fun hpos ↦ ?_⟩
      rw [← hperm.length_eq, hnil]
      exact hpos
    next victim rest hroots =>
      have hmem : victim ∈ st.watched := hperm.mem_iff.mp (hroots ▸ mem_cons_self)
      refine .inr ⟨victim, hmem, h.tracks.oldest hroots, ?_⟩
      rw [hroots, erase_cons_head]
      dsimp only
      rw [← Option.some_get (mem_watched.mp hmem)]
      exact ⟨rfl, map_filter_ne (hperm.nodup h.tracks.nodup) victim⟩
  · exact .inl ⟨rfl, fun _ ↦ hlen ▸ Nat.lt_of_not_le hfull⟩

theorem listed_makeRoom : Listed cfg log (st.makeRoom cfg) ∧
    (0 < cfg.maxWatchedRoots → (st.makeRoom cfg).watched.length < cfg.maxWatchedRoots) := by
  obtain ⟨heq, hlt⟩ | ⟨victim, hmem, -, hroots, hwatched⟩ := makeRoom_evicted h
  · rw [heq]
    exact ⟨h, hlt⟩
  · have hlt : 0 < cfg.maxWatchedRoots →
        (st.makeRoom cfg).watched.length < cfg.maxWatchedRoots := by
      intro hpos
      rw [hwatched]
      exact Nat.le_trans (Nat.le_of_eq (length_erase_add_one hmem)) (h.bounded hpos)
    refine ⟨⟨?_, fun hpos ↦ Nat.le_of_lt (hlt hpos)⟩, hlt⟩
    rw [hroots, hwatched]
    exact h.tracks.remove victim

theorem listed_touch (hkey : (st.watchers.lookup key).isSome) :
    Listed cfg (log ++ [key]) (st.touchWatcher key) :=
  ⟨h.tracks.touch (mem_watched.mpr hkey), h.bounded⟩

theorem listed_ensure : Listed cfg (log ++ (Section.ensure key).touches st)
    (st.ensureFileWatcher cfg key) := by
  rw [Section.touches, ensureFileWatcher]
  split_ifs with hthere
  · exact listed_touch h hthere
  · rw [append_nil]
    exact { (listed_makeRoom h).1 with }

theorem listed_register (t : Ensure) (w : ℕ) :
    Listed cfg (log ++ [t.key]) (st.registerWatcher cfg t w) := by
  rw [registerWatcher]
  dsimp only
  split_ifs with hthere
  · exact { listed_touch h hthere with }
  · obtain ⟨hroom, hlt⟩ := listed_makeRoom h
    have hkey : t.key ∉ (st.makeRoom cfg).watched := by
      intro hkept
      exact hthere (mem_watched.mp (((makeRoom_sublist cfg).map _).subset hkept))
    have hput := hroom.tracks.put t.key
    rw [erase_of_not_mem hkey, erase_of_not_mem (mt hroom.tracks.perm.mem_iff.mp hkey)] at hput
    rw [makeRoom_ensures]
    exact ⟨⟨hput.ordered, hput.perm.trans (perm_append_singleton ..)⟩, hlt⟩

theorem makeRoom_oldest (hmem : key ∈ st.watched) (hgone : key ∉ (st.makeRoom cfg).watched) :
    Oldest log st.watched key := by
  obtain ⟨heq, -⟩ | ⟨victim, -, holdest, -, hwatched⟩ := makeRoom_evicted h
  · rw [heq] at hgone
    exact absurd hmem hgone
  · rw [hwatched] at hgone
    rcases eq_or_ne key victim with rfl | hne
    · exact holdest
    · exact absurd ((mem_erase_of_ne hne).mpr hmem) hgone

theorem Section.evicts {s : Section} (hs : s ≠ .stopWatchers) (hmem : key ∈ st.watched)
    (hgone : key ∉ (s.run cfg st).watched) : Oldest log st.watched key := by
  cases s with
  | ensure k =>
    rw [run, ensureFileWatcher] at hgone
    split_ifs at hgone
    · exact absurd hmem hgone
    · exact makeRoom_oldest h hmem hgone
  | register t w =>
    rw [run, registerWatcher] at hgone
    dsimp only at hgone
    split_ifs at hgone
    · exact absurd hmem hgone
    · rw [makeRoom_ensures] at hgone
      exact makeRoom_oldest h hmem fun hkept ↦ hgone (mem_cons_of_mem _ hkept)
  | stopWatchers => exact absurd rfl hs

end

theorem listed_track (cfg : Config) (sections : List Section) :
    let tracked := sections.foldl (Section.track cfg) ({}, [])
    Listed cfg tracked.2 tracked.1 := by
  refine foldlRecOn (motive := fun tracked : Manager × _ ↦ Listed cfg tracked.2 tracked.1)
    sections _ ⟨.empty, fun _ ↦ Nat.zero_le _⟩ ?_
  intro tracked h s _
  cases s with
  | ensure key => exact listed_ensure h
  | register t w => exact listed_register h t w
  | stopWatchers => exact ⟨.empty, fun _ ↦ Nat.zero_le _⟩

theorem watcherRoots_recency (cfg : Config) (sections : List Section) :
    let tracked := sections.foldl (Section.track cfg) ({}, [])
    let st := tracked.1
    st.watcherRoots.Nodup ∧ st.watcherRoots.Perm st.watched ∧
      (0 < cfg.maxWatchedRoots → st.watchers.length ≤ cfg.maxWatchedRoots) ∧
      ∀ s ≠ Section.stopWatchers, ∀ victim ∈ st.watched, victim ∉ (s.run cfg st).watched →
        Oldest tracked.2 st.watched victim := by
  have h := listed_track cfg sections
  refine ⟨h.tracks.nodup, h.tracks.perm, fun hpos ↦ ?_, fun s hs victim ↦ Section.evicts h hs⟩
  have hle := h.bounded hpos
  rwa [Manager.watched, length_map] at hle

end MiLsp.Pool
