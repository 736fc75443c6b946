import MiLsp.Library.Entries
import MiLsp.Pool.Model

namespace MiLsp.Pool

open Library.Entries List Manager Prod

inductive Sweep (st : Manager) : Manager → Prop
  | refl : Sweep st st
  | evict {st' : Manager} {pair : String × ℕ} (h : Sweep st st') (hmem : pair ∈ st'.runtimes)
      (hidle : (st'.runtime pair.2).activeCalls = 0) : Sweep st (st'.evict pair)
  | refresh {st' : Manager} (h : Sweep st st') (m : Moment) (pair : String × ℕ) :
      Sweep st (st'.refreshMemory m pair)

variable {st st' : Manager} {pair p : String × ℕ}

theorem Sweep.trans {st'' : Manager} (h : Sweep st st') (h' : Sweep st' st'') : Sweep st st'' := by
  induction h' with
  | refl => exact h
  | evict _ hmem hidle ih => exact ih.evict hmem hidle
  | refresh _ m pair ih => exact ih.refresh m pair

theorem Sweep.frame (h : Sweep st st') :
    st' = { st with runtimes := st'.runtimes, runtime := st'.runtime } := by
  induction h with
  | refl => rfl
  | @evict st' pair _ _ _ ih =>
    rw [ih]
    rfl
  | @refresh st' _ m pair ih =>
    rw [ih]
    rfl

theorem Sweep.sublist (h : Sweep st st') : st'.runtimes.Sublist st.runtimes := by
  induction h with
  | refl => exact .refl _
  | evict _ _ _ ih => exact filter_sublist.trans ih
  | refresh _ _ _ ih => exact ih

theorem Sweep.nodup (h : Sweep st st') (hkeys : (st.runtimes.map fst).Nodup) :
    (st'.runtimes.map fst).Nodup :=
  hkeys.sublist (h.sublist.map _)

variable (r : Runtime)

theorem close_activeCalls : r.close.activeCalls = r.activeCalls := rfl

theorem refreshMemory_closed (m : Moment) : (r.refreshMemory m).closed = r.closed := by
  rw [Runtime.refreshMemory]
  split_ifs <;> rfl

theorem refreshMemory_activeCalls (m : Moment) :
    (r.refreshMemory m).activeCalls = r.activeCalls := by
  rw [Runtime.refreshMemory]
  split_ifs <;> rfl

theorem Sweep.activeCalls (h : Sweep st st') (i : ℕ) :
    (st'.runtime i).activeCalls = (st.runtime i).activeCalls := by
  induction h with
  | refl => rfl
  | evict _ _ _ ih => exact (update_field Runtime.activeCalls (close_activeCalls _) i).trans ih
  | refresh _ m pair ih =>
    exact (update_field Runtime.activeCalls (refreshMemory_activeCalls _ m) i).trans ih

theorem Sweep.idle_of_closed (h : Sweep st st') {i : ℕ} (hopen : (st.runtime i).closed = false)
    (hclosed : (st'.runtime i).closed = true) : (st.runtime i).activeCalls = 0 := by
  induction h with
  | refl =>
    rw [hopen] at hclosed
    cases hclosed
  | @evict st' pair hsweep _ hidle ih =>
    rcases eq_or_ne i pair.2 with rfl | hne
    · rw [← hsweep.activeCalls, hidle]
    · refine ih ?_
      dsimp only [Manager.evict, Manager.set] at hclosed
      rwa [Function.update_of_ne hne] at hclosed
  | refresh _ m pair ih =>
    exact ih ((update_field Runtime.closed (refreshMemory_closed _ m) i).symm.trans hclosed)

theorem Sweep.withCalls (h : Sweep st st') (calls : List Call) :
    Sweep { st with calls } { st' with calls } := by
  induction h with
  | refl => exact .refl
  | evict _ hmem hidle ih => exact ih.evict hmem hidle
  | refresh _ m pair ih => exact ih.refresh m pair

theorem mem_evict (hp : p ∈ st.runtimes) (hne : p.1 ≠ pair.1) : p ∈ (st.evict pair).runtimes := by
  refine mem_filter.mpr ⟨hp, ?_⟩
  simpa using hne

theorem sweep_foldl {visit : Manager → String × ℕ → Manager}
    (hvisit : ∀ (st : Manager) pair, pair ∈ st.runtimes → Sweep st (visit st pair))
    (hkeep : ∀ (st : Manager) pair p, p ∈ st.runtimes → p.1 ≠ pair.1 → p ∈ (visit st pair).runtimes)
    {l : List (String × ℕ)} (hkeys : (l.map fst).Nodup) (hl : ∀ p ∈ l, p ∈ st.runtimes) :
    Sweep st (l.foldl visit st) := by
  induction l generalizing st with
  | nil => exact .refl
  | cons pair l ih =>
    rw [map_cons, nodup_cons] at hkeys
    refine (hvisit st pair (hl pair mem_cons_self)).trans (ih hkeys.2 ?_)
    intro p hp
    refine hkeep st pair p (hl p (mem_cons_of_mem _ hp)) ?_
    intro heq
    exact hkeys.1 (heq ▸ mem_map_of_mem hp)

variable (excess : Runtime → Bool)

theorem sweep_evictIdle (h : pair ∈ st.runtimes) : Sweep st (st.evictIdle excess pair) := by
  rw [evictIdle]
  split_ifs with hidle
  · rw [Bool.and_eq_true, decide_eq_true_eq] at hidle
    exact Sweep.refl.evict h hidle.1
  · exact .refl

theorem mem_evictIdle (hp : p ∈ st.runtimes) (hne : p.1 ≠ pair.1) :
    p ∈ (st.evictIdle excess pair).runtimes := by
  rw [evictIdle]
  split_ifs
  · exact mem_evict hp hne
  · exact hp

theorem leastRecentlyUsed_idle {victim : String × ℕ}
    (h : st.leastRecentlyUsedIdleRuntime = some victim) :
    victim ∈ st.runtimes ∧ (st.runtime victim.2).activeCalls = 0 := by
  revert h
  refine foldlRecOn (motive := fun oldest ↦ oldest = some victim →
    victim ∈ st.runtimes ∧ (st.runtime victim.2).activeCalls = 0) st.runtimes _ (by simp) ?_
  intro oldest holdest pair hpair hvictim
  dsimp only at hvictim
  split_ifs at hvictim with hactive holder
  · exact holdest hvictim
  · cases hvictim
    exact ⟨hpair, by omega⟩
  · exact holdest hvictim

theorem sweep_evictLeastRecentlyUsed : Sweep st st.evictLeastRecentlyUsed := by
  rw [evictLeastRecentlyUsed]
  split
  next victim h =>
    obtain ⟨hmem, hidle⟩ := leastRecentlyUsed_idle h
    exact Sweep.refl.evict hmem hidle
  next => exact .refl

theorem sweep_refreshAll (m : Moment) (l : List (String × ℕ)) :
    Sweep st (l.foldl (refreshMemory m) st) :=
  foldlRecOn l _ .refl fun _ h pair _ ↦ h.refresh m pair

variable (cfg : Config) (m : Moment)

theorem sweep_boundTotal (fuel : ℕ) : Sweep st (boundTotal cfg m fuel st) := by
  induction fuel generalizing st with
  | zero => exact .refl
  | succ fuel ih =>
    rw [boundTotal]
    have hrefresh := @sweep_refreshAll st m st.runtimes
    split_ifs
    · exact hrefresh
    · split
      next => exact hrefresh
      next victim h =>
        obtain ⟨hmem, hidle⟩ := leastRecentlyUsed_idle h
        exact (hrefresh.evict hmem hidle).trans ih

theorem sweep_enforceIdleMemoryBounds (hkeys : (st.runtimes.map fst).Nodup) :
    Sweep st (st.enforceIdleMemoryBounds cfg m) := by
  have hwalk : Sweep st (st.runtimes.foldl (fun st pair ↦
      (st.refreshMemory m pair).evictIdle (fun r ↦ r.memoryBytes > cfg.maxRuntimeBytes) pair)
      st) := by
    refine sweep_foldl ?_ ?_ hkeys fun _ hp ↦ hp
    · intro st pair hpair
      exact (Sweep.refl.refresh m pair).trans (sweep_evictIdle _ hpair)
    · intro st pair p hp hne
      exact mem_evictIdle _ hp hne
  rw [enforceIdleMemoryBounds]
  split_ifs
  · exact hwalk
  · exact hwalk.trans (sweep_boundTotal cfg m _)

theorem sweep_reapIdle (hkeys : (st.runtimes.map fst).Nodup) (privateBytes : ℕ) :
    Sweep st (st.reapIdle cfg m privateBytes) := by
  have hwalk (excess : Runtime → Bool) :
      Sweep st (st.runtimes.foldl (evictIdle excess) st) :=
    sweep_foldl (fun _ _ hpair ↦ sweep_evictIdle excess hpair)
      (fun _ _ _ hp hne ↦ mem_evictIdle excess hp hne) hkeys fun _ hp ↦ hp
  exact (hwalk _).trans (sweep_enforceIdleMemoryBounds cfg m ((hwalk _).nodup hkeys))

/-- The section that looks for a runtime finds one, or makes room and has a new one or none. -/
inductive Gets (st : Manager) (key : String) (mark : ℕ) (started : Option ℕ) :
    Manager → Option ℕ → Prop
  | reuse {i : ℕ} {r : Runtime} (hmem : (key, i) ∈ st.runtimes)
      (hkey : r.key = (st.runtime i).key)
      (hactive : r.activeCalls = (st.runtime i).activeCalls + mark)
      (hrunning : r.running = (st.runtime i).running)
      (hclosed : r.closed = (st.runtime i).closed) : Gets st key mark started (st.set i r) (some i)
  | refuse {room : Manager} (hroom : Sweep st room) : Gets st key mark started room none
  | create {room st' : Manager} {r : Runtime} (hroom : Sweep st room)
      (hnew : ∀ pair ∈ room.runtimes, pair.1 ≠ key) (hstarted : started ≠ none)
      (hkey : r.key = key) (hactive : r.activeCalls = mark) (hclosed : r.closed = false)
      (hsweep : Sweep (room.register r) st') :
      Gets st key mark started st' (some room.nextRuntime)

theorem nodup_register {r : Runtime} (hkeys : (st.runtimes.map fst).Nodup)
    (hnew : ∀ pair ∈ st.runtimes, pair.1 ≠ r.key) : ((st.register r).runtimes.map fst).Nodup :=
  nodup_keys_cons hnew hkeys

theorem gets_getOrCreate (hkeys : (st.runtimes.map fst).Nodup) (key : String)
    (backend : Backend) (mark : Bool) (started : Option ℕ) :
    Gets st key (if mark then 1 else 0) started
      (st.getOrCreate cfg m key backend mark started).1
      (st.getOrCreate cfg m key backend mark started).2 := by
  rw [getOrCreate]
  cases hlookup : st.runtimes.lookup key with
  | some i => exact .reuse (mem_of_lookup hlookup) rfl rfl rfl rfl
  | none =>
    have hroom : Sweep st
        (if st.runtimes.length ≥ cfg.maxWorkers then st.evictLeastRecentlyUsed else st) := by
      split_ifs
      · exact sweep_evictLeastRecentlyUsed
      · exact .refl
    generalize (if st.runtimes.length ≥ cfg.maxWorkers then st.evictLeastRecentlyUsed else st) =
      room at hroom ⊢
    cases started with
    | none => exact .refuse hroom
    | some pid =>
      have hnew : ∀ pair ∈ room.runtimes, pair.1 ≠ key := by
        intro pair hpair
        exact ne_of_lookup hlookup pair (hroom.sublist.subset hpair)
      refine .create hroom hnew nofun rfl rfl rfl (sweep_enforceIdleMemoryBounds cfg m ?_)
      exact nodup_register (hroom.nodup hkeys) hnew

end MiLsp.Pool
