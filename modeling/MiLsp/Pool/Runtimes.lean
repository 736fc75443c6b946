import MiLsp.Pool.Sweeps

namespace MiLsp.Pool

open Library.Entries List Function Prod

def Registered (st : Manager) (i : ℕ) : Prop := i ∈ st.runtimes.map Prod.snd

structure Inv (st : Manager) : Prop where
  keys : (st.runtimes.map Prod.fst).Nodup
  registered : ∀ pair ∈ st.runtimes, (st.runtime pair.2).key = pair.1 ∧
    (st.runtime pair.2).closed = false ∧ pair.2 < st.nextRuntime
  active : ∀ i, (st.runtime i).activeCalls = st.calls.countP (·.runtime = i)
  calls : ∀ c ∈ st.calls, c.runtime < st.nextRuntime
  /-- A call loses its runtime to the shutdown, or when it drops its own. -/
  held : ∀ c ∈ st.calls, Registered st c.runtime ∨
    (st.stage = .down ∧ (st.runtime c.runtime).closed = true) ∨
    ((st.runtime c.runtime).activeCalls = 1 ∧ (c.phase = .dropped ∨ c.phase = .spent))
  dropped : ∀ c ∈ st.calls, c.phase = .dropped → ¬ Registered st c.runtime
  running : ∀ i, (st.runtime i).running = true → Registered st i ∨
    ∃ c ∈ st.calls, c.runtime = i ∧ c.phase = .dropped
  down : st.stage = .down → st.runtimes = []

theorem inv_empty : Inv {} := by
  constructor <;> simp

section Runtimes

variable {st st' : Manager} {pair : String × ℕ} {taken : List Call} {i : ℕ}

theorem registered_evict (h : Inv st) (hmem : pair ∈ st.runtimes) :
    Registered (st.evict pair) i ↔ Registered st i ∧ i ≠ pair.2 := by
  constructor
  · intro hi
    obtain ⟨p, hp, rfl⟩ := mem_map.mp hi
    obtain ⟨hp, hne⟩ := mem_filter.mp hp
    refine ⟨mem_map_of_mem hp, fun heq ↦ ?_⟩
    have hkey : p.1 = pair.1 := by
      rw [← (h.registered p hp).1, heq, (h.registered pair hmem).1]
    simp [hkey] at hne
  · rintro ⟨hi, hne⟩
    obtain ⟨p, hp, rfl⟩ := mem_map.mp hi
    refine mem_map_of_mem (mem_evict hp ?_)
    intro hkey
    exact hne (congrArg snd (inj_on_of_nodup_map h.keys hp hmem hkey))

theorem Inv.no_call (h : Inv st) (hidle : (st.runtime i).activeCalls = 0) :
    ∀ c ∈ st.calls, c.runtime ≠ i := by
  rw [h.active i, countP_eq_zero] at hidle
  intro c hc
  simpa using hidle c hc

theorem inv_evict (h : Inv st) (hmem : pair ∈ st.runtimes)
    (hidle : (st.runtime pair.2).activeCalls = 0) : Inv (st.evict pair) := by
  have hsame {i : ℕ} (hi : i ≠ pair.2) (r : Runtime) :
      Function.update st.runtime pair.2 r i = st.runtime i :=
    update_of_ne hi ..
  have hcall := h.no_call hidle
  exact {
    keys := h.keys.sublist (filter_sublist.map _)
    registered := by
      intro p hp
      have hreg : Registered (st.evict pair) p.2 := mem_map_of_mem hp
      rw [registered_evict h hmem] at hreg
      dsimp only [Manager.evict, Manager.set]
      rw [hsame hreg.2]
      exact h.registered p (mem_of_mem_filter hp)
    active := fun i ↦ (update_field Runtime.activeCalls (close_activeCalls _) i).trans (h.active i)
    calls := h.calls
    held := by
      intro c hc
      have hne := hcall c hc
      rw [registered_evict h hmem]
      dsimp only [Manager.evict, Manager.set]
      rw [hsame hne]
      exact (h.held c hc).imp_left fun hreg ↦ ⟨hreg, hne⟩
    dropped := by
      intro c hc hphase hreg
      exact h.dropped c hc hphase ((registered_evict h hmem).mp hreg).1
    running := by
      intro i hrunning
      rw [registered_evict h hmem]
      rcases eq_or_ne i pair.2 with rfl | hne
      · dsimp only [Manager.evict, Manager.set] at hrunning
        rw [update_self] at hrunning
        cases hrunning
      · dsimp only [Manager.evict, Manager.set] at hrunning
        rw [hsame hne] at hrunning
        exact (h.running i hrunning).imp_left fun hreg ↦ ⟨hreg, hne⟩
    down := by
      intro hstage
      have hnil := h.down hstage
      rw [hnil] at hmem
      cases hmem }

theorem countP_taken (hruntime : ∀ c ∈ taken, c.runtime = i) (calls : List Call) (j : ℕ) :
    (taken ++ calls).countP (·.runtime = j) =
      (if j = i then taken.length else 0) + calls.countP (·.runtime = j) := by
  rw [countP_append]
  congr 1
  split_ifs with hj
  · refine countP_eq_length.mpr fun c hc ↦ ?_
    simp [hruntime c hc, hj]
  · refine countP_eq_zero.mpr fun c hc ↦ ?_
    simpa [hruntime c hc] using Ne.symm hj

theorem inv_use (h : Inv st) (hreg : taken ≠ [] → Registered st i)
    (hruntime : ∀ c ∈ taken, c.runtime = i) (hphase : ∀ c ∈ taken, c.phase = .acquired)
    {r : Runtime} (hkey : r.key = (st.runtime i).key)
    (hactive : r.activeCalls = (st.runtime i).activeCalls + taken.length)
    (hrunning : r.running = (st.runtime i).running) (hclosed : r.closed = (st.runtime i).closed) :
    Inv { st.set i r with calls := taken ++ st.calls } := by
  have hreg' : ∀ c ∈ taken, Registered st i := fun c hc ↦ hreg (ne_nil_of_mem hc)
  have hclosed' := update_field Runtime.closed hclosed
  exact {
    keys := h.keys
    registered := by
      intro pair hpair
      dsimp only [Manager.set]
      rw [update_field Runtime.key hkey, hclosed']
      exact h.registered pair hpair
    active := by
      intro j
      have hold := h.active j
      dsimp only [Manager.set]
      rw [countP_taken hruntime, update_apply]
      split_ifs with hj
      · rw [hactive, ← hj, hold, Nat.add_comm]
      · rw [hold, Nat.zero_add]
    calls := by
      intro c hc
      rcases mem_append.mp hc with hc' | hc'
      · obtain ⟨pair, hpair, hi⟩ := mem_map.mp (hreg' c hc')
        rw [hruntime c hc', ← hi]
        exact (h.registered pair hpair).2.2
      · exact h.calls c hc'
    held := by
      intro c hc
      rcases mem_append.mp hc with hc' | hc'
      · exact .inl (hruntime c hc' ▸ hreg' c hc')
      · cases taken with
        | nil =>
          dsimp only [Manager.set]
          rw [update_field Runtime.activeCalls hactive, hclosed']
          exact h.held c hc'
        | cons first taken =>
          rcases eq_or_ne c.runtime i with heq | hne
          · exact .inl (heq ▸ hreg (by simp))
          · dsimp only [Manager.set]
            rw [update_of_ne hne]
            exact h.held c hc'
    dropped := by
      intro c hc hdropped
      rcases mem_append.mp hc with hc | hc
      · rw [hphase c hc] at hdropped
        cases hdropped
      · exact h.dropped c hc hdropped
    running := by
      intro j hj
      have hold := (update_field Runtime.running hrunning j).symm.trans hj
      refine (h.running j hold).imp_right ?_
      rintro ⟨c, hc, hspec⟩
      exact ⟨c, mem_append_right _ hc, hspec⟩
    down := h.down }

theorem inv_sweep (h : Inv st) (hsweep : Sweep st st') : Inv st' := by
  induction hsweep with
  | refl => exact h
  | evict _ hmem hidle ih => exact inv_evict ih hmem hidle
  | @refresh st' _ m pair ih =>
    have hfields (r : Runtime) :
        (r.refreshMemory m).key = r.key ∧ (r.refreshMemory m).running = r.running := by
      rw [Runtime.refreshMemory]
      split_ifs <;> exact ⟨rfl, rfl⟩
    obtain ⟨hkey, hrunning⟩ := hfields (st'.runtime pair.2)
    exact @inv_use _ [] _ ih (absurd rfl) (by simp) (by simp) _ hkey (refreshMemory_activeCalls ..)
      hrunning (refreshMemory_closed ..)

end Runtimes

section Acquire

variable {st : Manager} {taken : List Call}

theorem Option.elim_nil {α β : Type} (o : Option α) : o.elim ([] : List β) (fun _ ↦ []) = [] := by
  cases o <;> rfl

theorem inv_register (h : Inv st) (hstage : st.stage ≠ .down) {r : Runtime}
    (hnew : ∀ pair ∈ st.runtimes, pair.1 ≠ r.key)
    (hruntime : ∀ c ∈ taken, c.runtime = st.nextRuntime) (hphase : ∀ c ∈ taken, c.phase = .acquired)
    (hactive : r.activeCalls = taken.length) (hclosed : r.closed = false) :
    Inv { st.register r with calls := taken ++ st.calls } := by
  have hsame {j : ℕ} (hj : j < st.nextRuntime) :
      Function.update st.runtime st.nextRuntime r j = st.runtime j :=
    update_of_ne (Nat.ne_of_lt hj) ..
  have hnone : st.calls.countP (·.runtime = st.nextRuntime) = 0 := by
    refine countP_eq_zero.mpr fun c hc ↦ ?_
    simpa using Nat.ne_of_lt (h.calls c hc)
  exact {
    keys := nodup_register h.keys hnew
    registered := by
      intro pair hpair
      dsimp only [Manager.set, Manager.register]
      rcases mem_cons.mp hpair with rfl | hpair
      · rw [update_self]
        exact ⟨rfl, hclosed, Nat.lt_succ_self _⟩
      · obtain ⟨hkey, hclosed, hlt⟩ := h.registered pair hpair
        rw [hsame hlt]
        exact ⟨hkey, hclosed, Nat.lt_succ_of_lt hlt⟩
    active := by
      intro j
      dsimp only [Manager.set, Manager.register]
      rw [countP_taken hruntime, update_apply]
      split_ifs with hj
      · rw [hactive, hj, hnone, Nat.add_zero]
      · rw [h.active j, Nat.zero_add]
    calls := by
      intro c hc
      rcases mem_append.mp hc with hc | hc
      · rw [hruntime c hc]
        exact Nat.lt_succ_self _
      · exact Nat.lt_succ_of_lt (h.calls c hc)
    held := by
      intro c hc
      rcases mem_append.mp hc with hc | hc
      · rw [hruntime c hc]
        exact .inl mem_cons_self
      · dsimp only [Manager.set, Manager.register]
        rw [hsame (h.calls c hc)]
        exact (h.held c hc).imp_left (mem_cons_of_mem _)
    dropped := by
      intro c hc hdropped
      rcases mem_append.mp hc with hc | hc
      · rw [hphase c hc] at hdropped
        cases hdropped
      · intro hreg
        rcases mem_cons.mp hreg with heq | hreg
        · exact absurd (h.calls c hc) (heq ▸ Nat.lt_irrefl _)
        · exact h.dropped c hc hdropped hreg
    running := by
      intro j hj
      rcases eq_or_ne j st.nextRuntime with rfl | hne
      · exact .inl mem_cons_self
      · dsimp only [Manager.set, Manager.register] at hj
        rw [update_of_ne hne] at hj
        refine (h.running j hj).imp (mem_cons_of_mem _) ?_
        rintro ⟨c, hc, hspec⟩
        exact ⟨c, mem_append_right _ hc, hspec⟩
    down := fun hdown ↦ absurd hdown hstage }

theorem inv_gets (h : Inv st) {st' : Manager} {key : String} {mark : ℕ} {started : Option ℕ}
    {runtime : Option ℕ} (hgets : Gets st key mark started st' runtime)
    (hstage : st.stage = .down → started = none) {take : ℕ → List Call}
    (hruntime : ∀ i, ∀ c ∈ take i, c.runtime = i) (hphase : ∀ i, ∀ c ∈ take i, c.phase = .acquired)
    (hlength : ∀ i, (take i).length = mark) :
    Inv { st' with calls := runtime.elim [] take ++ st'.calls } := by
  cases hgets with
  | @reuse i r hmem hkey hactive hrunning hclosed =>
    rw [← hlength i] at hactive
    exact inv_use h (fun _ ↦ mem_map_of_mem hmem) (hruntime i) (hphase i) hkey hactive hrunning
      hclosed
  | refuse hroom => exact inv_sweep h hroom
  | @create room st' r hroom hnew hstarted hkey hactive hclosed hsweep =>
    have hup : room.stage ≠ .down := by
      rw [hroom.frame]
      exact fun hdown ↦ hstarted (hstage hdown)
    rw [← hlength room.nextRuntime] at hactive
    have hcreated := inv_register (inv_sweep h hroom) hup (hkey ▸ hnew) (hruntime _) (hphase _)
      hactive hclosed
    -- the bounds are enforced before the call is on the list, which they do not look at
    have hbounded := inv_sweep hcreated (hsweep.withCalls _)
    have hcalls : st'.calls = room.calls := by
      rw [hsweep.frame]
      rfl
    rw [hcalls]
    exact hbounded

end Acquire

section Calls

variable {st : Manager} {c : Call}

theorem runtime_ne_of_sole (h : Inv st) (hc : c ∈ st.calls)
    (hsole : (st.runtime c.runtime).activeCalls = 1) :
    ∀ c' ∈ st.calls.erase c, c'.runtime ≠ c.runtime := by
  rw [h.active, (perm_cons_erase hc).countP_eq, countP_cons] at hsole
  simp only [decide_true, if_true, Nat.add_eq_right, countP_eq_zero] at hsole
  intro c' hc'
  simpa using hsole c' hc'

theorem inv_call (h : Inv st) (hc : c ∈ st.calls) {r : Runtime} {runtimes : List (String × ℕ)}
    {after : List Call} (hafter : ∀ x ∈ after, x.runtime = c.runtime)
    (hsub : runtimes.Sublist st.runtimes)
    (hother : ∀ i ∈ st.runtimes.map snd, i ≠ c.runtime → i ∈ runtimes.map snd)
    (hkept : c.runtime ∈ runtimes.map snd →
      r.key = (st.runtime c.runtime).key ∧ r.closed = (st.runtime c.runtime).closed)
    (hactive : r.activeCalls + 1 = (st.runtime c.runtime).activeCalls + after.length)
    (hheld : ∀ x ∈ after ++ st.calls.erase c, x.runtime = c.runtime →
      c.runtime ∈ runtimes.map snd ∨ (st.stage = .down ∧ r.closed = true) ∨
      (r.activeCalls = 1 ∧ (x.phase = .dropped ∨ x.phase = .spent)))
    (hdropped : ∀ x ∈ after, x.phase = .dropped → c.runtime ∉ runtimes.map snd)
    (hrunning : r.running = true → c.runtime ∈ runtimes.map snd ∨
      ∃ x ∈ after ++ st.calls.erase c, x.runtime = c.runtime ∧ x.phase = .dropped) :
    Inv { st.set c.runtime r with runtimes, calls := after ++ st.calls.erase c } where
  keys := h.keys.sublist (hsub.map _)
  registered := by
    intro pair hpair
    have hold := h.registered pair (hsub.subset hpair)
    dsimp only [Manager.set]
    rw [update_apply]
    split_ifs with heq
    · obtain ⟨hkey, hclosed⟩ := hkept (heq ▸ mem_map_of_mem hpair)
      rwa [hkey, hclosed, ← heq]
    · exact hold
  active := by
    intro i
    have hold := h.active i
    rw [(perm_cons_erase hc).countP_eq, countP_cons] at hold
    dsimp only [Manager.set]
    rw [countP_taken hafter, update_apply]
    split_ifs with hi
    · simp only [hi, decide_true, if_true] at hold ⊢
      omega
    · simpa [Ne.symm hi] using hold
  calls := by
    intro x hx
    rcases mem_append.mp hx with hx | hx
    · exact hafter x hx ▸ h.calls c hc
    · exact h.calls x (mem_of_mem_erase hx)
  held := by
    intro x hx
    dsimp only [Manager.set]
    rcases eq_or_ne x.runtime c.runtime with heq | hne
    · rw [heq, update_self]
      exact hheld x hx heq
    · rw [update_of_ne hne]
      have hx := (mem_append.mp hx).resolve_left fun hx ↦ hne (hafter x hx)
      exact (h.held x (mem_of_mem_erase hx)).imp_left fun hreg ↦ hother _ hreg hne
  dropped := by
    intro x hx hphase
    rcases mem_append.mp hx with hx | hx
    · exact hafter x hx ▸ hdropped x hx hphase
    · exact fun hreg ↦ h.dropped x (mem_of_mem_erase hx) hphase ((hsub.map _).subset hreg)
  running := by
    intro i hi
    dsimp only [Manager.set] at hi
    rcases eq_or_ne i c.runtime with rfl | hne
    · rw [update_self] at hi
      exact hrunning hi
    · rw [update_of_ne hne] at hi
      refine (h.running i hi).imp (fun hreg ↦ hother i hreg hne) ?_
      rintro ⟨x, hx, rfl, hphase⟩
      have hxc : x ≠ c := fun heq ↦ hne (congrArg Call.runtime heq)
      exact ⟨x, mem_append_right _ ((mem_erase_of_ne hxc).mpr hx), rfl, hphase⟩
  down := fun hstage ↦ sublist_nil.mp (h.down hstage ▸ hsub)

theorem inv_advance (h : Inv st) (hc : c ∈ st.calls) {r : Runtime} {phase : Phase}
    (hold : c.phase ≠ .dropped ∧ c.phase ≠ .spent) (hphase : phase ≠ .dropped)
    (hkey : r.key = (st.runtime c.runtime).key)
    (hactive : r.activeCalls = (st.runtime c.runtime).activeCalls)
    (hclosed : r.closed = (st.runtime c.runtime).closed)
    (hrunning : r.running = true → (st.runtime c.runtime).running = true ∨
      Registered st c.runtime) :
    Inv ((st.set c.runtime r).advance c phase) := by
  refine @inv_call _ _ h hc r _ [{ c with phase }] (by simp) (.refl _) (fun _ hi _ ↦ hi)
    (fun _ ↦ ⟨hkey, hclosed⟩) (congrArg (· + 1) hactive) ?_ (by simp [hphase]) ?_
  · intro x hx heq
    rw [hactive, hclosed, ← heq]
    rcases mem_cons.mp hx with rfl | hx
    · rcases h.held c hc with hreg | hdown | ⟨-, hend⟩
      · exact .inl hreg
      · exact .inr (.inl hdown)
      · exact absurd hend (not_or.mpr hold)
    · exact h.held x (mem_of_mem_erase hx)
  · intro hrun
    rcases hrunning hrun with hrun | hreg
    · refine (h.running _ hrun).imp_right ?_
      rintro ⟨x, hx, hspec⟩
      have hxc : x ≠ c := fun heq ↦ hold.1 (heq ▸ hspec.2)
      exact ⟨x, mem_cons_of_mem _ ((mem_erase_of_ne hxc).mpr hx), hspec⟩
    · exact .inl hreg

theorem updateStatus_fields (r : Runtime) (now : ℤ) (pid : ℕ) :
    (r.updateStatus now pid).key = r.key ∧ (r.updateStatus now pid).activeCalls = r.activeCalls ∧
      (r.updateStatus now pid).closed = r.closed ∧
      (r.updateStatus now pid).running = r.running := by
  rw [Runtime.updateStatus]
  split_ifs <;> exact ⟨rfl, rfl, rfl, rfl⟩

theorem update_fields (st : Manager) (c : Call) (failed : Bool) (now : ℤ) (pid : ℕ)
    (locked : Bool) : ∃ r, st.update c failed now pid locked =
        (st.set c.runtime r).advance c (if failed && c.kotlin then .failing else .answered) ∧
      r.key = (st.runtime c.runtime).key ∧
      r.activeCalls = (st.runtime c.runtime).activeCalls ∧
      r.closed = (st.runtime c.runtime).closed ∧ r.running = (st.runtime c.runtime).running := by
  refine ⟨_, rfl, ?_⟩
  split_ifs
  · exact updateStatus_fields ..
  · exact ⟨rfl, rfl, rfl, rfl⟩

theorem registered_drop (h : Inv st)
    (hkey : Registered st c.runtime → (st.runtime c.runtime).key = c.rk) {i : ℕ} :
    Registered (st.drop c) i ↔ Registered st i ∧ i ≠ c.runtime := by
  dsimp only [Registered, Manager.drop]
  split_ifs with hown
  · have hmem := mem_of_lookup hown
    exact registered_evict h hmem
  · refine (and_iff_left_of_imp ?_).symm
    rintro hreg rfl
    obtain ⟨pair, hpair, heq⟩ := mem_map.mp hreg
    refine hown ?_
    rw [← hkey hreg, ← heq, (h.registered pair hpair).1]
    exact lookup_of_mem h.keys hpair

theorem drop_sublist (st : Manager) (c : Call) : (st.drop c).runtimes.Sublist st.runtimes := by
  dsimp only [Manager.drop]
  split_ifs
  · exact filter_sublist
  · exact .refl _

section

variable (h : Inv st) (hc : c ∈ st.calls)
include h hc

theorem inv_drop (hphase : c.phase = .failing)
    (hkey : Registered st c.runtime → (st.runtime c.runtime).key = c.rk)
    (hsole : Registered st c.runtime → (st.runtime c.runtime).activeCalls = 1) :
    Inv (st.drop c) := by
  have hreg {i : ℕ} : i ∈ (st.drop c).runtimes.map snd ↔ Registered st i ∧ i ≠ c.runtime :=
    registered_drop h hkey
  have hsame : st.drop c = { st.set c.runtime (st.runtime c.runtime) with
      runtimes := (st.drop c).runtimes
      calls := [{ c with phase := .dropped }] ++ st.calls.erase c } := by
    rw [Manager.set, update_eq_self]
    rfl
  rw [hsame]
  refine inv_call h hc (by simp) (drop_sublist st c) (fun i hi hne ↦ hreg.mpr ⟨hi, hne⟩)
    (fun _ ↦ ⟨rfl, rfl⟩) rfl ?_ (fun _ _ _ hi ↦ (hreg.mp hi).2 rfl)
    fun _ ↦ .inr ⟨_, mem_cons_self, rfl, rfl⟩
  intro x hx heq
  rcases mem_cons.mp hx with rfl | hx
  · rcases h.held c hc with hreg | hdown | ⟨-, hend⟩
    · exact .inr (.inr ⟨hsole hreg, .inl rfl⟩)
    · exact .inr (.inl hdown)
    · rw [hphase] at hend
      rcases hend with hend | hend <;> cases hend
  · rcases h.held x (mem_of_mem_erase hx) with hreg | hrest
    · rw [heq] at hreg
      exact absurd heq (runtime_ne_of_sole h hc (hsole hreg) x hx)
    · exact .inr (heq ▸ hrest)

theorem inv_close (hphase : c.phase = .dropped) : Inv (st.close c) := by
  have hunregistered := h.dropped c hc hphase
  refine @inv_call _ _ h hc (st.runtime c.runtime).close _ [{ c with phase := .spent }] (by simp)
    (.refl _) (fun _ hi _ ↦ hi) (fun hreg ↦ absurd hreg hunregistered) rfl ?_ (by simp) nofun
  intro x hx heq
  rcases mem_cons.mp hx with rfl | hx
  · rcases h.held c hc with hreg | hdown | ⟨hsole, -⟩
    · exact absurd hreg hunregistered
    · exact .inr (.inl ⟨hdown.1, rfl⟩)
    · exact .inr (.inr ⟨hsole, .inr rfl⟩)
  · have hheld := h.held x (mem_of_mem_erase hx)
    rw [heq] at hheld
    exact hheld.imp_right (Or.imp_left fun hdown ↦ ⟨hdown.1, rfl⟩)

theorem inv_release (hphase : c.phase = .spent ∨ c.phase = .answered) :
    Inv (st.releaseRuntime c) := by
  have hpos : (st.runtime c.runtime).activeCalls ≠ 0 := fun hidle ↦ h.no_call hidle c hc rfl
  refine @inv_call _ _ h hc { st.runtime c.runtime with activeCalls := _ } _ [] (by simp) (.refl _)
    (fun _ hi _ ↦ hi) (fun _ ↦ ⟨rfl, rfl⟩) (Nat.sub_add_cancel (Nat.pos_of_ne_zero hpos)) ?_
    (by simp) ?_
  · intro x hx heq
    rcases heq ▸ h.held x (mem_of_mem_erase hx) with hreg | hdown | ⟨hsole, -⟩
    · exact .inl hreg
    · exact .inr (.inl hdown)
    · exact absurd heq (runtime_ne_of_sole h hc hsole x hx)
  · intro hrun
    refine (h.running _ hrun).imp_right ?_
    rintro ⟨x, hx, hspec⟩
    have hxc : x ≠ c := by
      rintro rfl
      rw [hspec.2] at hphase
      rcases hphase with hphase | hphase <;> cases hphase
    exact ⟨x, (mem_erase_of_ne hxc).mpr hx, hspec⟩

end

end Calls

section Shutdown

variable {st : Manager}

theorem inv_stage (h : Inv st) (hup : st.stage ≠ .down) {stage : Stage} (hstage : stage ≠ .down) :
    Inv { st with stage } :=
  { h with
    held := by
      intro c hc
      rcases h.held c hc with hreg | hdown | hend
      · exact .inl hreg
      · exact absurd hdown.1 hup
      · exact .inr (.inr hend)
    down := fun hdown ↦ absurd hdown hstage }

theorem close_close (r : Runtime) : r.close.close = r.close := rfl

theorem foldl_evict (l : List (String × ℕ)) :
    l.foldl Manager.evict st = { st with
      runtimes := st.runtimes.filter fun pair ↦ pair.1 ∉ l.map fst
      runtime := fun i ↦
        if i ∈ l.map snd then (st.runtime i).close else st.runtime i } := by
  induction l generalizing st with
  | nil => simp
  | cons pair l ih =>
    rw [foldl_cons, ih]
    dsimp only [Manager.evict, Manager.set]
    congr 1
    · rw [filter_filter]
      refine filter_congr fun p _ ↦ ?_
      rw [Bool.eq_iff_iff]
      simp only [Bool.and_eq_true, decide_eq_true_eq, map_cons, mem_cons, not_or]
      exact and_comm
    · funext i
      rw [update_apply, map_cons]
      by_cases hi : i = pair.2
      · simp [hi, close_close]
      · rw [if_neg hi]
        exact if_congr (by simp [hi]) rfl rfl

theorem inv_down (h : Inv st) (hup : st.stage ≠ .down) :
    Inv { st.runtimes.foldl Manager.evict st with stage := .down } := by
  have hempty : (st.runtimes.filter fun pair ↦ pair.1 ∉ st.runtimes.map fst) = [] := by
    refine filter_eq_nil_iff.mpr fun pair hpair ↦ ?_
    simpa using ⟨pair.2, hpair⟩
  rw [foldl_evict, hempty]
  exact {
    keys := nodup_nil
    registered := by
      intro pair hpair
      cases hpair
    active := by
      intro i
      refine Eq.trans ?_ (h.active i)
      dsimp only
      split_ifs <;> rfl
    calls := h.calls
    held := by
      intro c hc
      dsimp only
      rcases h.held c hc with hreg | hdown | hend
      · have hmem : c.runtime ∈ st.runtimes.map snd := hreg
        rw [if_pos hmem]
        exact .inr (.inl ⟨rfl, rfl⟩)
      · exact absurd hdown.1 hup
      · refine .inr (.inr ⟨?_, hend.2⟩)
        split_ifs
        · exact hend.1
        · exact hend.1
    dropped := by
      intro c hc _ hreg
      cases hreg
    running := by
      intro i hi
      dsimp only at hi
      split_ifs at hi with hreg
      · cases hi
      · exact .inr ((h.running i hi).resolve_left hreg)
    down := fun _ ↦ rfl }

end Shutdown

end MiLsp.Pool
