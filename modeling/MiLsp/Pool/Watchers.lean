import MiLsp.Library.Entries
import MiLsp.Pool.Model

namespace MiLsp.Pool

open Library.Entries List Manager

section Watchers

variable {st st' : Manager}

def Stage.registers : Stage → Bool
  | .draining _ | .down => false
  | _ => true

structure Watching (st : Manager) : Prop where
  keys : (st.watchers.map Prod.fst).Nodup
  opened : ∀ w ∈ st.opened, w ∈ st.watchers.map Prod.snd ∨ w ∈ st.stopping ∨
    ∃ t ∈ st.ensures, t.watcher = some w
  drained : st.stage.registers = false → st.watchers = []

theorem watching_empty : Watching {} := by
  constructor <;> simp

theorem watching_evictWatcher (h : Watching st) : Watching st.evictWatcher := by
  rw [evictWatcher]
  split
  next => exact h
  next victim rest _ =>
    dsimp only
    split
    next => exact { h with }
    next w hw =>
      have hmem := mem_of_lookup hw
      exact {
        keys := h.keys.sublist (filter_sublist.map _)
        opened := by
          intro w' hw'
          rcases h.opened w' hw' with hreg | hstop | hens
          · obtain ⟨pair, hpair, rfl⟩ := mem_map.mp hreg
            by_cases hkey : pair.1 = victim
            · have heq := inj_on_of_nodup_map h.keys hpair hmem hkey
              rw [heq]
              exact .inr (.inl mem_cons_self)
            · exact .inl (mem_map_of_mem (mem_filter.mpr ⟨hpair, by simpa using hkey⟩))
          · exact .inr (.inl (mem_cons_of_mem _ hstop))
          · exact .inr (.inr hens)
        drained := by
          intro hstage
          have hnil := h.drained hstage
          rw [hnil] at hmem
          cases hmem }

theorem watching_makeRoom (h : Watching st) (cfg : Config) : Watching (st.makeRoom cfg) := by
  rw [makeRoom]
  split_ifs
  · exact watching_evictWatcher h
  · exact h

variable (cfg : Config)

theorem makeRoom_frame (st : Manager) : st.makeRoom cfg = { st with
      watchers := (st.makeRoom cfg).watchers
      watcherRoots := (st.makeRoom cfg).watcherRoots
      stopping := (st.makeRoom cfg).stopping } := by
  unfold makeRoom evictWatcher
  dsimp only
  split_ifs
  · split
    next => rfl
    next => split <;> rfl
  · rfl

theorem makeRoom_ensures (ensures : List Ensure) :
    makeRoom cfg { st with ensures } = { st.makeRoom cfg with ensures } := by
  unfold makeRoom evictWatcher
  dsimp only
  split_ifs
  · split
    next => rfl
    next => split <;> rfl
  · rfl

theorem makeRoom_sublist : (st.makeRoom cfg).watchers.Sublist st.watchers := by
  unfold makeRoom evictWatcher
  dsimp only
  split_ifs
  · split
    next => exact .refl _
    next =>
      split
      next => exact .refl _
      next => exact filter_sublist
  · exact .refl _

theorem watching_ensure (h : Watching st) (cfg : Config) (key : String) :
    Watching (st.ensureFileWatcher cfg key) := by
  rw [ensureFileWatcher]
  split_ifs
  · exact { h with }
  · have hroom := watching_makeRoom h cfg
    exact { hroom with
      opened := by
        intro w hw
        refine (hroom.opened w hw).imp_right (Or.imp_right ?_)
        rintro ⟨t, ht, hspec⟩
        exact ⟨t, mem_cons_of_mem _ ht, hspec⟩ }

theorem ensures_erase {ensures : List Ensure} {t : Ensure} {w : ℕ}
    (h : ∃ t' ∈ ensures, t'.watcher = some w) :
    t.watcher = some w ∨ ∃ t' ∈ ensures.erase t, t'.watcher = some w := by
  obtain ⟨t', ht', hspec⟩ := h
  rcases eq_or_ne t' t with rfl | hne
  · exact .inl hspec
  · exact .inr ⟨t', (mem_erase_of_ne hne).mpr ht', hspec⟩

section

variable (h : Watching st)
include h

theorem watching_start {t : Ensure} (ht : t.watcher = none) (started : Bool) :
    Watching (st.startWatcher t started) := by
  have hrest {w : ℕ} (hw : ∃ t' ∈ st.ensures, t'.watcher = some w) :
      ∃ t' ∈ st.ensures.erase t, t'.watcher = some w := by
    refine (ensures_erase hw).resolve_left ?_
    rw [ht]
    exact nofun
  rw [startWatcher]
  split_ifs
  · exact { h with
      opened := by
        intro w hw
        rcases mem_cons.mp hw with rfl | hw
        · exact .inr (.inr ⟨_, mem_cons_self, rfl⟩)
        · refine (h.opened w hw).imp_right (Or.imp_right fun hens ↦ ?_)
          obtain ⟨t', ht', hspec⟩ := hrest hens
          exact ⟨t', mem_cons_of_mem _ ht', hspec⟩ }
  · exact { h with
      opened := by
        intro w hw
        rcases mem_cons.mp hw with rfl | hw
        · exact .inr (.inl mem_cons_self)
        · exact (h.opened w hw).imp_right (Or.imp (mem_cons_of_mem _) hrest) }

theorem watching_giveUp (t : Ensure) : Watching (st.giveUpWatcher t) :=
  { h with
    opened := by
      intro w hw
      rcases h.opened w hw with hreg | hstop | hens
      · exact .inl hreg
      · exact .inr (.inl (mem_append_right _ hstop))
      · rcases @ensures_erase _ t _ hens with hown | hens
        · refine .inr (.inl (mem_append_left _ ?_))
          rw [hown]
          exact mem_singleton_self w
        · exact .inr (.inr hens) }

theorem watching_register (cfg : Config) {t : Ensure} {w : ℕ} (ht : t.watcher = some w)
    (hstage : st.stage.registers = true) : Watching (st.registerWatcher cfg t w) := by
  rw [registerWatcher]
  dsimp only
  split_ifs with hthere
  · exact { h with
      opened := by
        intro w' hw'
        rcases h.opened w' hw' with hreg | hstop | hens
        · exact .inl hreg
        · exact .inr (.inl (mem_cons_of_mem _ hstop))
        · rcases @ensures_erase _ t _ hens with hown | hens
          · cases ht.symm.trans hown
            exact .inr (.inl mem_cons_self)
          · exact .inr (.inr hens) }
  · have hroom := watching_makeRoom h cfg
    have hnew : ∀ pair ∈ (st.makeRoom cfg).watchers, pair.1 ≠ t.key := by
      intro pair hpair
      rw [Option.not_isSome_iff_eq_none] at hthere
      exact ne_of_lookup hthere pair ((makeRoom_sublist cfg).subset hpair)
    have hensures : (st.makeRoom cfg).ensures = st.ensures := by rw [makeRoom_frame]
    have hup : (st.makeRoom cfg).stage = st.stage := by rw [makeRoom_frame]
    rw [makeRoom_ensures]
    exact {
      keys := nodup_keys_cons hnew hroom.keys
      opened := by
        intro w' hw'
        rcases hroom.opened w' hw' with hreg | hstop | hens
        · exact .inl (mem_cons_of_mem _ hreg)
        · exact .inr (.inl hstop)
        · rw [hensures] at hens
          rcases @ensures_erase _ t _ hens with hown | hens
          · cases ht.symm.trans hown
            exact .inl mem_cons_self
          · exact .inr (.inr hens)
      drained := by
        intro hdown
        rw [hup, hstage] at hdown
        cases hdown }

theorem watching_stop (w : ℕ) : Watching (st.stopWatcher w) :=
  { h with
    opened := by
      intro w' hw'
      obtain ⟨hw', hne⟩ := mem_filter.mp hw'
      rw [decide_eq_true_eq] at hne
      exact (h.opened w' hw').imp_right (Or.imp_left (mem_erase_of_ne hne).mpr) }

theorem watching_stopWatchers : Watching st.stopWatchers where
  keys := nodup_nil
  opened := by
    intro w hw
    rcases h.opened w hw with hreg | hstop | hens
    · exact .inr (.inl (mem_append_left _ hreg))
    · exact .inr (.inl (mem_append_right _ hstop))
    · exact .inr (.inr hens)
  drained := fun _ ↦ rfl

end

end Watchers

end MiLsp.Pool
