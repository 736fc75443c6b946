import MiLsp.Library.Entries
import MiLsp.Library.Traces
import MiLsp.Snapshots.Model

namespace MiLsp.Snapshots

open Library Traces Entries List Function Option Cache

section Counts

variable {flight : ℕ → Flight} {callers : List Caller} {e f : ℕ} {x : Flight}

def holders (callers : List Caller) (e : ℕ) : ℕ := callers.count (.holding e)

def waitersOf (callers : List Caller) (f : ℕ) : ℕ := callers.count (.waiting f)

def countsFor (flight : ℕ → Flight) (e : ℕ) : Caller → Bool
  | .waiting f => (flight f).entry = some e
  | .holding _ => false

def counted (flight : ℕ → Flight) (callers : List Caller) (e : ℕ) : ℕ :=
  callers.countP (countsFor flight e)

theorem counted_congr {flight' : ℕ → Flight} (h : ∀ f, (flight' f).entry = (flight f).entry) :
    counted flight' callers e = counted flight callers e := by
  have hcounts : countsFor flight' e = countsFor flight e := by
    funext c
    cases c with
    | waiting f => simp only [countsFor, h]
    | holding _ => rfl
  rw [counted, counted, hcounts]

theorem update_entry (h : x.entry = (flight f).entry) (g : ℕ) :
    (update flight f x g).entry = (flight g).entry :=
  update_field Flight.entry h g

theorem counted_update_same (x : Flight) (h : x.entry = (flight f).entry) :
    counted (update flight f x) callers e = counted flight callers e :=
  counted_congr (update_entry h)

@[simp]
theorem holders_holding (e' : ℕ) :
    holders (.holding e' :: callers) e = holders callers e + if e' = e then 1 else 0 := by
  simp [holders, count_cons]

@[simp]
theorem holders_waiting (f : ℕ) : holders (.waiting f :: callers) e = holders callers e := by
  simp [holders]

@[simp]
theorem waitersOf_waiting (f' : ℕ) :
    waitersOf (.waiting f' :: callers) f = waitersOf callers f + if f' = f then 1 else 0 := by
  simp [waitersOf, count_cons]

@[simp]
theorem waitersOf_holding (e : ℕ) : waitersOf (.holding e :: callers) f = waitersOf callers f := by
  simp [waitersOf]

@[simp]
theorem counted_waiting (f : ℕ) :
    counted flight (.waiting f :: callers) e =
      counted flight callers e + if (flight f).entry = some e then 1 else 0 := by
  simp [counted, countP_cons, countsFor]

@[simp]
theorem counted_holding (e' : ℕ) :
    counted flight (.holding e' :: callers) e = counted flight callers e := by
  simp [counted, countsFor]

section

variable {callers' : List Caller} (h : callers.Perm callers')
include h

theorem holders_perm (e : ℕ) : holders callers e = holders callers' e :=
  h.count_eq _

theorem waitersOf_perm (f : ℕ) : waitersOf callers f = waitersOf callers' f :=
  h.count_eq _

theorem counted_perm (e : ℕ) : counted flight callers e = counted flight callers' e :=
  h.countP_eq _

end

theorem waitersOf_erase (hf : .waiting f ∈ callers) (g : ℕ) :
    waitersOf callers g = waitersOf (callers.erase (.waiting f)) g + if f = g then 1 else 0 := by
  rw [waitersOf_perm (perm_cons_erase hf), waitersOf_waiting]

theorem holders_erase_waiting (hf : .waiting f ∈ callers) (e : ℕ) :
    holders callers e = holders (callers.erase (.waiting f)) e := by
  rw [holders_perm (perm_cons_erase hf), holders_waiting]

theorem counted_erase_waiting (hf : .waiting f ∈ callers) (flight : ℕ → Flight) (e : ℕ) :
    counted flight callers e =
      counted flight (callers.erase (.waiting f)) e +
        if (flight f).entry = some e then 1 else 0 := by
  rw [counted_perm (perm_cons_erase hf), counted_waiting]

theorem counted_update {e : ℕ} (hx : x.entry = some e) (hfresh : ∀ g, (flight g).entry ≠ some e) :
    counted (update flight f x) callers e = waitersOf callers f := by
  refine countP_congr fun c _ ↦ ?_
  cases c with
  | waiting g =>
    simp only [countsFor, update_apply, decide_eq_true_eq, beq_iff_eq, Caller.waiting.injEq]
    split_ifs with hg
    · simp [hg, hx]
    · simp [hg, hfresh g]
  | holding _ => simp [countsFor]

theorem counted_update_ne {e e' : ℕ} (hnone : (flight f).entry = none) (hx : x.entry = some e)
    (hne : e' ≠ e) : counted (update flight f x) callers e' = counted flight callers e' := by
  refine countP_congr fun c _ ↦ ?_
  cases c with
  | waiting g =>
    simp only [countsFor, update_apply]
    split_ifs with hg
    · simp [hg, hx, hnone, Ne.symm hne]
    · rfl
  | holding _ => simp [countsFor]

end Counts

/-- The entry is taken out, its database is closed, or it was never there. -/
def Dead (st : Cache) (e : ℕ) : Prop :=
  e ∈ st.closing ∨ (st.entry e).closed = 1 ∨ st.nextEntry ≤ e

structure Inv (st : Cache) : Prop where
  entries_nodup : (st.entries.map Prod.fst).Nodup
  flights_nodup : (st.flights.map Prod.fst).Nodup
  entries : ∀ pair ∈ st.entries, (st.entry pair.2).key = pair.1 ∧ pair.2 < st.nextEntry ∧
    pair.2 ∉ st.closing ∧ (st.entry pair.2).closed = 0
  flights : ∀ pair ∈ st.flights, (st.flight pair.2).key = pair.1 ∧
    (st.flight pair.2).cancelled = false ∧ pair.2 ∈ st.builds
  apart : ∀ pair ∈ st.entries, ∀ pair' ∈ st.flights, pair.1 ≠ pair'.1
  builds_nodup : st.builds.Nodup
  builds : ∀ f ∈ st.builds, f < st.nextFlight ∧ (st.flight f).completed = false ∧
    ((st.flight f).cancelled = false → ((st.flight f).key, f) ∈ st.flights)
  brought : ∀ f e, (st.flight f).entry = some e → (st.flight f).completed = true ∧ e < st.nextEntry
  fresh : ∀ f, st.nextFlight ≤ f → st.flight f = {}
  waiters : ∀ f, (st.flight f).waiters = waitersOf st.callers f
  inUse : ∀ e, (st.entry e).inUse = holders st.callers e + counted st.flight st.callers e
  closing_nodup : st.closing.Nodup
  closing : ∀ e ∈ st.closing, (st.entry e).closed = 0 ∧ e < st.nextEntry
  closed : ∀ e, (st.entry e).closed ≤ 1
  dead : ∀ e, Dead st e → (st.entry e).inUse = 0

theorem inv_empty : Inv empty := by
  constructor <;> simp [empty, waitersOf, holders, counted]

section Prune

variable {st : Cache}

theorem oldestIdle_eq_some {e : ℕ} (h : st.oldestIdle = some e) :
    (∃ k, (k, e) ∈ st.entries) ∧ (st.entry e).inUse = 0 := by
  revert h
  refine foldlRecOn (motive := fun oldest ↦ oldest = some e →
    (∃ k, (k, e) ∈ st.entries) ∧ (st.entry e).inUse = 0) st.entries _ (by simp) ?_
  intro oldest holdest pair hpair he
  dsimp only at he
  split_ifs at he with hidle
  · cases he
    simp only [Bool.and_eq_true, decide_eq_true_eq] at hidle
    exact ⟨⟨pair.1, hpair⟩, hidle.1⟩
  · exact holdest he

theorem Inv.of_entry (h : Inv st) {e nextEntry : ℕ} {x : Entry} {entries : List (String × ℕ)}
    {closing : List ℕ} (hnodup : (entries.map Prod.fst).Nodup)
    (hentries : ∀ pair ∈ entries, pair ∈ st.entries ∧ pair.2 ≠ e) (he : e < nextEntry)
    (hnext : st.nextEntry ≤ nextEntry) (hidle : (st.entry e).inUse = 0) (hinUse : x.inUse = 0)
    (hclosed : x.closed ≤ 1) (hown : e ∈ closing → x.closed = 0) (hclosings : closing.Nodup)
    (hclosing : ∀ e', e' ≠ e → (e' ∈ closing ↔ e' ∈ st.closing)) :
    Inv { st.setEntry e x with entries, closing, nextEntry } := by
  have hsame {e' : ℕ} (hne : e' ≠ e) : update st.entry e x e' = st.entry e' :=
    update_of_ne hne ..
  exact { h with
    entries_nodup := hnodup
    entries := by
      intro pair hpair
      obtain ⟨hmem, hne⟩ := hentries pair hpair
      obtain ⟨hkey, hlt, hout, hopen⟩ := h.entries pair hmem
      dsimp only [setEntry]
      rw [hsame hne, hclosing _ hne]
      exact ⟨hkey, Nat.lt_of_lt_of_le hlt hnext, hout, hopen⟩
    apart := fun pair hpair ↦ h.apart pair (hentries pair hpair).1
    brought := fun f e he ↦ (h.brought f e he).imp_right (Nat.lt_of_lt_of_le · hnext)
    inUse := fun e' ↦
      (update_field Entry.inUse (hinUse.trans hidle.symm) e').trans (h.inUse e')
    closing_nodup := hclosings
    closing := by
      intro e' hmem
      dsimp only [setEntry]
      rcases eq_or_ne e' e with rfl | hne
      · rw [update_self]
        exact ⟨hown hmem, he⟩
      · rw [hsame hne]
        exact (h.closing e' ((hclosing e' hne).mp hmem)).imp_right (Nat.lt_of_lt_of_le · hnext)
    closed := by
      intro e'
      dsimp only [setEntry]
      rcases eq_or_ne e' e with rfl | hne
      · rwa [update_self]
      · rw [hsame hne]
        exact h.closed e'
    dead := by
      intro e' hdead
      dsimp only [Dead, setEntry] at hdead ⊢
      rcases eq_or_ne e' e with rfl | hne
      · rwa [update_self]
      · rw [hsame hne] at hdead ⊢
        rw [hclosing e' hne] at hdead
        exact h.dead e' (hdead.imp_right (Or.imp_right (Nat.le_trans hnext))) }

theorem inv_evict (h : Inv st) {k : String} {e : ℕ} (he : (k, e) ∈ st.entries)
    (hidle : (st.entry e).inUse = 0) :
    Inv { st with
      entries := st.entries.filter (·.1 ≠ (st.entry e).key)
      closing := e :: st.closing } := by
  obtain ⟨-, hlt, hclosing, hclosed⟩ := h.entries (k, e) he
  have hevict := @Inv.of_entry _ h e st.nextEntry (st.entry e)
    (st.entries.filter (·.1 ≠ (st.entry e).key)) (e :: st.closing)
    (h.entries_nodup.sublist (filter_sublist.map _)) ?_ hlt (Nat.le_refl _) hidle hidle (h.closed e)
    (fun _ ↦ hclosed) (nodup_cons.mpr ⟨hclosing, h.closing_nodup⟩)
    (fun e' hne ↦ by rw [mem_cons, or_iff_right hne])
  · rwa [setEntry, update_eq_self] at hevict
  · intro pair hpair
    obtain ⟨hmem, hne⟩ := mem_filter.mp hpair
    refine ⟨hmem, ?_⟩
    rintro rfl
    simp [(h.entries pair hmem).1] at hne

theorem inv_pruneLoop (fuel : ℕ) (h : Inv st) : Inv (pruneLoop fuel st) := by
  induction fuel generalizing st with
  | zero => exact h
  | succ fuel ih =>
    rw [pruneLoop]
    split_ifs
    · exact h
    · split
      · exact h
      next e he =>
        obtain ⟨⟨k, hk⟩, hidle⟩ := oldestIdle_eq_some he
        exact ih (inv_evict h hk hidle)

theorem inv_prune (h : Inv st) : Inv st.prune := inv_pruneLoop _ h

end Prune

section Steps

variable {st st' : Cache}

theorem Inv.of_counts (h : Inv st) (hentries : st'.entries = st.entries)
    (hflights : st'.flights = st.flights) (hbuilds : st'.builds = st.builds)
    (hclosing : st'.closing = st.closing) (hnextEntry : st'.nextEntry = st.nextEntry)
    (hnextFlight : st'.nextFlight = st.nextFlight)
    (hentry : ∀ e, (st'.entry e).key = (st.entry e).key ∧
      (st'.entry e).closed = (st.entry e).closed)
    (hflight : ∀ f, (st'.flight f).key = (st.flight f).key ∧
      (st'.flight f).cancelled = (st.flight f).cancelled ∧
      (st'.flight f).completed = (st.flight f).completed ∧
      (st'.flight f).entry = (st.flight f).entry)
    (hfresh : ∀ f, st.nextFlight ≤ f → st'.flight f = {})
    (hwaiters : ∀ f, (st'.flight f).waiters = waitersOf st'.callers f)
    (hinUse : ∀ e, (st'.entry e).inUse =
      holders st'.callers e + counted st'.flight st'.callers e)
    (hdead : ∀ e, Dead st e → (st'.entry e).inUse = 0) : Inv st' where
  entries_nodup := hentries ▸ h.entries_nodup
  flights_nodup := hflights ▸ h.flights_nodup
  entries := by
    rw [hentries, hclosing, hnextEntry]
    intro pair hpair
    rw [(hentry _).1, (hentry _).2]
    exact h.entries pair hpair
  flights := by
    rw [hflights, hbuilds]
    intro pair hpair
    rw [(hflight _).1, (hflight _).2.1]
    exact h.flights pair hpair
  apart := by
    rw [hentries, hflights]
    exact h.apart
  builds_nodup := hbuilds ▸ h.builds_nodup
  builds := by
    rw [hflights, hbuilds, hnextFlight]
    intro f hf
    rw [(hflight f).1, (hflight f).2.1, (hflight f).2.2.1]
    exact h.builds f hf
  brought := by
    intro f e he
    rw [(hflight f).2.2.2] at he
    rw [(hflight f).2.2.1, hnextEntry]
    exact h.brought f e he
  fresh := hnextFlight ▸ hfresh
  waiters := hwaiters
  inUse := hinUse
  closing_nodup := hclosing ▸ h.closing_nodup
  closing := by
    rw [hclosing, hnextEntry]
    intro e he
    rw [(hentry e).2]
    exact h.closing e he
  closed := fun e ↦ (hentry e).2 ▸ h.closed e
  dead := by
    intro e he
    refine hdead e ?_
    rw [Dead, hclosing, hnextEntry, (hentry e).2] at he
    exact he

theorem alive_of_mem (h : Inv st) {k : String} {e : ℕ} (he : (k, e) ∈ st.entries) :
    ¬ Dead st e := by
  obtain ⟨-, hlt, hclosing, hclosed⟩ := h.entries (k, e) he
  rintro (hmem | hone | hle)
  · exact hclosing hmem
  · rw [hclosed] at hone
    cases hone
  · exact absurd hlt (Nat.not_lt.mpr hle)

theorem flight_open (h : Inv st) {f : ℕ} (hf : f ∈ st.builds) : (st.flight f).entry = none := by
  obtain ⟨-, hcompleted, -⟩ := h.builds f hf
  cases hentry : (st.flight f).entry with
  | none => rfl
  | some e =>
    rw [(h.brought f e hentry).1] at hcompleted
    cases hcompleted

theorem waiters_setFlight {f : ℕ} {x : Flight} {callers : List Caller} (h : Inv st)
    (hf : x.waiters = waitersOf callers f)
    (hne : ∀ g, g ≠ f → waitersOf callers g = waitersOf st.callers g) (g : ℕ) :
    (update st.flight f x g).waiters = waitersOf callers g := by
  rw [update_apply]
  split_ifs with hg
  · rw [hg, hf]
  · rw [h.waiters g, hne g hg]

theorem setEntry_same (entry : ℕ → Entry) (e : ℕ) (x : Entry) (hkey : x.key = (entry e).key)
    (hclosed : x.closed = (entry e).closed) (e' : ℕ) :
    (update entry e x e').key = (entry e').key ∧
      (update entry e x e').closed = (entry e').closed :=
  ⟨update_field Entry.key hkey e', update_field Entry.closed hclosed e'⟩

theorem inv_hit (h : Inv st) {k : String} {e : ℕ} (he : (k, e) ∈ st.entries) (now : ℤ) :
    Inv { st.setEntry e { st.entry e with
            inUse := (st.entry e).inUse + 1
            lastUsed := now } with
          callers := .holding e :: st.callers } := by
  have hupdate (e' : ℕ) (x : Entry) :
      update st.entry e x e' = if e' = e then x else st.entry e' :=
    update_apply ..
  refine h.of_counts rfl rfl rfl rfl rfl rfl (setEntry_same st.entry e _ rfl rfl)
    (fun f ↦ ⟨rfl, rfl, rfl, rfl⟩) h.fresh ?_ ?_ ?_
  · intro f
    change (st.flight f).waiters = waitersOf (.holding e :: st.callers) f
    rw [h.waiters f, waitersOf_holding]
  · intro e'
    dsimp only [setEntry]
    rw [hupdate]
    rw [holders_holding, counted_holding]
    have huse := h.inUse e'
    rcases eq_or_ne e' e with rfl | hne
    · rw [if_pos rfl, if_pos rfl]
      dsimp only
      omega
    · rw [if_neg hne, if_neg hne.symm]
      exact huse
  · intro e' hdead
    dsimp only [setEntry]
    rw [hupdate, if_neg]
    · exact h.dead e' hdead
    · rintro rfl
      exact alive_of_mem h he hdead

theorem recount (flight : ℕ → Flight) (f n g : ℕ) :
    let flight' := update flight f { flight f with waiters := n }
    (flight' g).key = (flight g).key ∧ (flight' g).cancelled = (flight g).cancelled ∧
      (flight' g).completed = (flight g).completed ∧ (flight' g).entry = (flight g).entry := by
  dsimp only
  rw [update_apply]
  split_ifs with hg
  · rw [hg]
    exact ⟨rfl, rfl, rfl, rfl⟩
  · exact ⟨rfl, rfl, rfl, rfl⟩

section

variable (h : Inv st)
include h

theorem fresh_setFlight {f : ℕ} (hf : f < st.nextFlight) (x : Flight) :
    ∀ g, st.nextFlight ≤ g → update st.flight f x g = {} := by
  intro g hg
  rw [update_of_ne (by omega)]
  exact h.fresh g hg

theorem waiting_lt {f : ℕ} (hf : .waiting f ∈ st.callers) : f < st.nextFlight := by
  by_contra hle
  have hcount : 0 < waitersOf st.callers f := count_pos_iff.mpr hf
  rw [← h.waiters, h.fresh f (Nat.not_lt.mp hle)] at hcount
  exact absurd hcount (Nat.lt_irrefl 0)

theorem inv_join {k : String} {f : ℕ} (hf : (k, f) ∈ st.flights) :
    Inv { st.setFlight f { st.flight f with waiters := (st.flight f).waiters + 1 } with
          callers := .waiting f :: st.callers } := by
  obtain ⟨-, -, hbuild⟩ := h.flights (k, f) hf
  have hnone := flight_open h hbuild
  refine h.of_counts rfl rfl rfl rfl rfl rfl (fun e ↦ ⟨rfl, rfl⟩) (recount st.flight f _)
    (fresh_setFlight h (h.builds f hbuild).1 _) ?_ ?_ h.dead
  · refine waiters_setFlight h ?_ ?_
    · rw [waitersOf_waiting, if_pos rfl, h.waiters f]
    · intro g hg
      rw [waitersOf_waiting, if_neg hg.symm, Nat.add_zero]
  · intro e
    dsimp only [setFlight]
    rw [holders_waiting, counted_update_same, counted_waiting, hnone, h.inUse e]
    · rfl
    · rfl

theorem inv_depart {key : String} (hentry : st.entries.lookup key = none)
    (hflight : st.flights.lookup key = none) :
    Inv { st.setFlight st.nextFlight { key, waiters := 1 } with
          flights := (key, st.nextFlight) :: st.flights
          nextFlight := st.nextFlight + 1
          callers := .waiting st.nextFlight :: st.callers
          builds := st.nextFlight :: st.builds } := by
  have hfresh := h.fresh st.nextFlight (Nat.le_refl _)
  have hnew : st.nextFlight ∉ st.builds :=
    fun hmem ↦ absurd (h.builds _ hmem).1 (Nat.lt_irrefl _)
  have hnoEntry := ne_of_lookup hentry
  have hwait : waitersOf st.callers st.nextFlight = 0 := by
    rw [← h.waiters, hfresh]
  have hother {f : ℕ} (hf : f ∈ st.builds) (x : Flight) :
      update st.flight st.nextFlight x f = st.flight f := by
    have := (h.builds f hf).1
    exact update_of_ne (by omega) ..
  have hentries : ∀ f x, x.entry = none →
      (update st.flight st.nextFlight x f).entry = (st.flight f).entry := by
    intro f x hx
    exact update_entry (by rw [hx, hfresh]) f
  exact { h with
    flights_nodup := nodup_keys_cons (ne_of_lookup hflight) h.flights_nodup
    flights := by
      intro pair hpair
      rcases mem_cons.mp hpair with rfl | hpair
      · simp [setFlight]
      · obtain ⟨hkey, hcancelled, hbuild⟩ := h.flights pair hpair
        dsimp only [setFlight]
        rw [hother hbuild]
        exact ⟨hkey, hcancelled, mem_cons_of_mem _ hbuild⟩
    apart := by
      intro pair hpair pair' hpair'
      rcases mem_cons.mp hpair' with rfl | hpair'
      · exact hnoEntry pair hpair
      · exact h.apart pair hpair pair' hpair'
    builds_nodup := nodup_cons.mpr ⟨hnew, h.builds_nodup⟩
    builds := by
      intro f hf
      rcases mem_cons.mp hf with rfl | hf
      · simp [setFlight]
      · obtain ⟨hlt, hcompleted, hmem⟩ := h.builds f hf
        dsimp only [setFlight]
        rw [hother hf]
        exact ⟨by omega, hcompleted, fun hc ↦ mem_cons_of_mem _ (hmem hc)⟩
    brought := by
      intro f e he
      dsimp only [setFlight] at he ⊢
      rw [hentries f _ rfl] at he
      obtain ⟨hcompleted, hlt⟩ := h.brought f e he
      rw [update_of_ne]
      · exact ⟨hcompleted, hlt⟩
      · rintro rfl
        rw [hfresh] at he
        cases he
    fresh := by
      intro f hf
      dsimp only [setFlight] at hf ⊢
      rw [update_of_ne (by omega)]
      exact h.fresh f (by omega)
    waiters := by
      refine waiters_setFlight h ?_ ?_
      · rw [waitersOf_waiting, if_pos rfl, hwait]
      · intro g hg
        rw [waitersOf_waiting, if_neg hg.symm, Nat.add_zero]
    inUse := by
      intro e
      dsimp only [setFlight]
      rw [holders_waiting, counted_waiting, counted_update_same _ (by rw [hfresh]), h.inUse e]
      simp }

theorem inv_acquire (key : String) (now : ℤ) : Inv (st.acquire key now) := by
  rw [acquire]
  cases hentry : st.entries.lookup key with
  | some e => exact inv_hit h (mem_of_lookup hentry) now
  | none =>
    cases hflight : st.flights.lookup key with
    | some f => exact inv_join h (mem_of_lookup hflight)
    | none => exact inv_depart h hentry hflight

theorem Inv.of_left {f : ℕ} (hf : .waiting f ∈ st.callers) {entry : ℕ → Entry}
    {callers : List Caller}
    (hentry : ∀ e, (entry e).key = (st.entry e).key ∧ (entry e).closed = (st.entry e).closed)
    (hwaiters : ∀ g, waitersOf callers g = waitersOf (st.callers.erase (.waiting f)) g)
    (hinUse : ∀ e, (entry e).inUse = holders callers e + counted st.flight callers e)
    (hdead : ∀ e, Dead st e → (entry e).inUse = 0) :
    Inv { st.setFlight f { st.flight f with waiters := (st.flight f).waiters - 1 } with
          entry, callers } := by
  have hcount := waitersOf_erase hf
  refine h.of_counts rfl rfl rfl rfl rfl rfl hentry (recount st.flight f _)
    (fresh_setFlight h (waiting_lt h hf) _) ?_ ?_ hdead
  · refine waiters_setFlight h ?_ ?_
    · have := hcount f
      rw [if_pos rfl] at this
      rw [hwaiters f]
      change (st.flight f).waiters - 1 = _
      rw [h.waiters f]
      omega
    · intro g hg
      have := hcount g
      rw [if_neg hg.symm] at this
      rw [hwaiters g]
      omega
  · intro e
    dsimp only [setFlight]
    rw [counted_update_same, hinUse e]
    rfl

end

theorem dead_uncount (h : Inv st) {e : ℕ} {x : Entry} (hx : x.inUse = (st.entry e).inUse - 1)
    (e' : ℕ) (hdead : Dead st e') : (update st.entry e x e').inUse = 0 := by
  have hzero := h.dead e' hdead
  rw [update_apply]
  split_ifs with heq
  · rw [hx, ← heq, hzero]
  · exact hzero

theorem inv_giveUp (h : Inv st) {f e : ℕ} (hf : .waiting f ∈ st.callers)
    (he : (st.flight f).entry = some e) :
    Inv { st.setFlight f { st.flight f with waiters := (st.flight f).waiters - 1 } with
          entry := update st.entry e
            { st.entry e with inUse := (st.entry e).inUse - 1 }
          callers := st.callers.erase (.waiting f) } := by
  refine h.of_left hf (setEntry_same st.entry e _ rfl rfl) (fun g ↦ rfl) ?_ ?_
  · intro e'
    have hcount := counted_erase_waiting hf st.flight e'
    have huse := h.inUse e'
    rw [holders_erase_waiting hf] at huse
    simp only [he, some.injEq] at hcount
    rw [update_apply]
    rcases eq_or_ne e' e with rfl | hne
    · rw [if_pos rfl] at hcount ⊢
      dsimp only
      omega
    · rw [if_neg hne.symm] at hcount
      rw [if_neg hne]
      omega
  · exact dead_uncount h rfl

theorem inv_leave (h : Inv st) {f : ℕ} (hf : .waiting f ∈ st.callers)
    (he : (st.flight f).entry = none) :
    Inv { st.setFlight f { st.flight f with waiters := (st.flight f).waiters - 1 } with
          callers := st.callers.erase (.waiting f) } := by
  refine h.of_left hf (fun e ↦ ⟨rfl, rfl⟩) (fun g ↦ rfl) ?_ h.dead
  intro e
  have hcount := counted_erase_waiting hf st.flight e
  rw [he, if_neg (by simp)] at hcount
  change (st.entry e).inUse = _
  rw [h.inUse e, holders_erase_waiting hf, hcount, Nat.add_zero]

theorem inv_wake (h : Inv st) {f : ℕ} (hf : .waiting f ∈ st.callers) (now : ℤ) :
    Inv (st.wake f now) := by
  have hholders := holders_erase_waiting hf
  have hcounted := counted_erase_waiting hf st.flight
  unfold wake
  dsimp only
  split
  next e hentry =>
    have huse :=
      @update_field _ _ _ _ st.entry e { st.entry e with lastUsed := now } Entry.inUse rfl
    refine h.of_left hf (setEntry_same st.entry e _ rfl rfl) (fun g ↦ waitersOf_holding e) ?_ ?_
    · intro e'
      have hcount := hcounted e'
      simp only [hentry, some.injEq] at hcount
      rw [holders_holding, counted_holding]
      refine (huse e').trans ?_
      rw [h.inUse e', hholders e', hcount]
      dsimp only [setFlight]
      omega
    · intro e' hdead
      exact (huse e').trans (h.dead e' hdead)
  next hentry =>
    exact inv_leave h hf hentry

theorem mem_leave (h : Inv st) {f : ℕ} {pair : String × ℕ} :
    pair ∈ st.leave f ↔ pair ∈ st.flights ∧ pair.2 ≠ f := by
  rw [leave]
  split_ifs with hown
  · rw [mem_filter, decide_eq_true_eq]
    refine and_congr_right fun hpair ↦ not_congr ⟨?_, ?_⟩
    · intro hkey
      have hlookup := lookup_of_mem h.flights_nodup hpair
      rw [hkey, hown] at hlookup
      exact (some.inj hlookup).symm
    · intro hf
      rw [← (h.flights pair hpair).1, hf]
  · refine (and_iff_left_of_imp ?_).symm
    rintro hpair rfl
    refine hown ?_
    rw [(h.flights pair hpair).1]
    exact lookup_of_mem h.flights_nodup hpair

theorem leave_sublist (st : Cache) (f : ℕ) : (st.leave f).Sublist st.flights := by
  rw [leave]
  split_ifs
  · exact filter_sublist
  · exact .refl _

section

variable (h : Inv st)
include h

theorem Inv.of_leave {f : ℕ} {x : Flight} {builds : List ℕ} (hf : f < st.nextFlight)
    (hopen : (st.flight f).entry = none) (hkey : x.key = (st.flight f).key)
    (hwaiters : x.waiters = (st.flight f).waiters) (hentry : x.entry = none)
    (hsub : builds.Sublist st.builds) (hothers : ∀ g ∈ st.builds, g ≠ f → g ∈ builds)
    (hown : f ∈ builds → x.cancelled = true ∧ x.completed = false) :
    Inv { st.setFlight f x with flights := st.leave f, builds } := by
  have hsame {g : ℕ} (hg : g ≠ f) : update st.flight f x g = st.flight g :=
    update_of_ne hg ..
  have hentries := update_entry (hentry.trans hopen.symm)
  exact { h with
    flights_nodup := h.flights_nodup.sublist ((leave_sublist st f).map _)
    flights := by
      intro pair hpair
      obtain ⟨hmem, hne⟩ := (mem_leave h).mp hpair
      obtain ⟨hkey, hcancelled, hbuild⟩ := h.flights pair hmem
      dsimp only [setFlight]
      rw [hsame hne]
      exact ⟨hkey, hcancelled, hothers _ hbuild hne⟩
    apart := fun pair hpair pair' hpair' ↦
      h.apart pair hpair pair' ((mem_leave h).mp hpair').1
    builds_nodup := h.builds_nodup.sublist hsub
    builds := by
      intro g hg
      obtain ⟨hlt, hcompleted, hmem⟩ := h.builds g (hsub.subset hg)
      dsimp only [setFlight]
      rcases eq_or_ne g f with rfl | hne
      · obtain ⟨hcancelled, hcompleted⟩ := hown hg
        rw [update_self]
        refine ⟨hlt, hcompleted, fun hc ↦ ?_⟩
        rw [hcancelled] at hc
        cases hc
      · rw [hsame hne]
        exact ⟨hlt, hcompleted, fun hc ↦ (mem_leave h).mpr ⟨hmem hc, hne⟩⟩
    brought := by
      intro g e he
      dsimp only [setFlight] at he ⊢
      rw [hentries] at he
      have hne : g ≠ f := by
        rintro rfl
        rw [hopen] at he
        cases he
      rw [hsame hne]
      exact h.brought g e he
    fresh := fresh_setFlight h hf x
    waiters := waiters_setFlight h (hwaiters.trans (h.waiters f)) fun _ _ ↦ rfl
    inUse := by
      intro e
      change (st.entry e).inUse = _
      rw [h.inUse e]
      dsimp only [setFlight]
      rw [counted_update_same x (hentry.trans hopen.symm)] }

theorem inv_leaveLast {f : ℕ} (hf : .waiting f ∈ st.callers)
    (hcompleted : (st.flight f).completed = false) (hopen : (st.flight f).entry = none) :
    Inv { st.setFlight f { st.flight f with
            waiters := (st.flight f).waiters - 1
            cancelled := true } with
          flights := st.leave f
          callers := st.callers.erase (.waiting f) } := by
  let left : Cache :=
    { st.setFlight f { st.flight f with waiters := (st.flight f).waiters - 1 } with
      callers := st.callers.erase (.waiting f) }
  have hleft : Inv left := inv_leave h hf hopen
  have hflight : left.flight f = { st.flight f with waiters := (st.flight f).waiters - 1 } :=
    update_self ..
  have hgone : Inv { left.setFlight f { left.flight f with cancelled := true } with
      flights := left.leave f, builds := left.builds } := by
    have hentry : (left.flight f).entry = none := by rw [hflight, hopen]
    refine hleft.of_leave (waiting_lt h hf) hentry rfl rfl hentry (.refl _) (fun _ hg _ ↦ hg) ?_
    intro _
    exact ⟨rfl, by rw [hflight]; exact hcompleted⟩
  have hleave : left.leave f = st.leave f := by
    rw [leave, leave, hflight]
    rfl
  rw [hflight, hleave, setFlight] at hgone
  have hidem : update left.flight f = update st.flight f :=
    funext fun _ ↦ update_idem ..
  rw [hidem] at hgone
  exact hgone

theorem inv_cancelWaiter {f : ℕ} (hf : .waiting f ∈ st.callers) : Inv (st.cancelWaiter f) := by
  unfold cancelWaiter
  dsimp only
  split_ifs with hcompleted hlast
  · split
    next e he => exact inv_prune (inv_giveUp h hf he)
    next he => exact inv_prune (inv_leave h hf he)
  all_goals
    have hopen : (st.flight f).entry = none := by
      cases he : (st.flight f).entry with
      | none => rfl
      | some e => exact absurd (h.brought f e he).1 hcompleted
  · exact inv_prune (inv_leaveLast h hf (by simpa using hcompleted) hopen)
  · exact inv_prune (inv_leave h hf hopen)

theorem inv_land {f : ℕ} (hf : f ∈ st.builds) :
    Inv { st.setFlight f { st.flight f with completed := true } with
          flights := st.leave f
          builds := st.builds.erase f } := by
  have hopen := flight_open h hf
  refine h.of_leave (h.builds f hf).1 hopen rfl rfl hopen erase_sublist ?_ ?_
  · intro g hg hne
    exact (mem_erase_of_ne hne).mpr hg
  · intro hmem
    exact absurd rfl (h.builds_nodup.mem_erase_iff.mp hmem).1

theorem unused_next :
    holders st.callers st.nextEntry = 0 ∧ counted st.flight st.callers st.nextEntry = 0 ∧
      ∀ g, (st.flight g).entry ≠ some st.nextEntry := by
  have hzero := h.dead st.nextEntry (.inr (.inr (Nat.le_refl _)))
  rw [h.inUse] at hzero
  refine ⟨by omega, by omega, fun g hg ↦ ?_⟩
  exact absurd (h.brought g _ hg).2 (Nat.lt_irrefl _)

theorem inv_discard :
    Inv { st.setEntry st.nextEntry {} with
          nextEntry := st.nextEntry + 1
          closing := st.nextEntry :: st.closing } := by
  have hnew : st.nextEntry ∉ st.closing :=
    fun hmem ↦ absurd (h.closing _ hmem).2 (Nat.lt_irrefl _)
  exact h.of_entry h.entries_nodup
    (fun pair hpair ↦ ⟨hpair, Nat.ne_of_lt (h.entries pair hpair).2.1⟩)
    (Nat.lt_succ_self _) (Nat.le_succ _) (h.dead _ (.inr (.inr (Nat.le_refl _)))) rfl
    (Nat.zero_le _)
    (fun _ ↦ rfl) (nodup_cons.mpr ⟨hnew, h.closing_nodup⟩)
    fun e' hne ↦ by rw [mem_cons, or_iff_right hne]

/-- The flight has brought a new entry, which its waiters hold. -/
def deliver (st : Cache) (f : ℕ) (now : ℤ) : Cache :=
  { (st.setEntry st.nextEntry
      { key := (st.flight f).key
        inUse := (st.flight f).waiters
        lastUsed := now }).setFlight f { st.flight f with entry := some st.nextEntry } with
    entries := ((st.flight f).key, st.nextEntry) :: st.entries
    nextEntry := st.nextEntry + 1 }

section Deliver

variable {f : ℕ} {now : ℤ}

omit h in
theorem entry_deliver {e : ℕ} (he : e ≠ st.nextEntry) : (deliver st f now).entry e = st.entry e :=
  update_of_ne he ..

omit h in
theorem flight_deliver {g : ℕ} (hg : g ≠ f) : (deliver st f now).flight g = st.flight g :=
  update_of_ne hg ..

theorem entries_deliver : ∀ pair ∈ (deliver st f now).entries,
    ((deliver st f now).entry pair.2).key = pair.1 ∧ pair.2 < st.nextEntry + 1 ∧
      pair.2 ∉ st.closing ∧ ((deliver st f now).entry pair.2).closed = 0 := by
  intro pair hpair
  rcases mem_cons.mp hpair with rfl | hpair
  · dsimp only [deliver, setEntry, setFlight]
    rw [update_self]
    refine ⟨rfl, Nat.lt_succ_self _, fun hmem ↦ ?_, rfl⟩
    exact absurd (h.closing _ hmem).2 (Nat.lt_irrefl _)
  · obtain ⟨hkey, hlt, hclosing, hclosed⟩ := h.entries pair hpair
    rw [entry_deliver (Nat.ne_of_lt hlt)]
    exact ⟨hkey, Nat.lt_succ_of_lt hlt, hclosing, hclosed⟩

theorem inUse_deliver (hopen : (st.flight f).entry = none) (e : ℕ) :
    ((deliver st f now).entry e).inUse =
      holders st.callers e + counted (deliver st f now).flight st.callers e := by
  obtain ⟨hholders, -, hbrought⟩ := unused_next h
  dsimp only [deliver, setEntry, setFlight]
  rcases eq_or_ne e st.nextEntry with rfl | hne
  · rw [update_self, hholders, counted_update rfl hbrought, Nat.zero_add]
    exact h.waiters f
  · rw [update_of_ne hne, counted_update_ne hopen rfl hne]
    exact h.inUse e

theorem dead_deliver {e : ℕ} (hdead : Dead (deliver st f now) e) :
    ((deliver st f now).entry e).inUse = 0 := by
  dsimp only [Dead, deliver, setEntry, setFlight] at hdead ⊢
  rcases eq_or_ne e st.nextEntry with rfl | hne
  · rw [update_self] at hdead
    rcases hdead with hmem | hclosed | hle
    · exact absurd (h.closing _ hmem).2 (Nat.lt_irrefl _)
    · cases hclosed
    · omega
  · rw [update_of_ne hne] at hdead ⊢
    refine h.dead e (hdead.imp_right (Or.imp_right ?_))
    intro hle
    omega

theorem inv_deliver (hf : f < st.nextFlight) (hcompleted : (st.flight f).completed = true)
    (hopen : (st.flight f).entry = none) (hbuild : f ∉ st.builds)
    (hentries : ∀ pair ∈ st.entries, pair.1 ≠ (st.flight f).key)
    (hflights : ∀ pair ∈ st.flights, pair.1 ≠ (st.flight f).key) : Inv (deliver st f now) := by
  have hother {g : ℕ} (hg : g ∈ st.builds) : (deliver st f now).flight g = st.flight g := by
    refine flight_deliver ?_
    rintro rfl
    exact hbuild hg
  exact { h with
    entries_nodup := nodup_keys_cons hentries h.entries_nodup
    entries := entries_deliver h
    flights := by
      intro pair hpair
      obtain ⟨hkey, hcancelled, hmem⟩ := h.flights pair hpair
      rw [hother hmem]
      exact ⟨hkey, hcancelled, hmem⟩
    apart := by
      intro pair hpair pair' hpair'
      rcases mem_cons.mp hpair with rfl | hpair
      · exact (hflights pair' hpair').symm
      · exact h.apart pair hpair pair' hpair'
    builds := by
      intro g hg
      rw [hother hg]
      exact h.builds g hg
    brought := by
      intro g e he
      rcases eq_or_ne g f with rfl | hne
      · dsimp only [deliver, setEntry, setFlight] at he ⊢
        rw [update_self] at he ⊢
        cases he
        exact ⟨hcompleted, Nat.lt_succ_self _⟩
      · rw [flight_deliver hne] at he ⊢
        obtain ⟨hcompleted, hlt⟩ := h.brought g e he
        exact ⟨hcompleted, Nat.lt_succ_of_lt hlt⟩
    fresh := fresh_setFlight h hf _
    waiters := by
      dsimp only [deliver, setEntry, setFlight]
      exact waiters_setFlight h (h.waiters f) fun _ _ ↦ rfl
    inUse := inUse_deliver h hopen
    closing := by
      intro e he
      obtain ⟨hclosed, hlt⟩ := h.closing e he
      rw [entry_deliver (Nat.ne_of_lt hlt)]
      exact ⟨hclosed, Nat.lt_succ_of_lt hlt⟩
    closed := by
      intro e
      dsimp only [deliver, setEntry, setFlight]
      rw [update_apply]
      split_ifs
      · exact Nat.zero_le 1
      · exact h.closed e
    dead := fun _ ↦ dead_deliver h }

end Deliver

theorem inv_complete {f : ℕ} (hf : f ∈ st.builds) (built : Bool) (now : ℤ) :
    Inv (st.complete f built now) := by
  have hland := inv_land h hf
  unfold complete
  dsimp only
  split_ifs with hkept hbuilt
  · simp only [Bool.and_eq_true, decide_eq_true_eq] at hkept
    obtain ⟨-, hown⟩ := hkept
    have hflight : update st.flight f { st.flight f with completed := true } f =
        { st.flight f with completed := true } :=
      update_self ..
    have hover : f ∉ st.builds.erase f :=
      fun hmem ↦ absurd rfl (h.builds_nodup.mem_erase_iff.mp hmem).1
    have hentries : ∀ pair ∈ st.entries, pair.1 ≠ (st.flight f).key :=
      fun pair hpair ↦ h.apart pair hpair _ (mem_of_lookup hown)
    have hflights : ∀ pair ∈ st.leave f, pair.1 ≠ (st.flight f).key := by
      intro pair hpair heq
      obtain ⟨hpair, hne⟩ := (mem_leave h).mp hpair
      have hlookup := lookup_of_mem h.flights_nodup hpair
      rw [heq, hown] at hlookup
      exact hne (some.inj hlookup).symm
    have hdeliver := @inv_deliver _ hland f now (h.builds f hf).1
    dsimp only [deliver, setFlight, setEntry] at hdeliver
    rw [hflight] at hdeliver
    exact inv_prune (hdeliver rfl (flight_open h hf) hover hentries hflights)
  · exact inv_prune (inv_discard hland)
  · exact inv_prune hland

theorem inv_release {e : ℕ} (he : .holding e ∈ st.callers) (now : ℤ) : Inv (st.release e now) := by
  have hperm := perm_cons_erase he
  unfold release
  refine inv_prune (h.of_counts rfl rfl rfl rfl rfl rfl (setEntry_same st.entry e _ rfl rfl)
    (fun f ↦ ⟨rfl, rfl, rfl, rfl⟩) h.fresh ?_ ?_ ?_)
  · intro f
    refine (h.waiters f).trans ?_
    rw [waitersOf_perm hperm, waitersOf_holding]
  · intro e'
    have huse := h.inUse e'
    rw [holders_perm hperm, counted_perm hperm, holders_holding, counted_holding] at huse
    dsimp only [setEntry]
    rw [update_apply]
    rcases eq_or_ne e' e with rfl | hne
    · rw [if_pos rfl] at huse ⊢
      dsimp only
      omega
    · rw [if_neg hne.symm] at huse
      rw [if_neg hne]
      exact huse
  · exact dead_uncount h rfl

theorem inv_close {e : ℕ} (he : e ∈ st.closing) : Inv (st.close e) := by
  obtain ⟨hopen, hlt⟩ := h.closing e he
  have hidle := h.dead e (.inl he)
  refine h.of_entry h.entries_nodup (fun pair hpair ↦ ⟨hpair, ?_⟩) hlt (Nat.le_refl _) hidle hidle
    (hopen ▸ Nat.le_refl 1) (fun hmem ↦ absurd rfl (h.closing_nodup.mem_erase_iff.mp hmem).1)
    (h.closing_nodup.erase e) fun e' hne ↦ mem_erase_of_ne hne
  rintro rfl
  exact (h.entries pair hpair).2.2.1 he

theorem inv_reorder {entries : List (String × ℕ)} (hperm : entries.Perm st.entries) :
    Inv { st with entries } :=
  { h with
    entries_nodup := (hperm.map _).nodup_iff.mpr h.entries_nodup
    entries := fun pair hpair ↦ h.entries pair (hperm.mem_iff.mp hpair)
    apart := fun pair hpair ↦ h.apart pair (hperm.mem_iff.mp hpair) }

theorem inv_step {a : Action} (hstep : step st a = some st') : Inv st' := by
  cases a with
  | acquire key now =>
    cases hstep
    exact inv_acquire h key now
  | wake f now =>
    obtain ⟨⟨hf, -⟩, hst⟩ := ite_none_right_eq_some.mp hstep
    cases hst
    exact inv_wake h hf now
  | cancel f =>
    obtain ⟨hf, hst⟩ := ite_none_right_eq_some.mp hstep
    cases hst
    exact inv_cancelWaiter h hf
  | complete f built now =>
    obtain ⟨hf, hst⟩ := ite_none_right_eq_some.mp hstep
    cases hst
    exact inv_complete h hf built now
  | release e now =>
    obtain ⟨he, hst⟩ := ite_none_right_eq_some.mp hstep
    cases hst
    exact inv_release h he now
  | close e =>
    obtain ⟨he, hst⟩ := ite_none_right_eq_some.mp hstep
    cases hst
    exact inv_close h he
  | reorder entries =>
    obtain ⟨hperm, hst⟩ := ite_none_right_eq_some.mp hstep
    cases hst
    exact inv_reorder h hperm

end

end Steps

structure Safe (st : Cache) : Prop where
  builds_nodup : st.builds.Nodup
  /-- Of the builds that were not cancelled, at most one is running for a key. -/
  builds : ∀ f ∈ st.builds, ∀ g ∈ st.builds, (st.flight f).cancelled = false →
    (st.flight g).cancelled = false → (st.flight f).key = (st.flight g).key → f = g
  entries : (st.entries.map Prod.fst).Nodup
  inUse : ∀ e, (st.entry e).inUse = holders st.callers e + counted st.flight st.callers e
  closed : ∀ e, (st.entry e).closed ≤ 1
  held : ∀ e, 0 < holders st.callers e → (st.entry e).closed = 0

theorem Inv.safe {st : Cache} (h : Inv st) : Safe st where
  builds_nodup := h.builds_nodup
  builds := by
    intro f hf g hg hcf hcg hkey
    have hfmem := (h.builds f hf).2.2 hcf
    have hgmem := (h.builds g hg).2.2 hcg
    have hlookup := lookup_of_mem h.flights_nodup hfmem
    rw [hkey, lookup_of_mem h.flights_nodup hgmem] at hlookup
    exact (some.inj hlookup).symm
  entries := h.entries_nodup
  inUse := h.inUse
  closed := h.closed
  held := by
    intro e hheld
    have hle := h.closed e
    by_contra hclosed
    have hzero := h.dead e (.inr (.inl (by omega)))
    rw [h.inUse e] at hzero
    omega

theorem cache_safe (actions : List Action) : Always step Safe actions Cache.empty :=
  (always_of_step (fun _ _ _ h hstep ↦ inv_step h hstep) inv_empty actions).mono fun _ ↦ Inv.safe

structure Coherent (st : Cache) : Prop where
  /-- What is cached is not being built, unless the build was cancelled. -/
  apart : ∀ pair ∈ st.entries, ∀ f ∈ st.builds, (st.flight f).cancelled = false →
    pair.1 ≠ (st.flight f).key
  waiters : ∀ f, (st.flight f).waiters = waitersOf st.callers f
  /-- What is closed or about to be is neither used nor found. -/
  gone : ∀ e, e ∈ st.closing ∨ (st.entry e).closed = 1 →
    (st.entry e).inUse = 0 ∧ ∀ pair ∈ st.entries, pair.2 ≠ e

theorem Inv.coherent {st : Cache} (h : Inv st) : Coherent st where
  apart := by
    intro pair hpair f hf hcancelled
    exact h.apart pair hpair _ ((h.builds f hf).2.2 hcancelled)
  waiters := h.waiters
  gone := by
    intro e he
    refine ⟨h.dead e (he.imp_right .inl), ?_⟩
    rintro pair hpair rfl
    obtain ⟨-, -, hclosing, hclosed⟩ := h.entries pair hpair
    rcases he with he | he
    · exact hclosing he
    · omega

theorem cache_coherent (actions : List Action) : Always step Coherent actions Cache.empty :=
  (always_of_step (fun _ _ _ h hstep ↦ inv_step h hstep) inv_empty actions).mono
    fun _ ↦ Inv.coherent

/-- The only waiter gives up, and the next caller does not wait for the cancelled build. -/
theorem cancelled_build_overlaps :
    ¬ Always step (fun st ↦ ∀ f ∈ st.builds, ∀ g ∈ st.builds,
        (st.flight f).key = (st.flight g).key → f = g)
      [.acquire "graph" 0, .cancel 0, .acquire "graph" 1] Cache.empty := by
  refine not_always_of_end
    (fun st ↦ decide (0 ∈ st.builds ∧ 1 ∈ st.builds ∧ (st.flight 0).key = (st.flight 1).key))
    ?_ (by decide)
  intro st hbad h
  obtain ⟨hzero, hone, hkey⟩ := of_decide_eq_true hbad
  exact absurd (h 0 hzero 1 hone hkey) (by decide)

end MiLsp.Snapshots
