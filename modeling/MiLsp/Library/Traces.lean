import Mathlib.Logic.Basic

namespace MiLsp.Library.Traces

open Option

variable {σ α : Type} (step : σ → α → Option σ)

def Always (P : σ → Prop) : List α → σ → Prop
  | [], s => P s
  | a :: actions, s => P s ∧ ∀ s', step s a = some s' → Always P actions s'

def Obeys (Ok : σ → α → Prop) : List α → σ → Prop
  | [], _ => True
  | a :: actions, s => ∀ s', step s a = some s' → Ok s a ∧ Obeys Ok actions s'

def checks (ok : σ → α → Bool) : List α → σ → Bool
  | [], _ => true
  | a :: actions, s =>
    match step s a with
    | some s' => ok s a && checks ok actions s'
    | none => true

variable {step} {P Inv : σ → Prop} {Ok : σ → α → Prop} {s : σ} {actions : List α} {Q : σ → Prop}

theorem always_of_step (hstep : ∀ s a s', P s → step s a = some s' → P s') (hs : P s)
    (actions : List α) : Always step P actions s := by
  induction actions generalizing s with
  | nil => exact hs
  | cons a actions ih => exact ⟨hs, fun s' hs' ↦ ih (hstep s a s' hs hs')⟩

theorem always_of_obeys (hstep : ∀ s a s', P s → Ok s a → step s a = some s' → P s')
    (hs : P s) (h : Obeys step Ok actions s) : Always step P actions s := by
  induction actions generalizing s with
  | nil => exact hs
  | cons a actions ih =>
    refine ⟨hs, fun s' hs' ↦ ?_⟩
    obtain ⟨hok, hrest⟩ := h s' hs'
    exact ih (hstep s a s' hs hok hs') hrest

theorem always_iff_obeys (hinv : ∀ s a s', Inv s → step s a = some s' → Inv s')
    (hstep : ∀ s a s', Inv s → P s → step s a = some s' → (P s' ↔ Ok s a)) (hs : Inv s)
    (hp : P s) (actions : List α) : Always step P actions s ↔ Obeys step Ok actions s := by
  induction actions generalizing s with
  | nil => exact iff_of_true hp trivial
  | cons a actions ih =>
    constructor
    · rintro ⟨-, h⟩ s' hs'
      have hp' : P s' := by
        cases actions with
        | nil => exact h s' hs'
        | cons b actions => exact (h s' hs').1
      exact ⟨(hstep s a s' hs hp hs').mp hp', (ih (hinv s a s' hs hs') hp').mp (h s' hs')⟩
    · intro h
      refine ⟨hp, fun s' hs' ↦ ?_⟩
      have hp' := (hstep s a s' hs hp hs').mpr (h s' hs').1
      exact (ih (hinv s a s' hs hs') hp').mpr (h s' hs').2

theorem Always.obeys (hok : ∀ s a, P s → Ok s a)
    (hP : Always step P actions s) : Obeys step Ok actions s := by
  induction actions generalizing s with
  | nil => trivial
  | cons a actions ih => exact fun s' hs' ↦ ⟨hok s a hP.1, ih (hP.2 s' hs')⟩

theorem Always.mono (h : ∀ s, P s → Q s) (hP : Always step P actions s) :
    Always step Q actions s := by
  induction actions generalizing s with
  | nil => exact h s hP
  | cons a actions ih => exact ⟨h s hP.1, fun s' hs' ↦ ih (hP.2 s' hs')⟩

theorem Always.last {s' : σ} (hP : Always step P actions s)
    (hrun : actions.foldlM step s = some s') : P s' := by
  induction actions generalizing s with
  | nil => exact Option.some.inj hrun ▸ hP
  | cons a actions ih =>
    obtain ⟨t, ht, hrest⟩ := bind_eq_some_iff.mp hrun
    exact ih (hP.2 t ht) hrest

theorem not_always_of_end (bad : σ → Bool) (hbad : ∀ s, bad s → ¬P s)
    (hend : (actions.foldlM step s).any bad = true) : ¬Always step P actions s := by
  intro h
  cases hrun : actions.foldlM step s with
  | none =>
    rw [hrun] at hend
    cases hend
  | some s' =>
    rw [hrun, any_some] at hend
    exact hbad s' hend (h.last hrun)

theorem Obeys.last {a : α} {t t' : σ} (h : Obeys step Ok (actions ++ [a]) s)
    (hrun : actions.foldlM step s = some t) (hstep : step t a = some t') : Ok t a := by
  induction actions generalizing s with
  | nil =>
    cases hrun
    exact (h t' hstep).1
  | cons b actions ih =>
    obtain ⟨s', hs', hrest⟩ := bind_eq_some_iff.mp hrun
    exact ih (h s' hs').2 hrest

theorem not_obeys_of_end {a : α} (bad : σ → σ → Bool)
    (hbad : ∀ t t', step t a = some t' → bad t t' → ¬Ok t a)
    (hend : ((actions.foldlM step s).any fun t ↦ (step t a).any (bad t)) = true) :
    ¬Obeys step Ok (actions ++ [a]) s := by
  intro h
  cases hrun : actions.foldlM step s with
  | none =>
    rw [hrun] at hend
    cases hend
  | some t =>
    rw [hrun, any_some] at hend
    cases hstep : step t a with
    | none =>
      rw [hstep] at hend
      cases hend
    | some t' =>
      rw [hstep, any_some] at hend
      exact hbad t t' hstep hend (h.last hrun hstep)

theorem obeys_of_run [∀ s a, Decidable (Ok s a)]
    (h : checks step (fun s a ↦ decide (Ok s a)) actions s = true) : Obeys step Ok actions s := by
  induction actions generalizing s with
  | nil => trivial
  | cons a actions ih =>
    intro s' hs'
    rw [checks, hs'] at h
    obtain ⟨hok, hrest⟩ := Bool.and_eq_true_iff.mp h
    exact ⟨of_decide_eq_true hok, ih hrest⟩

theorem Always.and (hP : Always step P actions s) :
    Always step (fun s ↦ P s ∧ Q s) actions s ↔ Always step Q actions s := by
  induction actions generalizing s with
  | nil => exact and_iff_right hP
  | cons a actions ih =>
    refine and_congr (and_iff_right hP.1) (forall₂_congr fun s' hs' ↦ ih (hP.2 s' hs'))

end MiLsp.Library.Traces
