import Mathlib.Logic.Relation
import Mathlib.Tactic.SplitIfs

namespace MiLsp.Library

/-- Code that runs transactions on a state: a failure ends it, and what was committed stays. -/
abbrev Session (ε σ α : Type) := ExceptT ε (StateM σ) α

namespace Session

variable {ε σ α β : Type} {f : α → Session ε σ β} (m : Session ε σ α)

def exec (s : σ) : Except ε α × σ := m.run.run s

def transact (f : σ → Except ε σ) : Session ε σ Unit := fun s ↦
  match f s with
  | .ok s' => (.ok (), s')
  | .error e => (.error e, s)

def result {ε' : Type} (m : Session ε σ α) : Session ε' σ (Except ε α) := fun s ↦
  (.ok (m.exec s).1, (m.exec s).2)

def ensure (ok : Prop) [Decidable ok] (e : ε) : Session ε σ Unit :=
  if ok then pure () else throw e

variable (Ok : α → σ → Prop) (Err : ε → σ → Prop)

def Ends : Except ε α → σ → Prop
  | .ok a => Ok a
  | .error e => Err e

/-- What a session does from a state: what holds when it returns, and when it fails. -/
def Yields (m : Session ε σ α) (s : σ) : Prop :=
  Ends Ok Err (m.exec s).1 (m.exec s).2

def Keeps (I : σ → Prop) (m : Session ε σ α) : Prop :=
  ∀ s, I s → Yields (fun _ ↦ I) (fun _ ↦ I) m s

/-- Whatever the state, a session takes it to one that `R` relates to it. -/
def Within (R : σ → σ → Prop) (m : Session ε σ α) : Prop := ∀ s, R s (m.exec s).2

theorem exec_get (s : σ) : (get : Session ε σ σ).exec s = (.ok s, s) := rfl

theorem exec_transact (f : σ → Except ε σ) (s : σ) :
    (transact f).exec s =
      match f s with
      | .ok s' => (.ok (), s')
      | .error e => (.error e, s) := rfl

theorem exec_bind (f : α → Session ε σ β) (s : σ) : (m >>= f).exec s =
      match m.exec s with
      | (.ok a, s') => (f a).exec s'
      | (.error e, s') => (.error e, s') := by
  unfold exec
  rw [ExceptT.run_bind, StateT.run_bind]
  rcases m.run.run s with ⟨a | e, s'⟩ <;> rfl

theorem exec_bind_snd (hf : ∀ a s, ((f a).exec s).2 = s) (s : σ) :
    ((m >>= f).exec s).2 = (m.exec s).2 := by
  rw [exec_bind]
  rcases m.exec s with ⟨e | a, s'⟩
  · rfl
  · exact hf a s'

variable {R : σ → σ → Prop}

section

variable (hrefl : ∀ s, R s s)
include hrefl

theorem within_pure (a : α) : Within R (pure a : Session ε σ α) := hrefl

theorem within_throw (e : ε) : Within R (throw e : Session ε σ α) := hrefl

theorem within_get : Within R (get : Session ε σ σ) := hrefl

theorem within_transact {f : σ → Except ε σ} (hf : ∀ s s', f s = .ok s' → R s s') :
    Within R (transact f) := by
  intro s
  rw [exec_transact]
  cases h : f s with
  | ok s' => exact hf s s' h
  | error e => exact hrefl s

end

theorem within_bind (htrans : ∀ s₁ s₂ s₃, R s₁ s₂ → R s₂ s₃ → R s₁ s₃) {m : Session ε σ α}
    (hm : Within R m) (hf : ∀ a, Within R (f a)) : Within R (m >>= f) := by
  intro s
  rw [exec_bind]
  have hs := hm s
  rcases hexec : m.exec s with ⟨e | a, s'⟩
  · simpa [hexec] using hs
  · rw [hexec] at hs
    exact htrans s s' _ hs (hf a s')

theorem exec_tryCatch (m : Session ε σ α) (handler : ε → Session ε σ α) (s : σ) :
    (tryCatch m handler).exec s =
      match m.exec s with
      | (.ok a, s') => (.ok a, s')
      | (.error e, s') => (handler e).exec s' := by
  change (ExceptT.tryCatch m handler : StateM σ _) s = _
  unfold ExceptT.tryCatch ExceptT.mk exec
  change (StateT.bind m _ : StateM σ _) s = _
  unfold StateT.bind
  rcases hm : m s with ⟨e | a, s'⟩ <;> simp [hm, ExceptT.run, StateT.run] <;> rfl

theorem within_tryCatch (htrans : ∀ s₁ s₂ s₃, R s₁ s₂ → R s₂ s₃ → R s₁ s₃) {m : Session ε σ α}
    {handler : ε → Session ε σ α} (hm : Within R m) (hhandler : ∀ e, Within R (handler e)) :
    Within R (tryCatch m handler) := by
  intro s
  rw [exec_tryCatch]
  have hs := hm s
  rcases hexec : m.exec s with ⟨e | a, s'⟩
  · rw [hexec] at hs
    exact htrans s s' _ hs (hhandler e s')
  · simpa [hexec] using hs

section Yields

variable {ε' : Type} {Ok : α → σ → Prop} {Err : ε → σ → Prop} {s : σ} {m : Session ε σ α}

theorem Yields.mono {Ok' : α → σ → Prop} {Err' : ε → σ → Prop} (h : Yields Ok Err m s)
    (hok : ∀ a s', Ok a s' → Ok' a s') (herr : ∀ e s', Err e s' → Err' e s') :
    Yields Ok' Err' m s := by
  unfold Yields at h ⊢
  cases hend : (m.exec s).1 with
  | error e =>
    rw [hend] at h
    exact herr e _ h
  | ok a =>
    rw [hend] at h
    exact hok a _ h

theorem Yields.bind {Q : α → σ → Prop} {Ok : β → σ → Prop} {f : α → Session ε σ β}
    (hm : Yields Q Err m s) (hf : ∀ a s', Q a s' → Yields Ok Err (f a) s') :
    Yields Ok Err (m >>= f) s := by
  unfold Yields at hm ⊢
  rw [exec_bind]
  rcases hexec : m.exec s with ⟨e | a, s'⟩
  · rw [hexec] at hm
    exact hm
  · rw [hexec] at hm
    exact hf a s' hm

theorem Yields.result {Err' : ε' → σ → Prop} (h : Yields Ok Err m s) :
    Yields (Ends Ok Err) Err' (Session.result m) s := h

variable {I : σ → Prop}

theorem keeps_pure (a : α) : Keeps I (pure a : Session ε σ α) := fun _ h ↦ h

theorem keeps_throw (e : ε) : Keeps I (throw e : Session ε σ α) := fun _ h ↦ h

theorem yields_get (h : I s) : Yields (ε := ε) (fun a s' ↦ a = s' ∧ I s') (fun _ ↦ I) get s :=
  ⟨rfl, h⟩

theorem yields_ensure {ok : Prop} [Decidable ok] {e : ε} (h : I s) :
    Yields (fun _ s' ↦ ok ∧ I s') (fun _ ↦ I) (ensure ok e) s := by
  unfold ensure
  split_ifs with hok
  · exact ⟨hok, h⟩
  · exact h

theorem keeps_ensure (ok : Prop) [Decidable ok] (e : ε) :
    Keeps I (ensure ok e : Session ε σ Unit) := fun _ h ↦
  (yields_ensure h).mono (fun _ _ h' ↦ h'.2) fun _ _ h' ↦ h'

theorem Keeps.bind {f : α → Session ε σ β} (hm : Keeps I m) (hf : ∀ a, Keeps I (f a)) :
    Keeps I (m >>= f) := fun s h ↦
  (hm s h).bind fun a s' h' ↦ hf a s' h'

theorem keeps_forM {xs : List β} {f : β → Session ε σ PUnit} (hf : ∀ x, Keeps I (f x)) :
    Keeps I (xs.forM f) := by
  induction xs with
  | nil => exact keeps_pure _
  | cons x xs ih => exact (hf x).bind fun _ ↦ ih

end Yields

end Session

end MiLsp.Library
