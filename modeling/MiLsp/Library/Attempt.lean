import Mathlib.Data.List.Forall2

namespace MiLsp.Library.Attempt

open List Except

variable {ε δ α β σ τ : Type} {f : α → Except ε β} {x : Except ε α} {e : ε} {a : α} {b : β}
  {c : Prop} {y : Except ε β} {π : σ → τ} {g : σ → σ}

theorem bind_eq_ok : x >>= f = .ok b ↔ ∃ a, x = .ok a ∧ f a = .ok b := by
  cases x with
  | error e => simp [bind, Except.bind]
  | ok a => simp [bind, Except.bind]

theorem exists_bind (hx : x = .ok a) (h : ∃ b, f a = .ok b) : ∃ b, x >>= f = .ok b := by
  rw [hx]
  exact h

@[simp]
theorem pure_eq_ok {b : α} : (pure a : Except ε α) = .ok b ↔ a = b := by
  simp [pure, Except.pure]

theorem seq_eq_ok {x : Except ε Unit} {f : Unit → Except ε β} :
    x >>= f = .ok b ↔ x = .ok () ∧ f () = .ok b := by
  rw [bind_eq_ok]
  constructor
  · rintro ⟨⟨⟩, hx, hf⟩
    exact ⟨hx, hf⟩
  · rintro ⟨hx, hf⟩
    exact ⟨(), hx, hf⟩

theorem guarded_eq_ok [Decidable c] :
    (if c then (throw e : Except ε α) >>= f else y) = .ok b ↔ ¬c ∧ y = .ok b := by
  by_cases hc : c
  · simp [hc, throw, throwThe, MonadExceptOf.throw, bind, Except.bind]
  · simp [hc]

theorem check_eq_ok [Decidable c] :
    (if c then throw e else pure () : Except ε Unit) = .ok () ↔ ¬c := by
  by_cases hc : c
  · simp [hc, throw, throwThe, MonadExceptOf.throw]
  · simp [hc]

def attach (x : Except ε α) : Except ε { a // x = .ok a } :=
  match x with
  | .ok a => .ok ⟨a, rfl⟩
  | .error e => .error e

def orElse (e : ε) : Option α → Except ε α
  | some a => .ok a
  | none => .error e

@[simp]
theorem orElse_eq_ok {x : Option α} : orElse e x = .ok a ↔ x = some a := by
  cases x <;> simp [orElse]

section

variable {f : σ → α → Except ε σ} {l : List α} {s s' : σ}

theorem foldlM_induction {I : List α → σ → Prop}
    (hstep : ∀ before a after s₁ s₂, l = before ++ a :: after → before.foldlM f s = .ok s₁ →
      I before s₁ → f s₁ a = .ok s₂ → I (before ++ [a]) s₂) (hs : I [] s)
    (h : l.foldlM f s = .ok s') : I l s' := by
  have hrest : ∀ rest done s₁, l = done ++ rest → done.foldlM f s = .ok s₁ → I done s₁ →
      rest.foldlM f s₁ = .ok s' → I l s' := by
    intro rest
    induction rest with
    | nil =>
      intro done s₁ hl _ hI h
      rw [append_nil] at hl
      rw [foldlM_nil, pure_eq_ok] at h
      rwa [hl, ← h]
    | cons a rest ih =>
      intro done s₁ hl hdone hI h
      obtain ⟨s₂, h₂, h⟩ := bind_eq_ok.mp h
      have hlong : (done ++ [a]).foldlM f s = .ok s₂ := by
        rw [foldlM_append]
        exact bind_eq_ok.mpr ⟨s₁, hdone, bind_eq_ok.mpr ⟨s₂, h₂, rfl⟩⟩
      exact ih (done ++ [a]) s₂ (by rw [hl, append_assoc]; rfl) hlong
        (hstep done a rest s₁ s₂ hl hdone hI h₂) h
  exact hrest l [] s rfl rfl hs h

theorem foldlM_invariant {I : σ → Prop} (hstep : ∀ s, ∀ a ∈ l, ∀ s', I s → f s a = .ok s' → I s')
    (hs : I s) (h : l.foldlM f s = .ok s') : I s' := by
  refine foldlM_induction (I := fun _ ↦ I) ?_ hs h
  intro before a after s₁ s₂ hl _ hI hf
  exact hstep s₁ a (by simp [hl]) s₂ hI hf

theorem foldlM_isOk (h : ∀ a ∈ l, ∀ s, ∃ s', f s a = .ok s') (s : σ) :
    ∃ s', l.foldlM f s = .ok s' := by
  induction l generalizing s with
  | nil => exact ⟨s, rfl⟩
  | cons a l ih =>
    rw [forall_mem_cons] at h
    obtain ⟨s₁, hs₁⟩ := h.1 s
    rw [foldlM_cons, hs₁]
    exact ih h.2 s₁

theorem foldlM_eq_error {e : ε} (h : l.foldlM f s = .error e) :
    ∃ before a after s₁, l = before ++ a :: after ∧ before.foldlM f s = .ok s₁ ∧
      f s₁ a = .error e := by
  induction l generalizing s with
  | nil => cases h
  | cons b l ih =>
    rw [foldlM_cons] at h
    cases hb : f s b with
    | error e' =>
      rw [hb] at h
      cases h
      exact ⟨[], b, l, s, rfl, rfl, hb⟩
    | ok s₂ =>
      rw [hb] at h
      obtain ⟨before, a, after, s₁, rfl, hbefore, ha⟩ := ih h
      exact ⟨b :: before, a, after, s₁, rfl, bind_eq_ok.mpr ⟨s₂, hb, hbefore⟩, ha⟩

theorem foldlM_accepts (h : l.foldlM f s = .ok s') {a : α} (ha : a ∈ l) :
    ∃ t t', f t a = .ok t' := by
  induction l generalizing s with
  | nil => cases ha
  | cons b l ih =>
    obtain ⟨s₁, h₁, h⟩ := bind_eq_ok.mp h
    rcases mem_cons.mp ha with rfl | ha
    · exact ⟨s, s₁, h₁⟩
    · exact ih h ha

end

theorem forM_eq_ok {f : α → Except ε PUnit} {l : List α} :
    l.forM f = .ok () ↔ ∀ a ∈ l, f a = .ok () := by
  induction l with
  | nil => simp [pure, Except.pure]
  | cons a l ih =>
    rw [List.forM, seq_eq_ok, ih, forall_mem_cons]

theorem mapM_eq_ok {l : List α} {l' : List β} :
    l.mapM f = .ok l' ↔ List.Forall₂ (fun a b ↦ f a = .ok b) l l' := by
  induction l generalizing l' with
  | nil =>
    rw [mapM_nil, pure_eq_ok, forall₂_nil_left_iff]
    exact eq_comm
  | cons a l ih =>
    rw [mapM_cons, bind_eq_ok, forall₂_cons_left_iff]
    constructor
    · intro ⟨b, hb, h⟩
      obtain ⟨bs, hbs, h⟩ := bind_eq_ok.mp h
      exact ⟨b, bs, hb, ih.mp hbs, (pure_eq_ok.mp h).symm⟩
    · intro ⟨b, bs, hb, hbs, h⟩
      exact ⟨b, hb, bind_eq_ok.mpr ⟨bs, ih.mpr hbs, pure_eq_ok.mpr h.symm⟩⟩

theorem mapM_eq_some_iff {f : α → Option β} {l : List α} {l' : List β} :
    l.mapM f = some l' ↔ List.Forall₂ (fun a b ↦ f a = some b) l l' := by
  induction l generalizing l' with
  | nil => simp [eq_comm]
  | cons a l ih =>
    cases l' with
    | nil => simp [Option.bind_eq_some_iff]
    | cons b l' => simp [Option.bind_eq_some_iff, ih]

section

variable {R : α → β → Prop} {l : List α} {l' : List β} (h : List.Forall₂ R l l')
include h

theorem exists_of_mem_left {a : α} (ha : a ∈ l) : ∃ b ∈ l', R a b := by
  induction h with
  | nil => cases ha
  | cons hab _ ih =>
    rcases mem_cons.mp ha with rfl | ha
    · exact ⟨_, mem_cons_self, hab⟩
    · obtain ⟨b, hb, hR⟩ := ih ha
      exact ⟨b, mem_cons_of_mem _ hb, hR⟩

theorem exists_of_mem_right {b : β} (hb : b ∈ l') : ∃ a ∈ l, R a b :=
  exists_of_mem_left h.flip hb

end

theorem foldlM_distinct {κ : Type} {f : List σ → α → Except ε (List σ)} {key : α → κ} {k : σ → κ}
    {P : α → Prop} {l : List α} {seen seen' : List σ} (h : l.foldlM f seen = .ok seen')
    (hstep : ∀ seen a seen', f seen a = .ok seen' →
      P a ∧ key a ∉ seen.map k ∧ seen'.map k = key a :: seen.map k) :
    (∀ a ∈ l, P a ∧ key a ∉ seen.map k) ∧ (l.map key).Nodup := by
  induction l generalizing seen with
  | nil => simp
  | cons a l ih =>
    obtain ⟨seen₁, h₁, h⟩ := bind_eq_ok.mp h
    obtain ⟨hP, hfresh, hseen⟩ := hstep seen a seen₁ h₁
    obtain ⟨hrest, hnodup⟩ := ih h
    rw [hseen] at hrest
    refine ⟨forall_mem_cons.mpr ⟨⟨hP, hfresh⟩, fun b hb ↦ ⟨(hrest b hb).1, ?_⟩⟩, ?_⟩
    · exact fun hmem ↦ (hrest b hb).2 (mem_cons_of_mem _ hmem)
    · refine nodup_cons.mpr ⟨fun hmem ↦ ?_, hnodup⟩
      obtain ⟨b, hb, heq⟩ := mem_map.mp hmem
      exact (hrest b hb).2 (heq ▸ mem_cons_self)

section

variable {f : σ → α → Except ε σ} {P : List α → α → Prop} {s' : σ}

theorem foldlM_accumulates_from {state : List α → σ}
    (hstep : ∀ done a s', f (state done) a = .ok s' ↔ P done a ∧ s' = state (done ++ [a]))
    {l done : List α} : l.foldlM f (state done) = .ok s' ↔
      (∀ pre a post, l = pre ++ a :: post → P (done ++ pre) a) ∧ s' = state (done ++ l) := by
  induction l generalizing done with
  | nil =>
    rw [foldlM_nil, pure_eq_ok, append_nil]
    constructor
    · intro h
      refine ⟨?_, h.symm⟩
      intro pre a post hl
      simp at hl
    · intro h
      exact h.2.symm
  | cons a l ih =>
    rw [foldlM_cons, bind_eq_ok]
    constructor
    · intro ⟨s₁, h₁, h⟩
      obtain ⟨hP, rfl⟩ := (hstep done a s₁).mp h₁
      obtain ⟨hrest, hs'⟩ := ih.mp h
      rw [append_assoc] at hs'
      refine ⟨?_, hs'⟩
      intro pre b post hl
      cases pre with
      | nil =>
        obtain ⟨rfl, rfl⟩ := List.cons.inj hl
        rwa [append_nil]
      | cons a' pre =>
        obtain ⟨rfl, hl'⟩ := List.cons.inj hl
        have hb := hrest pre b post hl'
        rwa [append_assoc] at hb
    · intro ⟨hall, hs'⟩
      have ha := hall [] a l rfl
      rw [append_nil] at ha
      refine ⟨_, (hstep done a _).mpr ⟨ha, rfl⟩, ih.mpr ⟨?_, ?_⟩⟩
      · intro pre b post hl
        rw [append_assoc]
        exact hall (a :: pre) b post (congrArg (a :: ·) hl)
      · rw [hs', append_assoc]
        rfl

theorem foldlM_accumulates (state : List α → σ)
    (hstep : ∀ done a s', f (state done) a = .ok s' ↔ P done a ∧ s' = state (done ++ [a]))
    {l : List α} : l.foldlM f (state []) = .ok s' ↔
      (∀ pre a post, l = pre ++ a :: post → P pre a) ∧ s' = state l :=
  foldlM_accumulates_from hstep

end

@[simp]
theorem mapError_eq_ok {f : ε → δ} : x.mapError f = .ok a ↔ x = .ok a := by
  cases x <;> simp [Except.mapError]

theorem map_eq_ok {f : α → β} : x.map f = .ok b ↔ ∃ a, x = .ok a ∧ f a = b := by
  cases x <;> simp [Except.map]

theorem toOption_eq_some : x.toOption = some a ↔ x = .ok a := by
  cases x <;> simp [Except.toOption]

theorem any_toOption {p : α → Bool} : x.toOption.any p = true ↔ ∃ a, x = .ok a ∧ p a = true := by
  cases x <;> simp [Except.toOption]

def FailsOnly (e : ε) (x : Except ε α) : Prop := ∀ e', x = .error e' → e' = e

theorem failsOnly_ok : FailsOnly e (.ok a) := fun _ h ↦ nomatch h

theorem failsOnly_error : FailsOnly e (.error e : Except ε α) :=
  fun _ h ↦ (error.inj h).symm

theorem FailsOnly.bind (hx : FailsOnly e x) (hf : ∀ a, FailsOnly e (f a)) :
    FailsOnly e (x >>= f) := by
  cases x with
  | error e' =>
    intro e'' h
    exact hx e'' (congrArg error (error.inj h))
  | ok a => exact hf a

theorem FailsOnly.ne_error {e' : ε} (h : FailsOnly e x) (he : e' ≠ e) :
    x ≠ .error e' := fun hx ↦ he (h e' hx)

theorem bind_ne_error (hx : x ≠ .error e) (hf : ∀ a, f a ≠ .error e) : x >>= f ≠ .error e := by
  cases x with
  | error e' =>
    intro h
    exact hx (congrArg error (error.inj h))
  | ok a => exact hf a

theorem failsOnly_mapError (x : Except δ α) : FailsOnly e (x.mapError fun _ ↦ e) := by
  cases x with
  | error => exact failsOnly_error
  | ok => exact failsOnly_ok

theorem FailsOnly.guarded [Decidable c] (hy : FailsOnly e y) :
    FailsOnly e (if c then (throw e : Except ε α) >>= f else y) := by
  split
  · exact failsOnly_error
  · exact hy

def Commutes (g : σ → σ) (f : σ → Except ε σ) : Prop := ∀ s, f (g s) = (f s).map g

theorem Commutes.bind {f₁ f₂ : σ → Except ε σ} (h₁ : Commutes g f₁) (h₂ : Commutes g f₂) :
    Commutes g fun s ↦ f₁ s >>= f₂ := by
  intro s
  dsimp only
  rw [h₁ s]
  cases f₁ s with
  | error e => rfl
  | ok s' => exact h₂ s'

theorem Commutes.foldlM {f : σ → α → Except ε σ} (h : ∀ a, Commutes g (f · a)) (l : List α) :
    Commutes g (l.foldlM f ·) := by
  induction l with
  | nil =>
    intro s
    rfl
  | cons a l ih => simpa only [foldlM_cons] using (h a).bind ih

def Keeps (π : σ → τ) (f : σ → Except ε σ) : Prop := ∀ s s', f s = .ok s' → π s' = π s

theorem Keeps.bind {f₁ f₂ : σ → Except ε σ} (h₁ : Keeps π f₁) (h₂ : Keeps π f₂) :
    Keeps π fun s ↦ f₁ s >>= f₂ := by
  intro s s' h
  obtain ⟨s₁, hs₁, hs'⟩ := bind_eq_ok.mp h
  rw [h₂ s₁ s' hs', h₁ s s₁ hs₁]

theorem Keeps.foldlM {f : σ → α → Except ε σ} (h : ∀ a, Keeps π (f · a)) (l : List α) :
    Keeps π (l.foldlM f ·) := by
  induction l with
  | nil =>
    intro s s' hs
    exact congrArg π (ok.inj hs).symm
  | cons a l ih => simpa only [foldlM_cons] using (h a).bind ih

theorem foldlM_simulation {f : σ → α → Except ε σ} {g : τ → α → Except δ τ} {R : σ → τ → Prop}
    {l : List α} {s s' : σ} {t : τ}
    (hstep : ∀ p a q, l = p ++ a :: q → ∀ s u s', R s u → p.foldlM g t = .ok u →
      f s a = .ok s' → ∃ u', g u a = .ok u' ∧ R s' u')
    (hs : R s t) (h : l.foldlM f s = .ok s') : ∃ t', l.foldlM g t = .ok t' ∧ R s' t' := by
  refine foldlM_induction (I := fun p s ↦ ∃ u, p.foldlM g t = .ok u ∧ R s u) ?_ ⟨t, rfl, hs⟩ h
  rintro p a q s₁ s₂ hl _ ⟨u, hp, hR⟩ hf
  obtain ⟨u', hu', hR'⟩ := hstep p a q hl s₁ u s₂ hR hp hf
  refine ⟨u', ?_, hR'⟩
  rw [foldlM_append]
  exact bind_eq_ok.mpr ⟨u, hp, bind_eq_ok.mpr ⟨u', hu', rfl⟩⟩

end MiLsp.Library.Attempt
