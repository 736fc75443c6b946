import Mathlib.Data.List.Basic

namespace MiLsp.Library.Frames

open List

variable {τ β : Type} {header : τ → ℕ → List β} {bound : ℕ}

/-- Frames one after the other, each a header with a tag and a length, and a body. -/
def encode (header : τ → ℕ → List β) (frames : List (τ × List β)) : List β :=
  frames.flatMap fun f ↦ header f.1 f.2.length ++ f.2

/-- Headers of one nonzero width that tell the tag and a length below the bound. -/
structure Readable (header : τ → ℕ → List β) (bound : ℕ) : Prop where
  width : ∃ w, ∀ t n, (header t n).length = w + 1
  inj : ∀ t t' n n', n < bound → n' < bound → header t n = header t' n' → t = t' ∧ n = n'

theorem encode_append (l l' : List (τ × List β)) :
    encode header (l ++ l') = encode header l ++ encode header l' := flatMap_append

theorem encode_injective (hheader : Readable header bound) {l l' : List (τ × List β)}
    (hl : ∀ f ∈ l, f.2.length < bound) (hl' : ∀ f ∈ l', f.2.length < bound)
    (h : encode header l = encode header l') : l = l' := by
  obtain ⟨w, hw⟩ := hheader.width
  induction l generalizing l' with
  | nil =>
    cases l' with
    | nil => rfl
    | cons g l' =>
      have hlength := congrArg List.length h
      simp only [encode, flatMap_nil, flatMap_cons, length_append, length_nil, hw] at hlength
      omega
  | cons f l ih =>
    cases l' with
    | nil =>
      have hlength := congrArg List.length h
      simp only [encode, flatMap_nil, flatMap_cons, length_append, length_nil, hw] at hlength
      omega
    | cons g l' =>
      simp only [encode, flatMap_cons, append_assoc] at h
      obtain ⟨hhead, h⟩ := append_inj h ((hw _ _).trans (hw _ _).symm)
      obtain ⟨htag, hlength⟩ := hheader.inj _ _ _ _ (hl f mem_cons_self)
        (hl' g mem_cons_self) hhead
      obtain ⟨hbody, h⟩ := append_inj h hlength
      rw [ih (fun x hx ↦ hl x (mem_cons_of_mem f hx))
        (fun x hx ↦ hl' x (mem_cons_of_mem g hx)) h, Prod.ext htag hbody]

section Delimiters

variable {α : Type} {P : α → Prop}

def Delimited (P : α → Prop) (l : List α) : Prop := ∀ x ∈ l.head?, P x

theorem delimited_nil : Delimited P ([] : List α) := nofun

theorem delimited_cons {x : α} {l : List α} (hx : P x) : Delimited P (x :: l) := by
  intro y hy
  obtain rfl := Option.some.inj hy
  exact hx

theorem append_inj_of_delimited {a a' b b' : List α} (ha : ∀ x ∈ a, ¬P x) (ha' : ∀ x ∈ a', ¬P x)
    (hb : Delimited P b) (hb' : Delimited P b') (h : a ++ b = a' ++ b') : a = a' ∧ b = b' := by
  induction a generalizing a' with
  | nil =>
    cases a' with
    | nil => exact ⟨rfl, h⟩
    | cons x a' =>
      subst h
      exact absurd (hb x rfl) (ha' x mem_cons_self)
  | cons x a ih =>
    cases a' with
    | nil =>
      subst h
      exact absurd (hb' x rfl) (ha x mem_cons_self)
    | cons y a' =>
      obtain ⟨hxy, h⟩ := List.cons.inj h
      obtain ⟨haa', hbb'⟩ := ih (fun z hz ↦ ha z (mem_cons_of_mem x hz))
        (fun z hz ↦ ha' z (mem_cons_of_mem y hz)) h
      exact ⟨hxy ▸ haa' ▸ rfl, hbb'⟩

theorem delimited_flatMap {γ : Type} {mark : α} (hmark : P mark) (content : γ → List α)
    (records : List γ) : Delimited P (records.flatMap fun r ↦ mark :: content r) := by
  cases records with
  | nil => exact delimited_nil
  | cons r records => exact delimited_cons hmark

theorem flatMap_mark_inj {γ : Type} {mark : α} {content : γ → List α} {records records' : List γ}
    (h : ∀ r ∈ records, mark ∉ content r) (h' : ∀ r ∈ records', mark ∉ content r)
    (heq : (records.flatMap fun r ↦ mark :: content r) =
      records'.flatMap fun r ↦ mark :: content r) :
    records.map content = records'.map content := by
  induction records generalizing records' with
  | nil =>
    cases records' with
    | nil => rfl
    | cons r records' => cases heq
  | cons r records ih =>
    cases records' with
    | nil => cases heq
    | cons r' records' =>
      have hnone : ∀ {r : γ}, mark ∉ content r → ∀ x ∈ content r, ¬x = mark := by
        intro r hr x hx hmark
        exact hr (hmark ▸ hx)
      have hdelimited : ∀ l : List γ,
          Delimited (· = mark) (l.flatMap fun r ↦ mark :: content r) :=
        delimited_flatMap (P := (· = mark)) rfl content
      obtain ⟨hr, hrest⟩ := append_inj_of_delimited (hnone (h r mem_cons_self))
        (hnone (h' r' mem_cons_self)) (hdelimited records) (hdelimited records')
        (List.cons.inj heq).2
      rw [map_cons, map_cons, hr, ih (fun x hx ↦ h x (mem_cons_of_mem r hx))
        (fun x hx ↦ h' x (mem_cons_of_mem r' hx)) hrest]

end Delimiters

section Bodies

variable [DecidableEq τ]

def bodies (t : τ) (frames : List (τ × List β)) : List (List β) :=
  (frames.filter (·.1 = t)).map (·.2)

@[simp]
theorem bodies_nil (t : τ) : bodies t ([] : List (τ × List β)) = [] := rfl

@[simp]
theorem bodies_cons (t t' : τ) (body : List β) (frames : List (τ × List β)) :
    bodies t ((t', body) :: frames) =
      if t' = t then body :: bodies t frames else bodies t frames := by
  unfold bodies
  split <;> simp_all

@[simp]
theorem bodies_append (t : τ) (l l' : List (τ × List β)) :
    bodies t (l ++ l') = bodies t l ++ bodies t l' := by
  simp [bodies]

@[simp]
theorem bodies_map (t t' : τ) {γ : Type} (body : γ → List β) (l : List γ) :
    bodies t (l.map fun x ↦ (t', body x)) = if t' = t then l.map body else [] := by
  unfold bodies
  split
  next h => simp [h, filter_map, Function.comp_def]
  next h => simp [h, filter_map, Function.comp_def]

end Bodies

end MiLsp.Library.Frames
