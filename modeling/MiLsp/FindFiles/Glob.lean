import Mathlib.Data.List.Forall2

namespace MiLsp.FindFiles

open List

abbrev Segment := List Char

def doubleStar : Segment := ['*', '*']

/-- A pair of positions enters `seen` when its evaluation begins, the last one first. -/
structure Search where
  seen : List (ℕ × ℕ)
  memo : ℕ × ℕ → Bool

def Search.enter (s : Search) (x : ℕ × ℕ) : Search := { s with seen := x :: s.seen }

def Search.note (x : ℕ × ℕ) (found : Bool × Search) : Bool × Search :=
  (found.1, { found.2 with memo := Function.update found.2.memo x found.1 })

variable (glob : Segment → Segment → Bool)

/-- The search at positions `i` and `j`, where these segments are left. -/
def visit (p n : List Segment) (i j : ℕ) (s : Search) : Bool × Search :=
  if (i, j) ∈ s.seen then (s.memo (i, j), s)
  else
    Search.note (i, j) (match p, n with
      | [], n => (n.isEmpty, s.enter (i, j))
      | seg :: p, [] =>
        if seg = doubleStar then visit p [] (i + 1) j (s.enter (i, j)) else (false, s.enter (i, j))
      | seg :: p, name :: n =>
        if seg = doubleStar then
          let skipped := visit p (name :: n) (i + 1) j (s.enter (i, j))
          if skipped.1 then skipped else visit (seg :: p) n i (j + 1) skipped.2
        else if glob seg name then visit p n (i + 1) (j + 1) (s.enter (i, j))
        else (false, s.enter (i, j)))
termination_by p.length + n.length

variable (pattern name : List Char)

def runGlob : Bool × Search :=
  visit glob (pattern.splitOn '/') (name.splitOn '/') 0 0 ⟨[], fun _ ↦ false⟩

def fileGlobMatch : Bool := (runGlob glob pattern name).1

/-- One part of the path for each segment of the pattern: any for a `**`, else a matching segment.
-/
def Globbed (pattern name : List Segment) : Prop :=
  ∃ parts, parts.flatten = name ∧
    Forall₂ (fun p part ↦ p = doubleStar ∨ ∃ n, part = [n] ∧ glob p n = true) pattern parts

section Globbed

variable {glob} {p : Segment} {pattern name : List Segment}

theorem globbed_nil : Globbed glob [] name ↔ name = [] := by
  constructor
  · rintro ⟨-, rfl, _ | _⟩
    rfl
  · rintro rfl
    exact ⟨[], rfl, .nil⟩

theorem globbed_doubleStar_nil :
    Globbed glob (doubleStar :: pattern) [] ↔ Globbed glob pattern [] := by
  constructor
  · rintro ⟨-, hflat, _ | ⟨-, hparts⟩⟩
    exact ⟨_, (append_eq_nil_iff.mp hflat).2, hparts⟩
  · rintro ⟨parts, hflat, hparts⟩
    exact ⟨[] :: parts, hflat, .cons (.inl rfl) hparts⟩

theorem globbed_doubleStar_cons {n : Segment} :
    Globbed glob (doubleStar :: pattern) (n :: name) ↔
      Globbed glob pattern (n :: name) ∨ Globbed glob (doubleStar :: pattern) name := by
  constructor
  · rintro ⟨-, hflat, _ | @⟨_, part, _, parts, -, hparts⟩⟩
    cases part with
    | nil => exact .inl ⟨parts, hflat, hparts⟩
    | cons x part => exact .inr ⟨part :: parts, (List.cons.inj hflat).2, .cons (.inl rfl) hparts⟩
  · rintro (⟨parts, hflat, hparts⟩ | ⟨-, hflat, _ | @⟨_, part, _, parts, -, hparts⟩⟩)
    · exact ⟨[] :: parts, hflat, .cons (.inl rfl) hparts⟩
    · exact ⟨(n :: part) :: parts, congrArg (n :: ·) hflat, .cons (.inl rfl) hparts⟩

theorem not_globbed_cons_nil (hp : p ≠ doubleStar) : ¬Globbed glob (p :: pattern) [] := by
  rintro ⟨-, hflat, _ | ⟨hstar | ⟨n, rfl, -⟩, -⟩⟩
  · exact hp hstar
  · cases hflat

theorem globbed_cons_cons {n : Segment} (hp : p ≠ doubleStar) :
    Globbed glob (p :: pattern) (n :: name) ↔ glob p n = true ∧ Globbed glob pattern name := by
  constructor
  · rintro ⟨-, hflat, _ | ⟨hstar | ⟨m, rfl, hm⟩, hparts⟩⟩
    · exact absurd hstar hp
    · obtain ⟨rfl, htail⟩ := List.cons.inj hflat
      exact ⟨hm, _, htail, hparts⟩
  · rintro ⟨hglob, parts, hflat, hparts⟩
    exact ⟨[n] :: parts, congrArg (n :: ·) hflat, .cons (.inr ⟨n, rfl, hglob⟩) hparts⟩

end Globbed

/-- A part of the search keeps what was noted, and evaluates pairs once and rightly. -/
structure Settles (spec : ℕ × ℕ → Prop) (s s' : Search) : Prop where
  nodup : s.seen.Nodup → s'.seen.Nodup
  kept : ∀ x ∈ s.seen, x ∈ s'.seen ∧ s'.memo x = s.memo x
  right : ∀ x ∈ s'.seen, x ∉ s.seen → (s'.memo x = true ↔ spec x)

def Known (spec : ℕ × ℕ → Prop) (k : ℕ) (s : Search) : Prop :=
  ∀ x ∈ s.seen, k ≤ x.1 + x.2 → (s.memo x = true ↔ spec x)

section Settles

variable {spec : ℕ × ℕ → Prop} {s s' s'' : Search} {i j k : ℕ}

theorem Settles.refl (s : Search) : Settles spec s s :=
  ⟨fun h ↦ h, fun _ hx ↦ ⟨hx, rfl⟩, fun _ hx hnew ↦ absurd hx hnew⟩

theorem Settles.trans (h : Settles spec s s') (h' : Settles spec s' s'') : Settles spec s s'' where
  nodup hs := h'.nodup (h.nodup hs)
  kept x hx := by
    obtain ⟨hx', hmemo⟩ := h.kept x hx
    exact ⟨(h'.kept x hx').1, (h'.kept x hx').2.trans hmemo⟩
  right x hx hnew := by
    by_cases hx' : x ∈ s'.seen
    · rw [(h'.kept x hx').2]
      exact h.right x hx' hnew
    · exact h'.right x hx hx'

theorem Settles.known (h : Settles spec s s') (hs : Known spec k s) : Known spec k s' := by
  intro x hx hk
  by_cases hx' : x ∈ s.seen
  · rw [(h.kept x hx').2]
    exact hs x hx' hk
  · exact h.right x hx hx'

theorem Known.enter (hs : Known spec (i + j) s) (hk : i + j < k) :
    Known spec k (s.enter (i, j)) := by
  intro x hx hle
  rcases mem_cons.mp hx with rfl | hx
  · exact absurd hle (Nat.not_le.mpr hk)
  · exact hs x hx (by omega)

theorem Settles.note {found : Bool × Search} (hnew : (i, j) ∉ s.seen)
    (h : (found.1 = true ↔ spec (i, j)) ∧ Settles spec (s.enter (i, j)) found.2) :
    ((Search.note (i, j) found).1 = true ↔ spec (i, j)) ∧
      Settles spec s (Search.note (i, j) found).2 := by
  obtain ⟨hok, h⟩ := h
  have hother : ∀ x ≠ (i, j), (Search.note (i, j) found).2.memo x = found.2.memo x := by
    intro x hx
    simp [Search.note, hx]
  refine ⟨hok, fun hs ↦ h.nodup (nodup_cons.mpr ⟨hnew, hs⟩), fun x hx ↦ ?_, fun x hx hnot ↦ ?_⟩
  · obtain ⟨hx', hmemo⟩ := h.kept x (mem_cons_of_mem _ hx)
    exact ⟨hx', (hother x fun heq ↦ hnew (heq ▸ hx)).trans hmemo⟩
  · by_cases heq : x = (i, j)
    · subst heq
      simpa [Search.note] using hok
    · rw [hother x heq]
      exact h.right x hx (by simp [Search.enter, heq, hnot])

end Settles

section Search

variable {glob} {P N : List Segment}

def Found (glob : Segment → Segment → Bool) (P N : List Segment) (x : ℕ × ℕ) : Prop :=
  Globbed glob (P.drop x.1) (N.drop x.2)

-- The induction is on the segments that are left: a call deeper down stands further on, so what it
-- finds in the memo is the memo of a finished evaluation.
theorem visit_spec {p n : List Segment} {i j : ℕ} {s : Search} (hp : P.drop i = p)
    (hn : N.drop j = n) (hs : Known (Found glob P N) (i + j) s) :
    ((visit glob p n i j s).1 = true ↔ Found glob P N (i, j)) ∧
      Settles (Found glob P N) s (visit glob p n i j s).2 := by
  induction hk : p.length + n.length using Nat.strongRecOn generalizing p n i j s with
  | ind k ih =>
    subst hk
    have htail : ∀ {l : List Segment} {seg : Segment} {rest : List Segment} {i : ℕ},
        l.drop i = seg :: rest → l.drop (i + 1) = rest := by
      intro l seg rest i h
      rw [← drop_drop, h]
      rfl
    have hspec : Found glob P N (i, j) ↔ Globbed glob p n := by rw [Found, hp, hn]
    unfold visit
    split_ifs with hseen
    · exact ⟨hs _ hseen (Nat.le_refl _), .refl s⟩
    · have henter : ∀ {k}, i + j < k → Known (Found glob P N) k (s.enter (i, j)) := hs.enter
      refine Settles.note hseen ?_
      rw [hspec]
      cases p with
      | nil => exact ⟨by simp [globbed_nil], .refl _⟩
      | cons seg p =>
        have hp' := htail hp
        cases n with
        | nil =>
          dsimp only
          by_cases hseg : seg = doubleStar
          · subst hseg
            have hrest := ih _ (by simp) hp' hn (henter (by omega)) rfl
            rw [if_pos rfl, globbed_doubleStar_nil]
            rwa [Found, hp', hn] at hrest
          · rw [if_neg hseg]
            exact ⟨by simp [not_globbed_cons_nil hseg], .refl _⟩
        | cons name n =>
          have hn' := htail hn
          dsimp only
          by_cases hseg : seg = doubleStar
          · subst hseg
            obtain ⟨hskip, hsettles⟩ := ih _ (by simp) hp' hn (henter (by omega)) rfl
            rw [Found, hp', hn] at hskip
            rw [if_pos rfl, globbed_doubleStar_cons, ← hskip]
            split_ifs with hskipped
            · exact ⟨by simp [hskipped], hsettles⟩
            · obtain ⟨hmore, hsettles'⟩ :=
                ih _ (by simp) hp hn' (hsettles.known (henter (by omega))) rfl
              rw [Found, hp, hn'] at hmore
              exact ⟨by simp [hmore, hskipped], hsettles.trans hsettles'⟩
          · rw [if_neg hseg, globbed_cons_cons hseg]
            split_ifs with hglob
            · obtain ⟨hrest, hsettles⟩ := ih _ (by simp; omega) hp' hn' (henter (by omega)) rfl
              rw [Found, hp', hn'] at hrest
              exact ⟨by simp [hrest, hglob], hsettles⟩
            · exact ⟨by simp [hglob], .refl _⟩

end Search

/-- The search is segment-wise globbing, and evaluates no pair of positions twice. -/
theorem fileGlobMatch_iff (pattern name : List Char) :
    (fileGlobMatch glob pattern name = true ↔
        Globbed glob (pattern.splitOn '/') (name.splitOn '/')) ∧
      (runGlob glob pattern name).2.seen.Nodup := by
  have hs : Known (Found glob (pattern.splitOn '/') (name.splitOn '/')) (0 + 0)
      ⟨[], fun _ ↦ false⟩ := fun _ hx ↦ absurd hx not_mem_nil
  obtain ⟨hfound, hsettles⟩ := visit_spec rfl rfl hs
  exact ⟨hfound, hsettles.nodup nodup_nil⟩

end MiLsp.FindFiles
