import Mathlib.Order.Nat

namespace MiLsp.SelfUpdate

open Option

/-- What the pattern takes out of a text. No identifiers stand for no pre-release. -/
structure Semver where
  major : List Char
  minor : List Char
  patch : List Char
  pre : List (List Char)
deriving DecidableEq

def isDigit (c : Char) : Bool := '0' ≤ c && c ≤ '9'

def isIdentifierChar (c : Char) : Bool :=
  isDigit c || 'A' ≤ c && c ≤ 'Z' || 'a' ≤ c && c ≤ 'z' || c = '-'

variable (s : List Char)

def isNumber : Bool :=
  s = ['0'] || s.all isDigit && s.head?.any (· ≠ '0')

def cutAt (c : Char) (s : List Char) : List Char × Option (List Char) :=
  (s.takeWhile (· ≠ c), if c ∈ s then some ((s.dropWhile (· ≠ c)).drop 1) else none)

def identifiers : Option (List (List Char)) :=
  let parts := s.splitOn '.'
  if parts.all fun part ↦ part ≠ [] && part.all isIdentifierChar then some parts else none

def coreNumbers : Option (List Char × List Char × List Char) :=
  match (if s.head? = some 'v' then s.drop 1 else s).splitOn '.' with
  | [major, minor, patch] =>
    if isNumber major && isNumber minor && isNumber patch then some (major, minor, patch) else none
  | _ => none

/-- Three numbers, a pre-release after a dash and a build after a plus sign. -/
def semverPattern (s : String) : Option Semver := do
  let (front, build) := cutAt '+' s.toList
  let (core, pre) := cutAt '-' front
  let (major, minor, patch) ← coreNumbers core
  let pre ← match pre with
    | none => some []
    | some pre => identifiers pre
  match build with
  | none => pure ()
  | some build => let _ ← identifiers build
  some { major, minor, patch, pre }

/-- The pattern for reported versions, which is less strict about identifiers. -/
def txSemver (s : String) : Bool :=
  let (front, build) := cutAt '+' s.toList
  let (core, pre) := cutAt '-' front
  let loose (part : List Char) : Bool := part ≠ [] && part.all fun c ↦ isIdentifierChar c || c = '.'
  (coreNumbers core).isSome && pre.all loose && build.all loose

def numeric : Bool := s ≠ [] && s.all isDigit

def compareText (a b : List Char) : Ordering := List.compareLex compare a b

def compareNumber (a b : List Char) : Ordering :=
  if a.length < b.length then .lt
  else if b.length < a.length then .gt
  else compareText a b

def Semver.valid (v : Semver) : Bool :=
  v.pre.all fun p ↦ !(numeric p && decide (1 < p.length) && decide (p.head? = some '0'))

def comparePre : List (List Char) → List (List Char) → Ordering
  | p :: ps, q :: qs =>
    if p = q then comparePre ps qs
    else if numeric p && numeric q then compareNumber p q
    else if numeric p then .lt
    else if numeric q then .gt
    else compareText p q
  | ps, qs => if ps.length < qs.length then .lt else .gt

def Semver.compare (x y : Semver) : Ordering :=
  if compareNumber x.major y.major ≠ .eq then compareNumber x.major y.major
  else if compareNumber x.minor y.minor ≠ .eq then compareNumber x.minor y.minor
  else if compareNumber x.patch y.patch ≠ .eq then compareNumber x.patch y.patch
  else if x.pre = y.pre then .eq
  else if x.pre = [] then .gt
  else if y.pre = [] then .lt
  else comparePre x.pre y.pre

def compareVersions (a b : String) : Option Ordering := do
  let x ← semverPattern a
  let y ← semverPattern b
  if x.valid && y.valid then some (x.compare y) else none

section Order

theorem transCmp_comap {α β : Type} {cmp : β → β → Ordering} [Std.TransCmp cmp] (f : α → β) :
    Std.TransCmp fun a b ↦ cmp (f a) (f b) where
  eq_swap := Std.OrientedCmp.eq_swap
  isLE_trans := Std.TransCmp.isLE_trans

instance : Std.TransCmp compareText := inferInstanceAs (Std.TransCmp (List.compareLex compare))

instance : Std.LawfulEqCmp compareText :=
  inferInstanceAs (Std.LawfulEqCmp (List.compareLex compare))

/-- Numbers come before other identifiers, short numbers before long ones. -/
def identifierRank (p : List Char) : ℕ := if numeric p then p.length else 0

def identifierKind (p : List Char) : ℕ := if numeric p then 0 else 1

def compareIdentifier : List Char → List Char → Ordering :=
  compareLex (compareOn identifierKind) (compareLex (compareOn identifierRank) compareText)

instance : Std.TransCmp compareIdentifier :=
  inferInstanceAs (Std.TransCmp (compareLex _ (compareLex _ _)))

theorem compareIdentifier_eq {p q : List Char} (h : compareIdentifier p q = .eq) : p = q := by
  rw [compareIdentifier, compareLex_eq_eq, compareLex_eq_eq] at h
  exact Std.LawfulEqCmp.eq_of_compare h.2.2

theorem compareNumber_eq : compareNumber = compareLex (compareOn List.length) compareText := by
  funext a b
  rw [compareNumber, compareLex, compareOn]
  rcases Nat.lt_trichotomy a.length b.length with h | h | h
  · rw [if_pos h, Nat.compare_eq_lt.mpr h]
    rfl
  · rw [if_neg h.not_lt, if_neg h.symm.not_lt, Nat.compare_eq_eq.mpr h]
    rfl
  · rw [if_neg h.not_gt, if_pos h, Nat.compare_eq_gt.mpr h]
    rfl

instance : Std.TransCmp compareNumber := by
  rw [compareNumber_eq]
  infer_instance

theorem compareIdentifier_of_ne {p q : List Char} :
    compareIdentifier p q =
      if numeric p && numeric q then compareNumber p q
      else if numeric p then .lt
      else if numeric q then .gt
      else compareText p q := by
  rw [compareNumber_eq]
  cases hp : numeric p <;> cases hq : numeric q <;>
    simp [compareIdentifier, compareLex, compareOn, identifierKind, identifierRank, hp, hq] <;> rfl

theorem comparePre_eq {ps qs : List (List Char)} (h : ps ≠ qs) :
    comparePre ps qs = List.compareLex compareIdentifier ps qs := by
  induction ps generalizing qs with
  | nil =>
    cases qs with
    | nil => exact absurd rfl h
    | cons q qs => rfl
  | cons p ps ih =>
    cases qs with
    | nil => rfl
    | cons q qs =>
      rw [comparePre, List.compareLex_cons_cons]
      by_cases hpq : p = q
      · have hrest : ps ≠ qs := by
          rintro rfl
          exact h (by rw [hpq])
        have hself : compareIdentifier q q = .eq := Std.ReflCmp.compare_self
        rw [if_pos hpq, ih hrest, hpq, hself, Ordering.eq_then]
      · have hne : compareIdentifier p q ≠ .eq := fun heq ↦ hpq (compareIdentifier_eq heq)
        rw [if_neg hpq, ← compareIdentifier_of_ne]
        cases hcmp : compareIdentifier p q with
        | eq => exact absurd hcmp hne
        | lt => rfl
        | gt => rfl

def preRank (v : Semver) : ℕ := if v.pre = [] then 1 else 0

def compareKey : Semver → Semver → Ordering :=
  compareLex (fun x y ↦ compareNumber x.major y.major) <|
  compareLex (fun x y ↦ compareNumber x.minor y.minor) <|
  compareLex (fun x y ↦ compareNumber x.patch y.patch) <|
  compareLex (compareOn preRank) fun x y ↦ List.compareLex compareIdentifier x.pre y.pre

instance : Std.TransCmp compareKey := by
  have hmajor := @transCmp_comap _ _ compareNumber _ Semver.major
  have hminor := @transCmp_comap _ _ compareNumber _ Semver.minor
  have hpatch := @transCmp_comap _ _ compareNumber _ Semver.patch
  have hpre := @transCmp_comap _ _ (List.compareLex compareIdentifier) _ Semver.pre
  exact inferInstanceAs (Std.TransCmp (compareLex _ (compareLex _ (compareLex _ (compareLex _ _)))))

theorem ite_then (o o' : Ordering) : (if o ≠ .eq then o else o') = o.then o' := by
  cases o <;> rfl

theorem Semver.compare_eq (x y : Semver) : x.compare y = compareKey x y := by
  have hpre : (if x.pre = y.pre then .eq else if x.pre = [] then .gt else if y.pre = [] then .lt
      else comparePre x.pre y.pre) =
      (compareOn preRank x y).then (List.compareLex compareIdentifier x.pre y.pre) := by
    rw [compareOn, preRank, preRank]
    by_cases heq : x.pre = y.pre
    · have hself : List.compareLex compareIdentifier y.pre y.pre = .eq := Std.ReflCmp.compare_self
      rw [if_pos heq, heq, Nat.compare_eq_eq.mpr rfl, Ordering.eq_then, hself]
    · rw [if_neg heq]
      by_cases hx : x.pre = []
      · have hy : y.pre ≠ [] := fun hy ↦ heq (hx.trans hy.symm)
        rw [if_pos hx, if_pos hx, if_neg hy]
        rfl
      · rw [if_neg hx, if_neg hx]
        by_cases hy : y.pre = []
        · rw [if_pos hy, if_pos hy]
          rfl
        · rw [if_neg hy, if_neg hy, comparePre_eq heq]
          rfl
  rw [Semver.compare, ite_then, ite_then, ite_then, hpre]
  rfl

theorem compareVersions_gt_trans {a b c : String} (hab : compareVersions a b = some .gt)
    (hbc : compareVersions b c = some .gt) : compareVersions a c = some .gt := by
  simp only [compareVersions, bind_eq_bind, bind_eq_some_iff] at hab hbc ⊢
  obtain ⟨x, hx, y, hy, hxy⟩ := hab
  obtain ⟨y', hy', z, hz, hyz⟩ := hbc
  obtain rfl : y = y' := Option.some.inj (hy.symm.trans hy')
  simp only [ite_none_right_eq_some, some_inj, Bool.and_eq_true, Semver.compare_eq] at hxy hyz ⊢
  exact ⟨x, hx, z, hz, ⟨hxy.1.1, hyz.1.2⟩, Std.TransCmp.gt_trans hxy.2 hyz.2⟩

end Order

end MiLsp.SelfUpdate
