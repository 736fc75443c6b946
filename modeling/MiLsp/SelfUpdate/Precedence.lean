import Mathlib.Algebra.Ring.Nat
import Mathlib.Order.Lattice
import MiLsp.Library.Paths
import MiLsp.SelfUpdate.Version

namespace MiLsp.SelfUpdate

open Library List Semver

section Numbers

def digitValue (c : Char) : ℕ := c.toNat - '0'.toNat

def numberValue : List Char → ℕ
  | [] => 0
  | c :: rest => digitValue c * 10 ^ rest.length + numberValue rest

variable {c d : Char} {a b : List Char}

theorem isDigit_iff : isDigit c = true ↔ 48 ≤ c.toNat ∧ c.toNat ≤ 57 := by
  rw [isDigit, Bool.and_eq_true, decide_eq_true_eq, decide_eq_true_eq]
  rfl

theorem compare_congr {α β : Type} [LinearOrder α] [LinearOrder β] {x y : α} {v w : β}
    (hlt : x < y ↔ v < w) (hgt : y < x ↔ w < v) : compare x y = compare v w := by
  rcases lt_trichotomy x y with h | h | h
  · rw [compare_lt_iff_lt.mpr h, compare_lt_iff_lt.mpr (hlt.mp h)]
  · have hvw : v = w := le_antisymm (not_lt.mp fun hw ↦ (hgt.mpr hw).ne h.symm)
      (not_lt.mp fun hv ↦ (hlt.mpr hv).ne h)
    rw [compare_eq_iff_eq.mpr h, compare_eq_iff_eq.mpr hvw]
  · rw [compare_gt_iff_gt.mpr h, compare_gt_iff_gt.mpr (hgt.mp h)]

theorem compare_digit (hc : isDigit c = true) (hd : isDigit d = true) :
    compare c d = compare (digitValue c) (digitValue d) := by
  rw [isDigit_iff] at hc hd
  have hzero : '0'.toNat = 48 := rfl
  have hlt : c < d ↔ digitValue c < digitValue d := by
    change c.toNat < d.toNat ↔ _
    rw [digitValue, digitValue]
    omega
  have heq : c = d ↔ digitValue c = digitValue d := by
    rw [← Char.toNat_inj, digitValue, digitValue]
    omega
  change compareOfLessAndEq c d = compareOfLessAndEq (digitValue c) (digitValue d)
  simp only [compareOfLessAndEq, hlt, heq]

theorem numberValue_lt (h : a.all isDigit = true) : numberValue a < 10 ^ a.length := by
  induction a with
  | nil => exact Nat.one_pos
  | cons c a ih =>
    rw [all_cons, Bool.and_eq_true, isDigit_iff] at h
    have hlt := ih h.2
    have hdigit : digitValue c ≤ 9 := by
      have hzero : '0'.toNat = 48 := rfl
      rw [digitValue]
      omega
    have hmul := Nat.mul_le_mul_right (10 ^ a.length) hdigit
    rw [numberValue, length_cons, Nat.pow_succ]
    omega

/-- The first digit that differs decides: those after it add up to less than it stands for. -/
theorem compare_cons_value {m n v w p : ℕ} (hv : v < p) (hw : w < p) :
    compare (m * p + v) (n * p + w) = (compare m n).then (compare v w) := by
  have hstep : ∀ {m n : ℕ}, m < n → m * p + p ≤ n * p := by
    intro m n hlt
    have hmul := Nat.mul_le_mul_right p (Nat.succ_le_of_lt hlt)
    rwa [Nat.succ_mul] at hmul
  rcases lt_trichotomy m n with h | h | h
  · have hle := hstep h
    rw [compare_lt_iff_lt.mpr h, Ordering.lt_then, compare_lt_iff_lt]
    omega
  · rw [h, compare_eq_iff_eq.mpr (rfl : n = n), Ordering.eq_then]
    refine compare_congr ?_ ?_ <;> omega
  · have hle := hstep h
    rw [compare_gt_iff_gt.mpr h, Ordering.gt_then, compare_gt_iff_gt]
    omega

theorem compareText_value (ha : a.all isDigit = true) (hb : b.all isDigit = true)
    (hlength : a.length = b.length) :
    compareText a b = compare (numberValue a) (numberValue b) := by
  induction a generalizing b with
  | nil =>
    obtain rfl := length_eq_zero_iff.mp hlength.symm
    rfl
  | cons c a ih =>
    cases b with
    | nil => cases hlength
    | cons d b =>
      rw [all_cons, Bool.and_eq_true] at ha hb
      have hlength' : a.length = b.length := Nat.succ.inj hlength
      have hvalue := numberValue_lt ha.2
      rw [hlength'] at hvalue
      rw [numberValue, numberValue, hlength', compare_cons_value hvalue (numberValue_lt hb.2),
        ← ih ha.2 hb.2 hlength', ← compare_digit ha.1 hb.1]
      exact List.compareLex_cons_cons

theorem isNumber_iff : isNumber a = true ↔
    a.all isDigit = true ∧ (a = ['0'] ∨ ∃ c rest, a = c :: rest ∧ c ≠ '0') := by
  rw [isNumber, Bool.or_eq_true, Bool.and_eq_true, decide_eq_true_eq]
  cases a with
  | nil => simp
  | cons c rest =>
    simp only [head?_cons, Option.any_some, decide_eq_true_eq, List.cons.injEq]
    constructor
    · rintro (⟨rfl, rfl⟩ | ⟨hdigits, hc⟩)
      · exact ⟨by decide, .inl ⟨rfl, rfl⟩⟩
      · exact ⟨hdigits, .inr ⟨c, rest, ⟨rfl, rfl⟩, hc⟩⟩
    · rintro ⟨hdigits, hzero | ⟨c', rest', ⟨rfl, rfl⟩, hc⟩⟩
      · exact .inl hzero
      · exact .inr ⟨hdigits, hc⟩

theorem numberValue_lt_of_length (ha : isNumber a = true) (hb : isNumber b = true)
    (h : a.length < b.length) : numberValue a < numberValue b := by
  rw [isNumber_iff] at ha hb
  refine Nat.lt_of_lt_of_le (numberValue_lt ha.1) ?_
  obtain ⟨hdigits, rfl | ⟨c, rest, rfl, hc⟩⟩ := hb
  · obtain ⟨-, rfl | ⟨c, rest, rfl, -⟩⟩ := ha
    · exact absurd h (Nat.lt_irrefl _)
    · simp at h
  · rw [all_cons, Bool.and_eq_true, isDigit_iff] at hdigits
    have hpos : 1 ≤ digitValue c := by
      have hne : c.toNat ≠ 48 := fun heq ↦ hc (Char.toNat_inj.mp heq)
      have hzero : '0'.toNat = 48 := rfl
      rw [digitValue]
      omega
    have hmul := Nat.mul_le_mul_right (10 ^ rest.length) hpos
    have hpow : 10 ^ a.length ≤ 10 ^ rest.length :=
      Nat.pow_le_pow_right (by decide) (Nat.le_of_lt_succ h)
    rw [numberValue]
    omega

theorem compareNumber_value (ha : isNumber a = true) (hb : isNumber b = true) :
    compareNumber a b = compare (numberValue a) (numberValue b) := by
  rw [compareNumber]
  split_ifs with hlt hgt
  · exact (compare_lt_iff_lt.mpr (numberValue_lt_of_length ha hb hlt)).symm
  · exact (compare_gt_iff_gt.mpr (numberValue_lt_of_length hb ha hgt)).symm
  · exact compareText_value (isNumber_iff.mp ha).1 (isNumber_iff.mp hb).1 (by omega)

end Numbers

section Grammar

def IsIdentifier (p : List Char) : Prop := p ≠ [] ∧ p.all isIdentifierChar = true

/-- A part of a version: its sign and the identifiers, with dots between them. -/
def signed (sign : Char) (parts : List (List Char)) : List Char :=
  if parts = [] then [] else sign :: ['.'].intercalate parts

/-- After a `v` or not, three numbers, pre-release identifiers, in digits without leading zeros, and
those of some build. -/
structure IsVersion (s : String) (x : Semver) : Prop where
  numbers : ∀ n ∈ [x.major, x.minor, x.patch], isNumber n = true
  pre : ∀ p ∈ x.pre, IsIdentifier p ∧ (numeric p = true → isNumber p = true)
  spelled : ∃ (v : Bool) (build : List (List Char)), (∀ p ∈ build, IsIdentifier p) ∧
    s.toList = (if v then ['v'] else []) ++ ['.'].intercalate [x.major, x.minor, x.patch] ++
      signed '-' x.pre ++ signed '+' build

variable {c : Char} {s front : List Char} {rest : Option (List Char)} {parts : List (List Char)}
  {x : Semver} {n : List Char}

theorem cutAt_append (hfront : c ∉ front) :
    cutAt c (front ++ (rest.map (c :: ·)).getD []) = (front, rest) := by
  have hall : ∀ d ∈ front, decide (d ≠ c) = true := by
    intro d hd
    have hne : d ≠ c := fun heq ↦ hfront (heq ▸ hd)
    simpa using hne
  rw [cutAt, takeWhile_append_of_pos hall, dropWhile_append_of_pos hall]
  cases rest with
  | none => simp [hfront]
  | some back => simp

theorem cutAt_eq_iff : cutAt c s = (front, rest) ↔
    c ∉ front ∧ s = front ++ (rest.map (c :: ·)).getD [] := by
  refine ⟨fun h ↦ ?_, fun h ↦ h.2 ▸ cutAt_append h.1⟩
  have hcut : ∃ (front : List Char) (rest : Option (List Char)),
      c ∉ front ∧ s = front ++ (rest.map (c :: ·)).getD [] := by
    by_cases hmem : c ∈ s
    · obtain ⟨front, back, heq, hfront⟩ := eq_append_cons_of_mem hmem
      exact ⟨front, some back, hfront, heq⟩
    · exact ⟨s, none, hmem, (append_nil s).symm⟩
  obtain ⟨front', rest', hfront, rfl⟩ := hcut
  rw [cutAt_append hfront, Prod.mk.injEq] at h
  obtain ⟨rfl, rfl⟩ := h
  exact ⟨hfront, rfl⟩

theorem identifiers_eq_some : identifiers s = some parts ↔
    parts ≠ [] ∧ (∀ p ∈ parts, IsIdentifier p) ∧ s = ['.'].intercalate parts := by
  have hall : ∀ l : List (List Char), (l.all fun part ↦ part ≠ [] && part.all isIdentifierChar) =
      true ↔ ∀ p ∈ l, IsIdentifier p := by
    intro l
    simp only [all_eq_true, Bool.and_eq_true, decide_eq_true_eq, IsIdentifier]
  rw [identifiers]
  simp only [Option.ite_none_right_eq_some, Option.some_inj, hall]
  constructor
  · rintro ⟨hparts, rfl⟩
    exact ⟨splitOn_ne_nil _ _, hparts, (intercalate_splitOn _).symm⟩
  · rintro ⟨hne, hparts, rfl⟩
    have hdots : ∀ p ∈ parts, '.' ∉ p := by
      intro p hp hdot
      exact absurd (all_eq_true.mp (hparts p hp).2 '.' hdot) (by decide)
    rw [splitOn_intercalate _ hdots hne]
    exact ⟨hparts, rfl⟩

theorem dot_not_mem_number (h : isNumber n = true) : '.' ∉ n :=
  fun hdot ↦ absurd (all_eq_true.mp (isNumber_iff.mp h).1 '.' hdot) (by decide)

theorem head_number (h : isNumber n = true) : n.head? ≠ some 'v' := by
  intro hhead
  exact absurd (all_eq_true.mp (isNumber_iff.mp h).1 'v' (mem_of_head? hhead)) (by decide)

theorem coreNumbers_eq_some {major minor patch : List Char} :
    coreNumbers s = some (major, minor, patch) ↔
      (∀ n ∈ [major, minor, patch], isNumber n = true) ∧
        ∃ v : Bool, s = (if v then ['v'] else []) ++ ['.'].intercalate [major, minor, patch] := by
  constructor
  · intro h
    rw [coreNumbers] at h
    split at h
    · rename_i major' minor' patch' hsplit
      rw [Option.ite_none_right_eq_some, Bool.and_eq_true, Bool.and_eq_true, Option.some_inj,
        Prod.mk.injEq, Prod.mk.injEq] at h
      obtain ⟨⟨⟨hmajor, hminor⟩, hpatch⟩, rfl, rfl, rfl⟩ := h
      refine ⟨by simp [hmajor, hminor, hpatch], decide (s.head? = some 'v'), ?_⟩
      rw [← hsplit, intercalate_splitOn]
      cases s with
      | nil => rfl
      | cons c s =>
        by_cases hc : c = 'v'
        · simp [hc]
        · simp [hc]
    · cases h
  · rintro ⟨hnumbers, v, rfl⟩
    have hdots : ∀ n ∈ [major, minor, patch], '.' ∉ n :=
      fun n hn ↦ dot_not_mem_number (hnumbers n hn)
    have hhead : (['.'].intercalate [major, minor, patch]).head? ≠ some 'v' := by
      have hmajor := hnumbers major mem_cons_self
      cases major with
      | nil => cases hmajor
      | cons c rest => exact show some c ≠ some 'v' from head_number hmajor
    have hdrop : (if ((if v then ['v'] else []) ++ ['.'].intercalate [major, minor, patch]).head? =
          some 'v' then
        ((if v then ['v'] else []) ++ ['.'].intercalate [major, minor, patch]).drop 1
        else (if v then ['v'] else []) ++ ['.'].intercalate [major, minor, patch]) =
        ['.'].intercalate [major, minor, patch] := by
      cases v with
      | true => rfl
      | false => exact if_neg hhead
    rw [coreNumbers, hdrop, splitOn_intercalate _ hdots (cons_ne_nil _ _)]
    simp [hnumbers]

def readPart : Option (List Char) → Option (List (List Char))
  | none => some []
  | some part => identifiers part

def afterSign (parts : List (List Char)) : Option (List Char) :=
  if parts = [] then none else some (['.'].intercalate parts)

theorem signed_eq (sign : Char) (parts : List (List Char)) :
    signed sign parts = ((afterSign parts).map (sign :: ·)).getD [] := by
  rw [signed, afterSign]
  split_ifs <;> rfl

theorem readPart_eq_some : readPart rest = some parts ↔
    (∀ p ∈ parts, IsIdentifier p) ∧ rest = afterSign parts := by
  rw [afterSign]
  cases rest with
  | none =>
    rw [readPart, Option.some_inj]
    constructor
    · rintro rfl
      exact ⟨by simp, rfl⟩
    · rintro ⟨-, h⟩
      split_ifs at h with hparts
      exact hparts.symm
  | some part =>
    rw [readPart, identifiers_eq_some]
    constructor
    · rintro ⟨hne, hparts, rfl⟩
      exact ⟨hparts, (if_neg hne).symm⟩
    · rintro ⟨hparts, h⟩
      split_ifs at h with hne
      exact ⟨hne, hparts, Option.some.inj h⟩

theorem valid_iff : x.valid = true ↔ ∀ p ∈ x.pre, numeric p = true → isNumber p = true := by
  rw [valid, all_eq_true]
  refine forall₂_congr fun p _ ↦ ?_
  rw [isNumber_iff, numeric]
  cases p with
  | nil => simp
  | cons c rest =>
    cases hall : (c :: rest).all isDigit with
    | false => simp
    | true =>
      by_cases hc : c = '0'
      · cases rest <;> simp [hc]
      · simp [hc]

theorem sign_not_mem_core (h : ∀ n ∈ [x.major, x.minor, x.patch], isNumber n = true) (v : Bool)
    {sign : Char} (hsign : sign = '-' ∨ sign = '+') :
    sign ∉ (if v then ['v'] else []) ++ ['.'].intercalate [x.major, x.minor, x.patch] := by
  have hnot : isDigit sign = false ∧ sign ≠ '.' ∧ sign ≠ 'v' := by
    rcases hsign with rfl | rfl <;> decide
  rw [mem_append]
  rintro (hmem | hmem)
  · cases v with
    | true => exact hnot.2.2 (mem_singleton.mp hmem)
    | false => cases hmem
  · obtain ⟨n, hn, hmem⟩ := (mem_intercalate_iff hnot.2.1).mp hmem
    have hdigit := all_eq_true.mp (isNumber_iff.mp (h n hn)).1 sign hmem
    rw [hnot.1] at hdigit
    cases hdigit

theorem plus_not_mem_signed (h : ∀ p ∈ parts, IsIdentifier p) : '+' ∉ signed '-' parts := by
  rw [signed]
  split_ifs
  · exact not_mem_nil
  · rw [mem_cons]
    rintro (hmem | hmem)
    · cases hmem
    · obtain ⟨p, hp, hmem⟩ := (mem_intercalate_iff (by decide)).mp hmem
      exact absurd (all_eq_true.mp (h p hp).2 '+' hmem) (by decide)

theorem semverPattern_eq_some {s : String} {core front : List Char} {pre build : Option (List Char)}
    (hfront : cutAt '+' s.toList = (front, build)) (hcore : cutAt '-' front = (core, pre)) :
    semverPattern s = some x ↔
      coreNumbers core = some (x.major, x.minor, x.patch) ∧ readPart pre = some x.pre ∧
        ∃ parts, readPart build = some parts := by
  obtain ⟨major, minor, patch, ids⟩ := x
  simp only [semverPattern, hfront, hcore]
  cases coreNumbers core with
  | none => simp
  | some numbers =>
    obtain ⟨major', minor', patch'⟩ := numbers
    cases pre <;> cases build <;> simp [readPart, Option.bind_eq_some_iff, and_assoc]
    all_goals grind

theorem semverPattern_valid_iff {s : String} :
    semverPattern s = some x ∧ x.valid = true ↔ IsVersion s x := by
  rw [valid_iff]
  constructor
  · obtain ⟨front, build, hfront⟩ : ∃ front build, cutAt '+' s.toList = (front, build) :=
      ⟨_, _, rfl⟩
    obtain ⟨core, pre, hcore⟩ : ∃ core pre, cutAt '-' front = (core, pre) := ⟨_, _, rfl⟩
    rw [semverPattern_eq_some hfront hcore, coreNumbers_eq_some, readPart_eq_some]
    rintro ⟨⟨⟨hnumbers, v, rfl⟩, ⟨hpre, rfl⟩, parts, hparts⟩, hvalid⟩
    obtain ⟨hbuild, rfl⟩ := readPart_eq_some.mp hparts
    refine ⟨hnumbers, fun p hp ↦ ⟨hpre p hp, hvalid p hp⟩, v, parts, hbuild, ?_⟩
    rw [(cutAt_eq_iff.mp hfront).2, (cutAt_eq_iff.mp hcore).2, signed_eq, signed_eq]
  · rintro ⟨hnumbers, hpre, v, parts, hbuild, hspelled⟩
    have hpre' : ∀ p ∈ x.pre, IsIdentifier p := fun p hp ↦ (hpre p hp).1
    have hfront : cutAt '+' s.toList = ((if v then ['v'] else []) ++
        ['.'].intercalate [x.major, x.minor, x.patch] ++ signed '-' x.pre, afterSign parts) := by
      rw [hspelled, signed_eq '+']
      refine cutAt_append fun hmem ↦ ?_
      exact (mem_append.mp hmem).elim (sign_not_mem_core hnumbers v (.inr rfl))
        (plus_not_mem_signed hpre')
    have hcore := @cutAt_append '-' _ (afterSign x.pre)
      (sign_not_mem_core hnumbers v (.inl rfl))
    rw [← signed_eq] at hcore
    rw [semverPattern_eq_some hfront hcore, coreNumbers_eq_some, readPart_eq_some]
    exact ⟨⟨⟨hnumbers, v, rfl⟩, ⟨hpre', rfl⟩, parts, readPart_eq_some.mpr ⟨hbuild, rfl⟩⟩,
      fun p hp ↦ (hpre p hp).2⟩

end Grammar

section Precedence

inductive Identifier
  | number (n : ℕ)
  | text (s : List Char)

def Identifier.of (p : List Char) : Identifier :=
  if numeric p then .number (numberValue p) else .text p

def Identifier.compare : Identifier → Identifier → Ordering
  | number m, number n => Ord.compare m n
  | number _, text _ => .lt
  | text _, number _ => .gt
  | text s, text t => compareText s t

/-- A release comes after its pre-releases, told apart by the first different identifier or their
number. -/
def comparePreRelease : List Identifier → List Identifier → Ordering
  | [], [] => .eq
  | [], _ :: _ => .gt
  | _ :: _, [] => .lt
  | ps, qs => List.compareLex Identifier.compare ps qs

def Semver.precedence (x y : Semver) : Ordering :=
  (Ord.compare (numberValue x.major) (numberValue y.major)).then <|
  (Ord.compare (numberValue x.minor) (numberValue y.minor)).then <|
  (Ord.compare (numberValue x.patch) (numberValue y.patch)).then <|
  comparePreRelease (x.pre.map .of) (y.pre.map .of)

variable {a b : String} {x y : Semver} {p q : List Char} {ps qs : List (List Char)}

theorem compareIdentifier_precedence (hp : numeric p = true → isNumber p = true)
    (hq : numeric q = true → isNumber q = true) :
    compareIdentifier p q = (Identifier.of p).compare (Identifier.of q) := by
  rw [compareIdentifier_of_ne, Identifier.of, Identifier.of]
  cases hnp : numeric p <;> cases hnq : numeric q
  · rfl
  · rfl
  · rfl
  · exact compareNumber_value (hp hnp) (hq hnq)

theorem compareLex_precedence (hp : ∀ p ∈ ps, numeric p = true → isNumber p = true)
    (hq : ∀ q ∈ qs, numeric q = true → isNumber q = true) :
    List.compareLex compareIdentifier ps qs =
      List.compareLex Identifier.compare (ps.map .of) (qs.map .of) := by
  induction ps generalizing qs with
  | nil => cases qs <;> rfl
  | cons p ps ih =>
    cases qs with
    | nil => rfl
    | cons q qs =>
      rw [forall_mem_cons] at hp hq
      rw [List.map_cons, List.map_cons, List.compareLex_cons_cons, List.compareLex_cons_cons,
        compareIdentifier_precedence hp.1 hq.1, ih hp.2 hq.2]

theorem IsVersion.compare_eq (hx : IsVersion a x) (hy : IsVersion b y) :
    x.compare y = x.precedence y := by
  have hpre : (compareOn preRank x y).then (List.compareLex compareIdentifier x.pre y.pre) =
      comparePreRelease (x.pre.map .of) (y.pre.map .of) := by
    rw [compareLex_precedence (fun p hp ↦ (hx.pre p hp).2) fun q hq ↦ (hy.pre q hq).2, compareOn,
      preRank, preRank]
    cases x.pre <;> cases y.pre <;> rfl
  have hnumbers := hx.numbers
  have hnumbers' := hy.numbers
  simp only [forall_mem_cons] at hnumbers hnumbers'
  rw [Semver.compare_eq, compareKey, compareLex, compareLex, compareLex, compareLex, hpre,
    Semver.precedence, compareNumber_value hnumbers.1 hnumbers'.1,
    compareNumber_value hnumbers.2.1 hnumbers'.2.1,
    compareNumber_value hnumbers.2.2.1 hnumbers'.2.2.1]

theorem compareVersions_eq_some {o : Ordering} : compareVersions a b = some o ↔
    ∃ x y, IsVersion a x ∧ IsVersion b y ∧ x.compare y = o := by
  simp only [← semverPattern_valid_iff]
  rw [compareVersions]
  cases semverPattern a <;> cases semverPattern b <;> simp [and_assoc]

instance : Std.LawfulEqCmp compareIdentifier where
  compare_self := Std.ReflCmp.compare_self
  eq_of_compare := compareIdentifier_eq

theorem Semver.compare_eq_eq : x.compare y = .eq ↔ x = y := by
  constructor
  · intro h
    have hnumber : ∀ {p q : List Char}, compareNumber p q = .eq → p = q := by
      intro p q hpq
      rw [compareNumber_eq, compareLex_eq_eq] at hpq
      exact Std.LawfulEqCmp.eq_of_compare hpq.2
    rw [compare_eq, compareKey, compareLex_eq_eq, compareLex_eq_eq, compareLex_eq_eq,
      compareLex_eq_eq] at h
    obtain ⟨hmajor, hminor, hpatch, -, hpre⟩ := h
    have hpre' : x.pre = y.pre := Std.LawfulEqCmp.eq_of_compare hpre
    rw [Semver.mk.injEq]
    exact ⟨hnumber hmajor, hnumber hminor, hnumber hpatch, hpre'⟩
  · rintro rfl
    rw [compare_eq]
    exact Std.ReflCmp.compare_self

theorem compareVersions_of_isVersion (hx : IsVersion a x) (hy : IsVersion b y) :
    compareVersions a b = some (x.precedence y) :=
  compareVersions_eq_some.mpr ⟨x, y, hx, hy, hx.compare_eq hy⟩

theorem compareVersions_swap (a b : String) :
    compareVersions b a = (compareVersions a b).map .swap := by
  ext o
  rw [Option.map_eq_some_iff, compareVersions_eq_some]
  simp only [compareVersions_eq_some]
  constructor
  · rintro ⟨y, x, hy, hx, rfl⟩
    refine ⟨_, ⟨x, y, hx, hy, rfl⟩, ?_⟩
    rw [compare_eq, compare_eq]
    exact Std.OrientedCmp.eq_swap.symm
  · rintro ⟨-, ⟨x, y, hx, hy, rfl⟩, rfl⟩
    refine ⟨y, x, hy, hx, ?_⟩
    rw [compare_eq, compare_eq]
    exact Std.OrientedCmp.eq_swap

theorem IsVersion.unique (h : IsVersion a x) (h' : IsVersion a y) : x = y :=
  Option.some.inj ((semverPattern_valid_iff.mpr h).1.symm.trans (semverPattern_valid_iff.mpr h').1)

theorem compareVersions_trans {c : String} {o o' : Ordering} (hab : compareVersions a b = some o)
    (hbc : compareVersions b c = some o') (hle : o.isLE = true) (hle' : o'.isLE = true) :
    ∃ o'', compareVersions a c = some o'' ∧ o''.isLE = true := by
  obtain ⟨x, y, hx, hy, rfl⟩ := compareVersions_eq_some.mp hab
  obtain ⟨y', z, hy', hz, rfl⟩ := compareVersions_eq_some.mp hbc
  obtain rfl := hy.unique hy'
  refine ⟨_, compareVersions_eq_some.mpr ⟨x, z, hx, hz, rfl⟩, ?_⟩
  rw [compare_eq] at hle hle' ⊢
  exact Std.TransCmp.isLE_trans hle hle'

/-- Texts that both spell a version are compared by precedence, a total order blind to a `v` and to
a build. -/
theorem compareVersions_precedence :
    (∀ a b, (compareVersions a b).isSome = true ↔
      (∃ x, IsVersion a x) ∧ ∃ y, IsVersion b y) ∧
    (∀ a b x y, IsVersion a x → IsVersion b y →
      compareVersions a b = some (x.precedence y) ∧ (x.precedence y = .eq ↔ x = y)) ∧
    (∀ a b, compareVersions b a = (compareVersions a b).map .swap) ∧
    ∀ a b c o o', compareVersions a b = some o → compareVersions b c = some o' →
      o.isLE = true → o'.isLE = true →
      ∃ o'', compareVersions a c = some o'' ∧ o''.isLE = true := by
  refine ⟨fun a b ↦ ?_, fun a b x y hx hy ↦ ?_, compareVersions_swap, fun a b c o o' ↦ ?_⟩
  · rw [Option.isSome_iff_exists]
    constructor
    · rintro ⟨o, ho⟩
      obtain ⟨x, y, hx, hy, -⟩ := compareVersions_eq_some.mp ho
      exact ⟨⟨x, hx⟩, y, hy⟩
    · rintro ⟨⟨x, hx⟩, y, hy⟩
      exact ⟨_, compareVersions_of_isVersion hx hy⟩
  · refine ⟨compareVersions_of_isVersion hx hy, ?_⟩
    rw [← hx.compare_eq hy]
    exact Semver.compare_eq_eq
  · exact compareVersions_trans

def sampleCandidate (number : List Char) : Semver := ⟨['1'], ['2'], ['0'], [['r', 'c'], number]⟩

theorem candidates_by_value : compareVersions "v1.2.0-rc.9" "1.2.0-rc.10+b7" = some .lt := by
  have hnine : IsVersion "v1.2.0-rc.9" (sampleCandidate ['9']) :=
    semverPattern_valid_iff.mp (by decide +kernel)
  have hten : IsVersion "1.2.0-rc.10+b7" (sampleCandidate ['1', '0']) :=
    semverPattern_valid_iff.mp (by decide +kernel)
  rw [(compareVersions_precedence.2.1 _ _ _ _ hnine hten).1]
  decide +kernel

end Precedence

end MiLsp.SelfUpdate
