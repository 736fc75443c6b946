import Mathlib.Data.Nat.Digits.Defs

namespace MiLsp.Library.Json

open List

abbrev Members := List (String × ℕ)

/-- An array of elements of the given lengths, or an object of such members. -/
def listLength (parts : List ℕ) : ℕ := 2 + parts.sum + (parts.length - 1)

def weight (parts : List ℕ) : ℕ := parts.sum + parts.length

theorem weight_append (l m : List ℕ) : weight (l ++ m) = weight l + weight m := by
  simp only [weight, sum_append, length_append]
  omega

theorem weight_cons (n : ℕ) (l : List ℕ) : weight (n :: l) = n + 1 + weight l := by
  simp only [weight, sum_cons, length_cons]
  omega

theorem listLength_le_append (l m : List ℕ) : listLength l ≤ listLength (l ++ m) := by
  simp only [listLength, sum_append, length_append]
  omega

theorem listLength_eq {l : List ℕ} (h : l ≠ []) : listLength l = 1 + weight l := by
  have hpos := length_pos_iff.mpr h
  simp only [listLength, weight]
  omega

section Text

variable (charLength : Char → ℕ)

def textLength (s : String) : ℕ := 2 + (s.toList.map charLength).sum

theorem textLength_append (s t : String) :
    textLength charLength s + (t.toList.map charLength).sum = textLength charLength (s ++ t) := by
  rw [textLength, textLength, String.toList_append, map_append, sum_append]
  omega

def memberLength (m : String × ℕ) : ℕ := textLength charLength m.1 + 1 + m.2

def recordLength (members : Members) : ℕ := listLength (members.map (memberLength charLength))

def membersWeight (members : Members) : ℕ := weight (members.map (memberLength charLength))

@[simp] theorem membersWeight_append (l m : Members) :
    membersWeight charLength (l ++ m) =
      membersWeight charLength l + membersWeight charLength m := by
  rw [membersWeight, map_append, weight_append]
  rfl

@[simp] theorem membersWeight_cons (m : String × ℕ) (l : Members) :
    membersWeight charLength (m :: l) =
      textLength charLength m.1 + m.2 + 2 + membersWeight charLength l := by
  rw [membersWeight, map_cons, weight_cons, memberLength, membersWeight]
  omega

@[simp] theorem membersWeight_nil : membersWeight charLength [] = 0 := rfl

theorem recordLength_eq {members : Members} (h : members ≠ []) :
    recordLength charLength members = 1 + membersWeight charLength members :=
  listLength_eq (by simpa using h)

end Text

def boolLength (b : Bool) : ℕ := if b then 4 else 5

def intLength (n : ℤ) : ℕ := (toString n).length

theorem intLength_pos (n : ℤ) : 0 < intLength n := by
  cases n with
  | ofNat n =>
    have hrepr : toString (Int.ofNat n) = Nat.repr n := rfl
    rw [intLength, hrepr, Nat.repr, String.length_ofList]
    exact Nat.length_toDigits_pos
  | negSucc n =>
    have hrepr : toString (Int.negSucc n) = "-" ++ Nat.repr (n + 1) := rfl
    rw [intLength, hrepr, String.length_append]
    exact Nat.add_pos_left (by decide) _

theorem intLength_le {n : ℤ} {k : ℕ} (hk : 0 < k) (h : n.natAbs < 10 ^ k) :
    intLength n ≤ k + 1 := by
  cases n with
  | ofNat n =>
    have hrepr : toString (Int.ofNat n) = Nat.repr n := rfl
    exact (Nat.repr_length n k hk h).trans (Nat.le_succ k)
  | negSucc n =>
    have hrepr : toString (Int.negSucc n) = "-" ++ Nat.repr (n + 1) := rfl
    have hdigits := Nat.repr_length (n + 1) k hk h
    have hsign : "-".length = 1 := by decide
    rw [intLength, hrepr, String.length_append]
    omega

variable (name : String)

def optionalMember (length : Option ℕ) : Members :=
  length.toList.map fun n ↦ (name, n)

@[simp] theorem optionalMember_none : optionalMember name none = [] := rfl

@[simp] theorem optionalMember_some (n : ℕ) : optionalMember name (some n) = [(name, n)] := rfl

def optionalText (charLength : Char → ℕ) (name text : String) : Members :=
  if text = "" then [] else [(name, textLength charLength text)]

def optionalFlag (flag : Bool) : Members :=
  if flag then [(name, boolLength flag)] else []

end MiLsp.Library.Json
