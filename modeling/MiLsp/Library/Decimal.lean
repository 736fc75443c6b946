import Mathlib.Data.Nat.Digits.Defs
import MiLsp.Library.Strings

namespace MiLsp.Library.Decimal

open Strings List

def minus : UInt8 := 45

def plus : UInt8 := 43

def isDigit (b : UInt8) : Bool := 48 ≤ b && b ≤ 57

def decimal (n : ℕ) : Bytes :=
  if n = 0 then [48] else ((Nat.digits 10 n).map fun d ↦ UInt8.ofNat (48 + d)).reverse

def itoa (n : ℤ) : Bytes := if n < 0 then minus :: decimal n.natAbs else decimal n.natAbs

def digitsValue (s : Bytes) : Option ℕ :=
  if s = [] ∨ s.all isDigit = false then none
  else some (s.foldl (fun value b ↦ value * 10 + (b.toNat - 48)) 0)

def atoi (s : Bytes) : Option ℤ :=
  let value : Option ℤ := match s with
    | [] => none
    | b :: rest =>
      if b = minus then (digitsValue rest).map fun n ↦ -Int.ofNat n
      else if b = plus then (digitsValue rest).map Int.ofNat
      else (digitsValue s).map Int.ofNat
  value.filter fun n ↦ -2 ^ 63 ≤ n ∧ n < 2 ^ 63

theorem digit_byte (d : ℕ) (h : d < 10) :
    isDigit (UInt8.ofNat (48 + d)) = true ∧ (UInt8.ofNat (48 + d)).toNat = 48 + d := by
  revert d
  decide

theorem isDigit_decimal {n : ℕ} {b : UInt8} (h : b ∈ decimal n) : isDigit b = true := by
  rw [decimal] at h
  split_ifs at h
  · rw [mem_singleton.mp h]
    rfl
  · obtain ⟨d, hd, rfl⟩ := mem_map.mp (mem_reverse.mp h)
    exact (digit_byte d (Nat.digits_lt_base (by omega) hd)).1

theorem decimal_ne_nil (n : ℕ) : decimal n ≠ [] := by
  rw [decimal]
  split_ifs with h
  · simp
  · simpa using Nat.digits_ne_nil_iff_ne_zero.mpr h

theorem foldr_digits (digits : List ℕ) (h : ∀ d ∈ digits, d < 10) :
    (digits.map fun d ↦ UInt8.ofNat (48 + d)).foldr (fun b value ↦ value * 10 + (b.toNat - 48)) 0 =
      Nat.ofDigits 10 digits := by
  induction digits with
  | nil => rfl
  | cons d digits ih =>
    obtain ⟨hd, hrest⟩ := forall_mem_cons.mp h
    rw [map_cons, foldr_cons, ih hrest, (digit_byte d hd).2, Nat.ofDigits_cons]
    omega

theorem digitsValue_decimal (n : ℕ) : digitsValue (decimal n) = some n := by
  have hall : (decimal n).all isDigit = true := by
    rw [all_eq_true]
    exact fun b hb ↦ isDigit_decimal hb
  rw [digitsValue, if_neg (by simp [decimal_ne_nil, hall]), Option.some_inj, decimal]
  split_ifs with h
  · rw [h]
    rfl
  · rw [foldl_reverse, foldr_digits _ fun d hd ↦ Nat.digits_lt_base (by omega) hd,
      Nat.ofDigits_digits]

theorem atoi_itoa {n : ℤ} (hnonneg : 0 ≤ n) (hlt : n < 2 ^ 63) : atoi (itoa n) = some n := by
  rw [itoa, if_neg (by omega), atoi.eq_def]
  obtain ⟨b, rest, heq⟩ := exists_cons_of_ne_nil (decimal_ne_nil n.natAbs)
  have hdigit : isDigit b = true := isDigit_decimal (by rw [heq]; exact mem_cons_self)
  have hminus : b ≠ minus := by
    rintro rfl
    cases hdigit
  have hplus : b ≠ plus := by
    rintro rfl
    cases hdigit
  rw [heq]
  dsimp only
  rw [if_neg hminus, if_neg hplus, ← heq, digitsValue_decimal, Option.map_some,
    Int.ofNat_eq_natCast, Int.natAbs_of_nonneg hnonneg, Option.filter_some, if_pos]
  simp only [decide_eq_true_eq]
  omega

theorem itoa_injective : Function.Injective itoa := by
  have hminus (n : ℕ) (rest : Bytes) : minus :: rest ≠ decimal n := by
    intro h
    cases isDigit_decimal (h ▸ mem_cons_self : minus ∈ decimal n)
  have hnat {m n : ℕ} (h : decimal m = decimal n) : m = n := by
    have hvalue := digitsValue_decimal m
    rw [h, digitsValue_decimal] at hvalue
    exact (Option.some.inj hvalue).symm
  intro m n h
  rw [itoa, itoa] at h
  split_ifs at h with hm hn hn
  · have := hnat (List.cons.inj h).2
    omega
  · exact absurd h (hminus _ _)
  · exact absurd h.symm (hminus _ _)
  · have := hnat h
    omega

end MiLsp.Library.Decimal
