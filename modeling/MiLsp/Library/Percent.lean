import MiLsp.Library.Strings

namespace MiLsp.Library.Percent

open Strings List

def percent : UInt8 := 37

def hexDigit (n : ℕ) : UInt8 := UInt8.ofNat (if n < 10 then 48 + n else 55 + n)

def hexValue (b : UInt8) : Option ℕ :=
  if 48 ≤ b ∧ b ≤ 57 then some (b.toNat - 48)
  else if 65 ≤ b ∧ b ≤ 70 then some (b.toNat - 55)
  else if 97 ≤ b ∧ b ≤ 102 then some (b.toNat - 87)
  else none

variable (keep : UInt8 → Bool)

def encodeByte (b : UInt8) : Bytes :=
  if keep b then [b] else [percent, hexDigit (b.toNat / 16), hexDigit (b.toNat % 16)]

def encode (value : Bytes) : Bytes := value.flatMap (encodeByte keep)

def decode : Bytes → Option Bytes
  | [] => some []
  | b :: rest =>
    if b = percent then
      match rest with
      | high :: low :: rest =>
        match hexValue high, hexValue low with
        | some high, some low => (decode rest).map (UInt8.ofNat (16 * high + low) :: ·)
        | _, _ => none
      | _ => none
    else (decode rest).map (b :: ·)

theorem decode_cons_of_ne {b : UInt8} (h : b ≠ percent) (rest : Bytes) :
    decode (b :: rest) = (decode rest).map (b :: ·) := by
  rw [decode.eq_def]
  exact if_neg h

theorem hexValue_hexDigit : ∀ n < 16, hexValue (hexDigit n) = some n := by decide

theorem decode_hex (b : UInt8) (rest : Bytes) :
    decode (percent :: hexDigit (b.toNat / 16) :: hexDigit (b.toNat % 16) :: rest) =
      (decode rest).map (b :: ·) := by
  have hbound := b.toNat_lt
  have hhigh := hexValue_hexDigit (b.toNat / 16) (by omega)
  have hlow := hexValue_hexDigit (b.toNat % 16) (by omega)
  rw [decode, if_pos rfl]
  simp only [hhigh, hlow, Nat.div_add_mod, UInt8.ofNat_toNat]

variable {keep} {value : Bytes}

theorem decode_encode_append (hkeep : keep percent = false) (value rest : Bytes) :
    decode (encode keep value ++ rest) = (decode rest).map (value ++ ·) := by
  induction value with
  | nil => simp [encode]
  | cons b value ih =>
    rw [encode, flatMap_cons, append_assoc, encodeByte]
    split_ifs with hb
    · have hne : b ≠ percent := by
        rintro rfl
        rw [hkeep] at hb
        cases hb
      rw [singleton_append, decode_cons_of_ne hne, ← encode, ih, Option.map_map]
      rfl
    · rw [cons_append, cons_append, cons_append, nil_append, decode_hex,
        ← encode, ih, Option.map_map]
      rfl

theorem decode_encode (hkeep : keep percent = false) (value : Bytes) :
    decode (encode keep value) = some value := by
  have h := decode_encode_append hkeep value []
  rw [append_nil, decode, Option.map_some, append_nil] at h
  exact h

theorem mem_encode {b : UInt8} (h : b ∈ encode keep value) :
    keep b = true ∨ b = percent ∨ ∃ n < 16, b = hexDigit n := by
  obtain ⟨c, -, hb⟩ := mem_flatMap.mp h
  have hbound := c.toNat_lt
  rw [encodeByte] at hb
  split_ifs at hb with hc
  · rw [mem_singleton.mp hb]
    exact .inl hc
  · simp only [mem_cons, not_mem_nil, or_false] at hb
    rcases hb with rfl | rfl | rfl
    · exact .inr (.inl rfl)
    · exact .inr (.inr ⟨c.toNat / 16, by omega, rfl⟩)
    · exact .inr (.inr ⟨c.toNat % 16, by omega, rfl⟩)

theorem encode_ne_nil (h : value ≠ []) : encode keep value ≠ [] := by
  obtain ⟨b, rest, rfl⟩ := exists_cons_of_ne_nil h
  rw [encode, flatMap_cons, encodeByte]
  split_ifs <;> simp

end MiLsp.Library.Percent
