import MiLsp.Library.Strings

namespace MiLsp.Library.Quoting

open Library.Strings List

section Cut

variable {α : Type} [DecidableEq α]

def cut (sep : List α) : List α → Option (List α × List α)
  | [] => if sep = [] then some ([], []) else none
  | c :: cs =>
    if sep <+: c :: cs then some ([], (c :: cs).drop sep.length)
    else (cut sep cs).map fun sides ↦ (c :: sides.1, sides.2)

theorem cut_isSome_iff {sep s : List α} : (cut sep s).isSome ↔ sep <:+: s := by
  induction s with
  | nil => by_cases h : sep = [] <;> simp [cut, h]
  | cons c cs ih =>
    rw [cut, infix_cons_iff]
    split_ifs with h
    · simp [h]
    · simp [h, ih]

theorem cut_spec {sep s left right : List α} (h : cut sep s = some (left, right)) :
    s = left ++ sep ++ right ∧
      ∀ left' right', s = left' ++ sep ++ right' → left.length ≤ left'.length := by
  induction s generalizing left with
  | nil =>
    rw [cut] at h
    split_ifs at h with hsep
    cases h
    simp [hsep]
  | cons c cs ih =>
    rw [cut] at h
    split_ifs at h with hsep
    · cases h
      obtain ⟨rest, hrest⟩ := hsep
      rw [← hrest]
      simp
    · obtain ⟨sides, hsides, heq⟩ := Option.map_eq_some_iff.mp h
      obtain ⟨rfl, rfl⟩ := Prod.mk.inj heq
      obtain ⟨hcs, hfirst⟩ := ih hsides
      refine ⟨by simp [hcs], ?_⟩
      intro left' right' hsplit
      cases left' with
      | nil => exact absurd ⟨right', hsplit.symm⟩ hsep
      | cons c' left' =>
        have hle := hfirst left' right' (List.cons.inj hsplit).2
        simp only [length_cons]
        omega

end Cut

section Trim

def trim (s : List Char) : List Char := (trimSpace (String.ofList s)).toList

def Trimmed (s : List Char) : Prop :=
  (∀ c ∈ s.head?, isSpace c = false) ∧ ∀ c ∈ s.getLast?, isSpace c = false

theorem trim_of_trimmed {s : List Char} (h : Trimmed s) : trim s = s := by
  have hfront : s.dropWhile isSpace = s := by
    cases s with
    | nil => rfl
    | cons c cs => simp [h.1 c rfl]
  have hback : s.reverse.dropWhile isSpace = s.reverse := by
    rw [dropWhile_eq_self_iff]
    intro hlength
    have hne : s ≠ [] := by
      rintro rfl
      simp at hlength
    have hlast := h.2 (s.getLast hne) (getLast?_eq_getLast_of_ne_nil hne)
    rw [getLast_eq_getElem] at hlast
    simpa using hlast
  rw [trim, trimSpace, String.toList_ofList, String.toList_ofList, hfront, hback, reverse_reverse]

section

variable {c : Char} {s : List Char}

theorem trim_cons_space (hc : isSpace c = true) : trim (c :: s) = trim s := by
  simp [trim, trimSpace, hc]

theorem mem_dropWhile_of_mem {p : Char → Bool} (hc : p c = false) (h : c ∈ s) :
    c ∈ s.dropWhile p := by
  rw [← @List.takeWhile_append_dropWhile _ p s] at h
  rcases mem_append.mp h with h | h
  · rw [mem_takeWhile_imp h] at hc
    cases hc
  · exact h

theorem mem_trim_of_mem (hc : isSpace c = false) (h : c ∈ s) : c ∈ trim s := by
  rw [trim, trimSpace, String.toList_ofList, String.toList_ofList, mem_reverse]
  apply mem_dropWhile_of_mem hc
  rw [mem_reverse]
  exact mem_dropWhile_of_mem hc h

end

theorem Trimmed.append {a b : List Char} (ha : Trimmed a) (hb : Trimmed b) (hane : a ≠ [])
    (hbne : b ≠ []) (mid : List Char) : Trimmed (a ++ mid ++ b) := by
  constructor
  · rw [append_assoc, head?_append_of_ne_nil _ hane]
    exact ha.1
  · rw [getLast?_append_of_ne_nil _ hbne]
    exact hb.2

end Trim

section Quote

def octalDigit (n : ℕ) : Char := Char.ofNat ('0'.toNat + n % 8)

def escapeByte (b : UInt8) : List Char :=
  ['\\', octalDigit (b.toNat / 64), octalDigit (b.toNat / 8), octalDigit b.toNat]

/-- A character inside quotes: short escapes, and octal bytes for what cannot be printed. -/
def escape (c : Char) : List Char :=
  if c = '"' then ['\\', '"']
  else if c = '\\' then ['\\', '\\']
  else if c.toNat = 7 then ['\\', 'a']
  else if c.toNat = 8 then ['\\', 'b']
  else if c.toNat = 9 then ['\\', 't']
  else if c.toNat = 10 then ['\\', 'n']
  else if c.toNat = 11 then ['\\', 'v']
  else if c.toNat = 12 then ['\\', 'f']
  else if c.toNat = 13 then ['\\', 'r']
  else if 32 ≤ c.toNat ∧ c.toNat < 127 then [c]
  else (String.utf8EncodeChar c).flatMap escapeByte

def plainChar (c : Char) : Bool := 32 < c.toNat && c.toNat < 127 && c ≠ '"' && c ≠ '\\'

def quote (name : List Char) : List Char :=
  if name.all plainChar then name else '"' :: name.flatMap escape ++ ['"']

theorem isSpace_of_plainChar {c : Char} (h : plainChar c = true) : isSpace c = false := by
  have hval : 32 < c.val.toNat ∧ c.val.toNat < 127 := by
    simp only [plainChar, Bool.and_eq_true, decide_eq_true_eq] at h
    exact h.1.1
  rw [isSpace, Bool.or_eq_false_iff]
  constructor
  · simp only [mem_cons, not_mem_nil, or_false, decide_eq_false_iff_not, not_or, ← UInt32.toNat_inj]
    refine ⟨?_, ?_, ?_, ?_, ?_, ?_, ?_, ?_, ?_, ?_, ?_, ?_, ?_, ?_⟩ <;>
      (intro h; rw [h] at hval; revert hval; decide)
  · rw [Bool.and_eq_false_iff]
    left
    rw [decide_eq_false_iff_not, UInt32.le_iff_toNat_le]
    have : (0x2000 : UInt32).toNat = 8192 := rfl
    omega

theorem newline_notMem_escapeByte (b : UInt8) : '\n' ∉ escapeByte b := by
  have hdigits : ∀ k : Fin 8, Char.ofNat ('0'.toNat + k) ≠ '\n' := by decide
  have hdigit : ∀ n, '\n' ≠ octalDigit n := fun n ↦
    (hdigits ⟨n % 8, Nat.mod_lt _ (by decide)⟩).symm
  simp [escapeByte, hdigit]

theorem newline_notMem_escape (c : Char) : '\n' ∉ escape c := by
  unfold escape
  split_ifs with h₁ h₂ h₃ h₄ h₅ h₆ h₇ h₈ h₉ h₁₀
  · decide
  · decide
  · decide
  · decide
  · decide
  · decide
  · decide
  · decide
  · decide
  · rw [mem_singleton]
    rintro rfl
    exact h₆ rfl
  · rw [mem_flatMap]
    rintro ⟨b, -, hb⟩
    exact newline_notMem_escapeByte b hb

theorem newline_notMem_quote (name : List Char) : '\n' ∉ quote name := by
  unfold quote
  split_ifs with h
  · intro hmem
    exact absurd (all_eq_true.mp h _ hmem) (by decide)
  · simp only [cons_append, mem_cons, mem_append, mem_flatMap, not_or]
    refine ⟨by decide, ?_, by simp⟩
    rintro ⟨c, -, hc⟩
    exact newline_notMem_escape c hc

variable {name : List Char}

theorem quote_ne_nil (h : name ≠ []) : quote name ≠ [] := by
  unfold quote
  split_ifs
  · exact h
  · simp

theorem quote_trimmed (name : List Char) : Trimmed (quote name) := by
  unfold quote
  split_ifs with h
  · exact ⟨fun c hc ↦ isSpace_of_plainChar (all_eq_true.mp h c (mem_of_head? hc)),
      fun c hc ↦ isSpace_of_plainChar (all_eq_true.mp h c (mem_of_getLast? hc))⟩
  · constructor
    · intro c hc
      rw [cons_append, head?_cons, Option.mem_some_iff] at hc
      subst hc
      decide
    · intro c hc
      rw [getLast?_append_of_ne_nil _ (by simp), getLast?_singleton,
        Option.mem_some_iff] at hc
      subst hc
      decide

theorem quote_of_plain (h : name.all plainChar) : quote name = name := if_pos h

end Quote

end MiLsp.Library.Quoting
