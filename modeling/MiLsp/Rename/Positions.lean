import Mathlib.Algebra.Ring.Nat
import MiLsp.Rename.Edits

namespace MiLsp.Rename

open Library.Strings List Option

/-- The characters of a text, each with the bytes that it takes. There are no more than bytes. -/
def charactersUpTo : ℕ → Bytes → List (ℕ × ℕ)
  | 0, _ | _, [] => []
  | n + 1, data =>
    let c := (decodeRune data).getD (0xFFFD, 1)
    c :: charactersUpTo n (data.drop c.2)

def utf16Width (rune : ℕ) : ℕ := if 0xFFFF < rune then 2 else 1

def utf16Length (cs : List (ℕ × ℕ)) : ℕ := (cs.map fun c ↦ utf16Width c.1).sum

def byteLength (cs : List (ℕ × ℕ)) : ℕ := (cs.map (·.2)).sum

def trimReturn (text : Bytes) : Bytes :=
  if text.getLast? = some carriageReturn then text.dropLast else text

def lineBegin (lines : List Bytes) (line : ℕ) : ℕ := ((lines.take line).map (·.length + 1)).sum

/-- The bytes before `o` are the lines before `line` and some characters of that line, its ending
left out, which have `character` units. -/
def IsPosition (data : Bytes) (line character : ℤ) (o : ℕ) : Prop :=
  0 ≤ line ∧ ∃ text, (data.splitOn newline)[line.toNat]? = some text ∧
    ∃ left, left <+: charactersUpTo (trimReturn text).length (trimReturn text) ∧
      (utf16Length left : ℤ) = character ∧
      o = lineBegin (data.splitOn newline) line.toNat + byteLength left

section Walk

variable {data text : Bytes} {left : List (ℕ × ℕ)} {character : ℤ}

theorem decodeRune_size {rune size : ℕ} (h : decodeRune data = some (rune, size)) :
    0 < size ∧ size ≤ data.length := by
  unfold decodeRune at h
  split at h
  · cases h
  · split_ifs at h
    · cases h
      simp
    all_goals
      split at h
      · split_ifs at h
        cases h
        simp
      · cases h

theorem getD_size (h : data ≠ []) :
    0 < ((decodeRune data).getD (0xFFFD, 1)).2 ∧
      ((decodeRune data).getD (0xFFFD, 1)).2 ≤ data.length := by
  cases hrune : decodeRune data with
  | none => exact ⟨Nat.one_pos, length_pos_of_ne_nil h⟩
  | some c => exact decodeRune_size hrune

theorem byteLength_le {n : ℕ} (h : left <+: charactersUpTo n text) :
    byteLength left ≤ text.length := by
  induction n generalizing text left with
  | zero => simp_all [charactersUpTo, byteLength]
  | succ n ih =>
    cases text with
    | nil => simp_all [charactersUpTo, byteLength]
    | cons b text =>
      cases left with
      | nil => exact Nat.zero_le _
      | cons c left =>
        obtain ⟨rfl, hleft⟩ := cons_prefix_cons.mp h
        have hrest := ih hleft
        have hsize := (@getD_size (b :: text) (by simp)).2
        simp only [byteLength, map_cons, sum_cons, length_drop] at hrest ⊢
        omega

theorem utf16Width_pos (rune : ℕ) : 0 < utf16Width rune := by
  unfold utf16Width
  split_ifs <;> omega

theorem unitOffset_eq_some {stop fuel units offset o : ℕ}
    (htext : (data.take stop).drop offset = text) (hstop : stop ≤ data.length)
    (hfuel : text.length ≤ fuel) :
    unitOffset data stop character fuel units offset = some o ↔
      ∃ left, left <+: charactersUpTo fuel text ∧
        ((units + utf16Length left : ℕ) : ℤ) = character ∧ o = offset + byteLength left := by
  induction fuel generalizing text units offset with
  | zero =>
    simp [unitOffset, charactersUpTo, utf16Length, byteLength, eq_comm]
  | succ fuel ih =>
    have hlength := congrArg List.length htext
    rw [length_drop, length_take, Nat.min_eq_left hstop] at hlength
    rw [unitOffset]
    cases text with
    | nil =>
      rw [if_neg (by simp at hlength; omega)]
      simp [charactersUpTo, utf16Length, byteLength, eq_comm]
    | cons b text =>
      rw [if_pos (by simp at hlength; omega), htext]
      obtain ⟨hpos, hsize⟩ := @getD_size (b :: text) (by simp)
      simp only [charactersUpTo]
      generalize (decodeRune (b :: text)).getD (0xFFFD, 1) = c at hpos hsize ⊢
      have hdrop : (data.take stop).drop (offset + c.2) = (b :: text).drop c.2 := by
        rw [← htext, drop_drop]
      have hrest := @ih _ (units + utf16Width c.1) (offset + c.2) hdrop
        (by rw [length_drop]; omega)
      have hwidth := utf16Width_pos c.1
      have hleft : (∃ left, left <+: c :: charactersUpTo fuel ((b :: text).drop c.2) ∧
          ((units + utf16Length left : ℕ) : ℤ) = character ∧ o = offset + byteLength left) ↔
          (units : ℤ) = character ∧ o = offset ∨
            ∃ left, left <+: charactersUpTo fuel ((b :: text).drop c.2) ∧
              ((units + utf16Width c.1 + utf16Length left : ℕ) : ℤ) = character ∧
              o = offset + c.2 + byteLength left := by
        simp [prefix_cons_iff, or_and_right, exists_or, utf16Length, byteLength, add_assoc]
      have hbelow : unitOffset data stop character fuel (units + utf16Width c.1) (offset + c.2) =
          some o → ((units + utf16Width c.1 : ℕ) : ℤ) ≤ character := by
        intro h
        obtain ⟨left, -, hunits, -⟩ := hrest.mp h
        omega
      rw [hleft, ← hrest]
      change (if _ then _ else if ((units + utf16Width c.1 : ℕ) : ℤ) > character then none
        else unitOffset data stop character fuel (units + utf16Width c.1) (offset + c.2)) = _ ↔ _
      split_ifs with heq hover
      · rw [or_iff_left fun h ↦ by have := hbelow h; omega]
        simp [heq, eq_comm]
      · exact iff_of_false (by simp)
          (by rintro (h | h); exacts [heq h.1, absurd (hbelow h) (by omega)])
      · rw [or_iff_right fun h ↦ heq h.1]

end Walk

section Lines

variable {data : Bytes}

theorem split_newline (s : Bytes) :
    s.findIdx? (· = newline) = none ∧ s.splitOn newline = [s] ∨
      ∃ l rest, s = l ++ newline :: rest ∧ s.findIdx? (· = newline) = some l.length ∧
        s.splitOn newline = l :: rest.splitOn newline := by
  by_cases h : newline ∈ s
  · obtain ⟨l, rest, rfl, hl⟩ := eq_append_cons_of_mem h
    refine .inr ⟨l, rest, rfl, ?_, splitOn_append_cons_self_of_not_mem hl rest⟩
    have hnone : l.findIdx? (· = newline) = none := by
      simpa [findIdx?_eq_none_iff] using fun x hx (heq : x = newline) ↦ hl (heq ▸ hx)
    rw [findIdx?_append, hnone, findIdx?_cons]
    simp
  · refine .inl ⟨?_, splitOn_eq_singleton h⟩
    simpa [findIdx?_eq_none_iff] using fun x hx (heq : x = newline) ↦ h (heq ▸ hx)

theorem lineBegin_cons (l : Bytes) (lines : List Bytes) (k : ℕ) :
    lineBegin (l :: lines) (k + 1) = l.length + 1 + lineBegin lines k := by
  rw [lineBegin, take_succ_cons, map_cons, sum_cons, lineBegin]

theorem lineStart_eq_some {k start o : ℕ} :
    lineStart data k start = some o ↔ k < ((data.drop start).splitOn newline).length ∧
      o = start + lineBegin ((data.drop start).splitOn newline) k := by
  induction k generalizing start with
  | zero =>
    have hne := length_pos_iff.mpr (splitOn_ne_nil newline (data.drop start))
    simp [lineStart, lineBegin, hne, eq_comm]
  | succ k ih =>
    rw [lineStart]
    rcases split_newline (data.drop start) with ⟨hnone, hsplit⟩ | ⟨l, rest, heq, hsome, hsplit⟩
    · simp [hnone, hsplit]
    · have hdrop : data.drop (start + l.length + 1) = rest := by
        rw [Nat.add_assoc, ← drop_drop, heq]
        simp
      simp only [hsome, hsplit, ih, hdrop, lineBegin_cons, length_cons, Nat.add_lt_add_iff_right]
      omega

theorem drop_lineBegin {k : ℕ} (h : k < (data.splitOn newline).length) :
    lineBegin (data.splitOn newline) k ≤ data.length ∧
      (data.drop (lineBegin (data.splitOn newline) k)).splitOn newline =
        (data.splitOn newline).drop k := by
  induction k generalizing data with
  | zero => exact ⟨Nat.zero_le _, rfl⟩
  | succ k ih =>
    rcases split_newline data with ⟨-, hsplit⟩ | ⟨l, rest, rfl, -, hsplit⟩
    · simp [hsplit] at h
    · rw [hsplit] at h ⊢
      obtain ⟨hle, hlines⟩ := ih (Nat.lt_of_succ_lt_succ h)
      rw [lineBegin_cons, drop_succ_cons, ← hlines, ← drop_drop, length_append, length_cons]
      refine ⟨by omega, ?_⟩
      simp

theorem trimReturn_spec {start : ℕ} {text : Bytes} (h : text <+: data.drop start) :
    (if start < start + text.length ∧ data[start + text.length - 1]? = some carriageReturn then
        start + text.length - 1 else start + text.length) = start + (trimReturn text).length ∧
      trimReturn text <+: data.drop start := by
  rcases eq_nil_or_concat text with rfl | ⟨body, b, rfl⟩
  · simp [trimReturn]
  · obtain ⟨post, hpost⟩ := h
    rw [concat_eq_append] at hpost ⊢
    have hlast : data[start + body.length]? = some b := by
      rw [← getElem?_drop, ← hpost]
      simp
    simp only [trimReturn, length_append, length_singleton, ← Nat.add_assoc, Nat.add_sub_cancel,
      hlast, getLast?_concat, dropLast_concat, some.injEq, ← hpost]
    split_ifs with hb hreturn hreturn
    · exact ⟨rfl, by simp⟩
    · exact absurd hb.2 hreturn
    · exact absurd ⟨by omega, hreturn⟩ hb
    · exact ⟨by simp [Nat.add_assoc], prefix_append _ _⟩

theorem lineStop_spec {start : ℕ} {text : Bytes} {more : List Bytes} (hstart : start ≤ data.length)
    (h : (data.drop start).splitOn newline = text :: more) :
    lineStop data start = start + (trimReturn text).length ∧
      trimReturn text <+: data.drop start := by
  rw [lineStop]
  rcases split_newline (data.drop start) with ⟨hnone, hsplit⟩ | ⟨l, rest, heq, hsome, hsplit⟩
  · obtain ⟨rfl, -⟩ := cons.inj (hsplit.symm.trans h)
    have hlength : data.length = start + (data.drop start).length := by
      rw [length_drop]
      omega
    rw [hnone]
    dsimp only
    rw [hlength]
    exact trimReturn_spec prefix_rfl
  · obtain ⟨rfl, -⟩ := cons.inj (hsplit.symm.trans h)
    rw [hsome]
    exact trimReturn_spec (heq ▸ prefix_append _ _)

variable {line character : ℤ} {o : ℕ} {text : Bytes}

theorem line_spec {k : ℕ} (h : (data.splitOn newline)[k]? = some text) :
    ∃ start, start = lineBegin (data.splitOn newline) k ∧ lineStart data k 0 = some start ∧
      lineStop data start = start + (trimReturn text).length ∧
      trimReturn text <+: data.drop start ∧ lineStop data start ≤ data.length := by
  obtain ⟨hk, htext⟩ := List.getElem?_eq_some_iff.mp h
  obtain ⟨hle, hlines⟩ := drop_lineBegin hk
  rw [drop_eq_getElem_cons hk, htext] at hlines
  obtain ⟨hstop, hpre⟩ := lineStop_spec hle hlines
  have hlength := hpre.length_le
  rw [length_drop] at hlength
  exact ⟨_, rfl, lineStart_eq_some.mpr ⟨hk, (Nat.zero_add _).symm⟩, hstop, hpre, by omega⟩

theorem IsPosition.le (h : IsPosition data line character o) : o ≤ data.length := by
  obtain ⟨-, text, htext, left, hleft, -, rfl⟩ := h
  obtain ⟨start, rfl, -, hstop, -, hle⟩ := line_spec htext
  have hbytes := byteLength_le hleft
  omega

theorem utf16ByteOffset_eq_some :
    utf16ByteOffset data line character = some o ↔
      utf8Valid data = true ∧ IsPosition data line character o := by
  rw [utf16ByteOffset]
  split_ifs with hneg
  · refine iff_of_false (by simp) ?_
    rintro ⟨hvalid, hline, text, -, left, -, hunits, -⟩
    rw [hvalid, Bool.true_eq_false, or_false] at hneg
    omega
  · simp only [not_or, not_lt, Bool.not_eq_false] at hneg
    simp only [IsPosition, hneg.1, hneg.2.2, true_and]
    cases htext : (data.splitOn newline)[line.toNat]? with
    | none =>
      have hnone : lineStart data line.toNat 0 = none := by
        refine eq_none_iff_forall_ne_some.mpr fun start hstart ↦ ?_
        exact absurd (lineStart_eq_some.mp hstart).1 (by simpa using htext)
      simp [hnone]
    | some text =>
      obtain ⟨start, hbegin, hstart, hstop, hpre, hle⟩ := line_spec htext
      have hslice : (data.take (lineStop data start)).drop start = trimReturn text := by
        rw [hstop, drop_take, Nat.add_sub_cancel_left]
        exact (prefix_iff_eq_take.mp hpre).symm
      have hfuel : lineStop data start - start = (trimReturn text).length := by omega
      simp only [hstart, ← hbegin, hfuel, some.injEq, exists_eq_left']
      rw [unitOffset_eq_some hslice hle le_rfl]
      simp only [Nat.zero_add]

end Lines

end MiLsp.Rename
