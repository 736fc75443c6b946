import Mathlib.Algebra.Order.Ring.Int
import MiLsp.EditPlan.Packet

namespace MiLsp.EditPlan

open Library Strings Lines

/-- Byte offsets of the lines, with their number. An end line that is not positive is the last line.
-/
def editPlanLineRangeOffsets (content : Bytes) (startLine endLine : ℤ) :
    Except RangeError (ℕ × ℕ × ℕ) :=
  if startLine ≤ 0 then .error .startLineNotPositive
  else
    let starts := lineStarts newline content
    let lineCount := starts.length
    let endLine := if endLine ≤ 0 then (lineCount : ℤ) else endLine
    if endLine < startLine then .error .endBeforeStart
    else if startLine > lineCount ∨ endLine > lineCount then
      .error (.outside startLine endLine lineCount)
    else
      let start := starts.getD (startLine - 1).toNat 0
      let stop := if endLine < lineCount then starts.getD endLine.toNat 0 else content.length
      .ok (start, stop, lineCount)

def detectEditPlanLineEnding (content : Bytes) : Bytes :=
  if contains content [carriageReturn, newline] then [carriageReturn, newline] else [newline]

def normalizeEditPlanLineEndings (value lineEnding : Bytes) : Bytes :=
  let value := replaceAll value [carriageReturn, newline] [newline]
  let value := replaceAll value [carriageReturn] [newline]
  if lineEnding = [carriageReturn, newline] then
    replaceAll value [newline] [carriageReturn, newline]
  else value

variable {content : Bytes} {startLine endLine : ℤ} {start stop count : ℕ}

theorem editPlanLineRangeOffsets_eq_ok (hend : 0 < endLine) :
    editPlanLineRangeOffsets content startLine endLine = .ok (start, stop, count) ↔
      0 < startLine ∧ count = lineCount newline content ∧
        lineSpan newline content startLine.toNat endLine.toNat = some (start, stop) := by
  by_cases hstart : startLine ≤ 0
  · simp [editPlanLineRangeOffsets, hstart, not_lt.mpr hstart]
  obtain ⟨a, rfl⟩ := Int.eq_ofNat_of_zero_le (show 0 ≤ startLine by omega)
  obtain ⟨b, rfl⟩ := Int.eq_ofNat_of_zero_le hend.le
  have hpred : ((a : ℤ) - 1).toNat = a - 1 := by omega
  have hopen : ¬(b : ℤ) ≤ 0 := by omega
  have hlen : (lineStarts newline content).length = lineCount newline content := rfl
  simp only [editPlanLineRangeOffsets, if_neg hstart, if_neg hopen, hpred, Int.toNat_natCast,
    hlen, gt_iff_lt, Nat.cast_lt]
  by_cases hba : b < a
  · have hnone : lineSpan newline content a b = none := if_neg (by omega)
    simp [hba, hnone]
  rw [if_neg hba]
  by_cases hcount : lineCount newline content < b
  · have hnone : lineSpan newline content a b = none := if_neg (by omega)
    simp [hcount, hnone]
  have hin : 0 < a ∧ a ≤ b ∧ b ≤ lineCount newline content := by omega
  have hout : ¬(lineCount newline content < a ∨ lineCount newline content < b) := by omega
  have hstop : (if b < lineCount newline content then (lineStarts newline content).getD b 0
      else content.length) = (lineStarts newline content).getD b content.length := by
    split
    next hlt => simp [List.getD_eq_getElem?_getD, hlen, hlt]
    next hge => simp [List.getD_eq_getElem?_getD, hlen, not_lt.mp hge]
  rw [if_neg hout, hstop, lineSpan, if_pos hin]
  simp only [Except.ok.injEq, Prod.mk.injEq, Option.some.injEq]
  constructor
  · intro h
    exact ⟨by omega, h.2.2.symm, h.1, h.2.1⟩
  · intro h
    exact ⟨h.2.2.1, h.2.2.2, h.2.1.symm⟩

theorem editPlanLineRangeOffsets_count
    (h : editPlanLineRangeOffsets content startLine endLine = .ok (start, stop, count)) :
    count = lineCount newline content := by
  unfold editPlanLineRangeOffsets at h
  split at h
  · cases h
  dsimp only at h
  generalize (if endLine ≤ 0 then ((lineStarts newline content).length : ℤ) else endLine) = e at h
  split at h
  · cases h
  split at h
  · cases h
  · cases h
    rfl

theorem lineCount_pos (content : Bytes) : 0 < lineCount newline content := by
  rw [lineCount_eq]
  omega

section

variable (h : editPlanLineRangeOffsets content startLine endLine = .ok (start, stop, count))
include h

theorem editPlanLineRangeOffsets_endLine :
    editPlanLineRangeOffsets content startLine (if endLine ≤ 0 then (count : ℤ) else endLine) =
      .ok (start, stop, count) := by
  have hcount := editPlanLineRangeOffsets_count h
  have hpos := lineCount_pos content
  split
  next hopen =>
    have hopen' : ¬(count : ℤ) ≤ 0 := by omega
    rw [← h, hcount] at *
    simp only [editPlanLineRangeOffsets, if_pos hopen, if_neg hopen']
    rfl
  · exact h

theorem editPlanLineRangeOffsets_endLine_pos :
    0 < if endLine ≤ 0 then (count : ℤ) else endLine := by
  have hcount := editPlanLineRangeOffsets_count h
  have hpos := lineCount_pos content
  split <;> omega

end

end MiLsp.EditPlan
