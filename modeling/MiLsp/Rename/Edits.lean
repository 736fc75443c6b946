import Mathlib.Data.List.Sort
import MiLsp.Library.Strings

namespace MiLsp.Rename

open Library.Strings

def isContinuation (b : UInt8) : Bool := 0x80 ≤ b && b ≤ 0xBF

/-- The bytes that may follow the first byte of a character of three or four bytes. -/
def acceptsSecond (first second : UInt8) : Bool :=
  isContinuation second &&
    if first = 0xE0 then 0xA0 ≤ second
    else if first = 0xED then second ≤ 0x9F
    else if first = 0xF0 then 0x90 ≤ second
    else if first = 0xF4 then second ≤ 0x8F
    else true

def lowBits (b : UInt8) : ℕ := b.toNat % 64

def decodeRune : Bytes → Option (ℕ × ℕ)
  | [] => none
  | first :: rest =>
    if first < 0x80 then some (first.toNat, 1)
    else if 0xC2 ≤ first ∧ first ≤ 0xDF then
      match rest with
      | second :: _ =>
        if isContinuation second then some (first.toNat % 32 * 64 + lowBits second, 2) else none
      | [] => none
    else if 0xE0 ≤ first ∧ first ≤ 0xEF then
      match rest with
      | second :: third :: _ =>
        if acceptsSecond first second && isContinuation third then
          some ((first.toNat % 16 * 64 + lowBits second) * 64 + lowBits third, 3)
        else none
      | _ => none
    else if 0xF0 ≤ first ∧ first ≤ 0xF4 then
      match rest with
      | second :: third :: fourth :: _ =>
        if acceptsSecond first second && isContinuation third && isContinuation fourth then
          some (((first.toNat % 8 * 64 + lowBits second) * 64 + lowBits third) * 64 +
            lowBits fourth, 4)
        else none
      | _ => none
    else none

def validRunes : ℕ → Bytes → Bool
  | _, [] => true
  | 0, _ :: _ => false
  | n + 1, data =>
    match decodeRune data with
    | some (_, size) => validRunes n (data.drop size)
    | none => false

variable (data : Bytes)

def utf8Valid : Bool := validRunes data.length data

def lineStart (data : Bytes) : ℕ → ℕ → Option ℕ
  | 0, start => some start
  | line + 1, start =>
    match (data.drop start).findIdx? (· = newline) with
    | some next => lineStart data line (start + next + 1)
    | none => none

def lineStop (start : ℕ) : ℕ :=
  let stop := match (data.drop start).findIdx? (· = newline) with
    | some next => start + next
    | none => data.length
  if start < stop ∧ data[stop - 1]? = some carriageReturn then stop - 1 else stop

def unitOffset (data : Bytes) (stop : ℕ) (character : ℤ) : ℕ → ℕ → ℕ → Option ℕ
  | 0, units, offset => if (units : ℤ) = character then some offset else none
  | fuel + 1, units, offset =>
    if offset < stop then
      if (units : ℤ) = character then some offset
      else
        let (rune, size) := (decodeRune ((data.take stop).drop offset)).getD (0xFFFD, 1)
        let width := if 0xFFFF < rune then 2 else 1
        if ((units + width : ℕ) : ℤ) > character then none
        else unitOffset data stop character fuel (units + width) (offset + size)
    else if (units : ℤ) = character then some offset
    else none

/-- A character takes a byte at least, so that the bytes of the line bound the walk. -/
def utf16ByteOffset (line character : ℤ) : Option ℕ :=
  if line < 0 ∨ character < 0 ∨ utf8Valid data = false then none
  else match lineStart data line.toNat 0 with
    | none => none
    | some start =>
      unitOffset data (lineStop data start) character (lineStop data start - start) 0 start

structure NativeTextPosition where
  line : ℤ
  character : ℤ

structure NativeTextEdit where
  start : NativeTextPosition
  stop : NativeTextPosition
  newText : String

structure NativeByteEdit where
  start : ℕ
  stop : ℕ
  text : Bytes
deriving DecidableEq

def convertEdit (original : Bytes) (symbol newName : String) (edit : NativeTextEdit) :
    Option NativeByteEdit :=
  match utf16ByteOffset original edit.start.line edit.start.character,
      utf16ByteOffset original edit.stop.line edit.stop.character with
  | some start, some stop =>
    if start > stop ∨ edit.newText ≠ newName ∨
        (original.take stop).drop start ≠ utf8 symbol then none
    else some ⟨start, stop, utf8 edit.newText⟩
  | _, _ => none

def spliceEdits : ℕ → Bytes → List NativeByteEdit → Option Bytes
  | _, updated, [] => some updated
  | lastStart, updated, edit :: edits =>
    if edit.stop > lastStart then none
    else spliceEdits edit.start
      (updated.take edit.start ++ edit.text ++ updated.drop edit.stop) edits

/-- Edits that start at one place are equal, so that their order does not matter. -/
def updateBytes (original : Bytes) (edits : List NativeByteEdit) : Option Bytes :=
  spliceEdits (original.length + 1) original
    (edits.insertionSort fun a b ↦ b.start ≤ a.start)

end MiLsp.Rename
