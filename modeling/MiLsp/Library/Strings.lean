import Mathlib.Data.List.DropRight
import Mathlib.Data.List.Infix

namespace MiLsp.Library.Strings

open List

abbrev Bytes := List UInt8

def newline : UInt8 := 10

def carriageReturn : UInt8 := 13

def isSpace (c : Char) : Bool :=
  c.val ∈ [0x09, 0x0A, 0x0B, 0x0C, 0x0D, 0x20, 0x85, 0xA0, 0x1680, 0x2028, 0x2029, 0x202F, 0x205F,
    0x3000] || (0x2000 ≤ c.val && c.val ≤ 0x200A)

variable (s : String)

def trimSpace : String :=
  String.ofList (((s.toList.dropWhile isSpace).reverse.dropWhile isSpace).reverse)

theorem trimSpace_sublist : (trimSpace s).toList.Sublist s.toList := by
  rw [trimSpace, String.toList_ofList]
  exact (List.rdropWhile_prefix isSpace _).sublist.trans (dropWhile_sublist isSpace)

theorem trimSpace_trimSpace : trimSpace (trimSpace s) = trimSpace s := by
  let front := s.toList.dropWhile isSpace
  have htrim : trimSpace s = String.ofList (front.rdropWhile isSpace) := rfl
  -- the first character that is left was the first one that is no white space
  have hleft : (front.rdropWhile isSpace).dropWhile isSpace = front.rdropWhile isSpace := by
    rw [dropWhile_eq_self_iff]
    intro hlength
    have hle := (List.rdropWhile_prefix isSpace front).length_le
    rw [(List.rdropWhile_prefix isSpace front).getElem hlength]
    exact dropWhile_get_zero_not isSpace s.toList (hlength.trans_le hle)
  rw [htrim, trimSpace, String.toList_ofList, hleft]
  exact congrArg String.ofList (rdropWhile_idempotent isSpace front)

theorem trimSpace_ne_empty {s : String} {c : Char} (hc : c ∈ s.toList) (h : isSpace c = false) :
    trimSpace s ≠ "" := by
  intro hempty
  have hback : (s.toList.dropWhile isSpace).reverse.dropWhile isSpace = [] := by
    rw [trimSpace] at hempty
    simpa using congrArg String.toList hempty
  rw [dropWhile_eq_nil_iff] at hback
  cases hfront : s.toList.dropWhile isSpace with
  | nil =>
    have hspace := dropWhile_eq_nil_iff.mp hfront c hc
    rw [h] at hspace
    cases hspace
  | cons d rest =>
    have hlength : 0 < (s.toList.dropWhile isSpace).length := by simp [hfront]
    have hfirst := dropWhile_get_zero_not isSpace s.toList hlength
    exact hfirst (hback _ (mem_reverse.mpr (get_mem _ _)))

def isSpace1 (a : UInt8) : Bool := a ∈ [9, 10, 11, 12, 13, 32]

def isSpace2 (a b : UInt8) : Bool := a = 0xC2 && b ∈ [0x85, 0xA0]

def isSpace3 (a b c : UInt8) : Bool :=
  a = 0xE1 && b = 0x9A && c = 0x80 || a = 0xE3 && b = 0x80 && c = 0x80 ||
    a = 0xE2 && (b = 0x81 && c = 0x9F ||
      b = 0x80 && (0x80 ≤ c && c ≤ 0x8A || c ∈ [0xA8, 0xA9, 0xAF]))

def isBlank : Bytes → Bool
  | [] => true
  | [a] => isSpace1 a
  | [a, b] => isSpace2 a b || isSpace1 a && isBlank [b]
  | a :: b :: c :: rest =>
    isSpace3 a b c && isBlank rest || isSpace2 a b && isBlank (c :: rest) ||
      isSpace1 a && isBlank (b :: c :: rest)

def utf8 : Bytes := s.toList.flatMap String.utf8EncodeChar

theorem utf8_ne_nil {s : String} (h : s ≠ "") : utf8 s ≠ [] := by
  intro hnil
  refine h (String.ext (eq_nil_iff_forall_not_mem.mpr fun c hc ↦ ?_))
  have hlength := congrArg List.length (flatMap_eq_nil_iff.mp hnil c hc)
  rw [String.length_utf8EncodeChar] at hlength
  exact c.utf8Size_pos.ne' hlength

theorem utf8_inj {v v' : String} : utf8 v = utf8 v' ↔ v = v' := by
  constructor
  · intro h
    have hbytes : v.toList.utf8Encode = v'.toList.utf8Encode := congrArg List.toByteArray h
    rw [String.utf8Encode_toList, String.utf8Encode_toList] at hbytes
    exact String.toByteArray_inj.mp hbytes
  · intro h
    rw [h]

def containsRune (c : Char) : Bool := decide (c ∈ s.toList)

def containsText (s sub : String) : Bool := decide (sub.toList <:+: s.toList)

def hasPrefix (s pre : String) : Bool := pre.toList.isPrefixOf s.toList

def hasSuffix (s suf : String) : Bool := suf.toList.isSuffixOf s.toList

def trimPrefix (s pre : String) : String :=
  if hasPrefix s pre then String.ofList (s.toList.drop pre.length) else s

def trimSuffix (s suf : String) : String :=
  if hasSuffix s suf then String.ofList (s.toList.take (s.length - suf.length)) else s

def ext (path : String) : String :=
  let base := path.toList.reverse.takeWhile (· ≠ '/')
  if '.' ∈ base then String.ofList ('.' :: (base.takeWhile (· ≠ '.')).reverse) else ""

/-- Occurrences without overlap; the first `skip` bytes belong to one already counted. -/
def countFrom (sub : Bytes) : ℕ → Bytes → ℕ
  | _, [] => 0
  | skip + 1, _ :: rest => countFrom sub skip rest
  | 0, b :: rest =>
    if sub.isPrefixOf (b :: rest) then countFrom sub (sub.length - 1) rest + 1
    else countFrom sub 0 rest

def count (s sub : Bytes) : ℕ := countFrom sub 0 s

def contains (s sub : Bytes) : Bool := 0 < count s sub

/-- Replace occurrences of `old`, at most `limit` of them when a limit is given. -/
def replaceFrom (old new : Bytes) : Option ℕ → ℕ → Bytes → Bytes
  | _, _, [] => []
  | limit, skip + 1, _ :: rest => replaceFrom old new limit skip rest
  | limit, 0, b :: rest =>
    if limit ≠ some 0 ∧ old.isPrefixOf (b :: rest) then
      new ++ replaceFrom old new (limit.map (· - 1)) (old.length - 1) rest
    else b :: replaceFrom old new limit 0 rest

def replace (s old new : Bytes) (limit : Option ℕ) : Bytes := replaceFrom old new limit 0 s

def replaceAll (s old new : Bytes) : Bytes := replace s old new none

end MiLsp.Library.Strings
