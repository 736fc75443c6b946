import MiLsp.Ids.Stable
import MiLsp.Library.Paths

namespace MiLsp.Ids

open Library Strings Decimal List Percent

section Text

def visible (b : UInt8) : Bool := 33 ≤ b && b ≤ 126

variable {b : UInt8} {s : Bytes}

theorem visible_toNat (h : visible b = true) : 33 ≤ b.toNat ∧ b.toNat ≤ 126 := by
  simp only [visible, Bool.and_eq_true, decide_eq_true_eq, UInt8.le_iff_toNat_le] at h
  exact h

theorem isSpace1_visible (h : visible b = true) : isSpace1 b = false := by
  have hb := visible_toNat h
  rw [isSpace1, decide_eq_false_iff_not]
  intro hmem
  simp only [mem_cons, not_mem_nil, or_false] at hmem
  rcases hmem with rfl | rfl | rfl | rfl | rfl | rfl <;> simp at hb

theorem isSpace2_toNat {a : UInt8} (h : isSpace2 a b = true) : 128 ≤ a.toNat ∧ 128 ≤ b.toNat := by
  simp only [isSpace2, Bool.and_eq_true, decide_eq_true_eq, mem_cons, not_mem_nil, or_false] at h
  obtain ⟨rfl, rfl | rfl⟩ := h <;> decide

theorem isSpace3_toNat {a c : UInt8} (h : isSpace3 a b c = true) :
    128 ≤ a.toNat ∧ 128 ≤ c.toNat := by
  simp only [isSpace3, Bool.or_eq_true, Bool.and_eq_true, decide_eq_true_eq, mem_cons,
    not_mem_nil, or_false, UInt8.le_iff_toNat_le] at h
  rcases h with (⟨⟨rfl, -⟩, rfl⟩ | ⟨⟨rfl, -⟩, rfl⟩) |
      ⟨rfl, ⟨-, rfl⟩ | ⟨-, ⟨hle, -⟩ | rfl | rfl | rfl⟩⟩
  all_goals first | decide | exact ⟨by decide, hle⟩

theorem isSpace2_visible (h : visible b = true) (c : UInt8) :
    isSpace2 b c = false ∧ isSpace2 c b = false := by
  have hb := visible_toNat h
  rw [← Bool.not_eq_true, ← Bool.not_eq_true]
  constructor <;>
  · intro hspace
    have := isSpace2_toNat hspace
    omega

theorem isSpace3_visible (h : visible b = true) (c d : UInt8) :
    isSpace3 b c d = false ∧ isSpace3 c d b = false := by
  have hb := visible_toNat h
  rw [← Bool.not_eq_true, ← Bool.not_eq_true]
  constructor <;>
  · intro hspace
    have := isSpace3_toNat hspace
    omega

theorem trimLeft_visible (h : visible b = true) (rest : Bytes) :
    trimLeft (b :: rest) = b :: rest := by
  rcases rest with - | ⟨c, - | ⟨d, rest⟩⟩ <;>
    simp [trimLeft, isSpace1_visible h, isSpace2_visible h, isSpace3_visible h]

theorem trimRightReversed_visible (h : visible b = true) (rest : Bytes) :
    trimRightReversed (b :: rest) = b :: rest := by
  rcases rest with - | ⟨c, - | ⟨d, rest⟩⟩ <;>
    simp [trimRightReversed, isSpace1_visible h, isSpace2_visible h, isSpace3_visible h]

theorem trimSpaceBytes_visible {first last : UInt8} (middle : Bytes) (hfirst : visible first = true)
    (hlast : visible last = true) :
    trimSpaceBytes (first :: (middle ++ [last])) = first :: (middle ++ [last]) := by
  rw [trimSpaceBytes, trimLeft_visible hfirst, reverse_cons, reverse_append, reverse_singleton,
    singleton_append, cons_append, trimRightReversed_visible hlast]
  simp

theorem cutFirst_append {before : Bytes} (h : b ∉ before) (after : Bytes) :
    cutFirst b (before ++ b :: after) = some (before, after) := by
  have hnone : before.findIdx? (· = b) = none := by
    rw [findIdx?_eq_none_iff]
    intro c hc
    rw [decide_eq_false_iff_not]
    rintro rfl
    exact h hc
  rw [cutFirst, findIdx?_append, hnone, findIdx?_cons, if_pos (by simp)]
  simp [drop_append]

theorem cutFirst_eq_none (h : b ∉ s) : cutFirst b s = none := by
  rw [cutFirst, Option.map_eq_none_iff, findIdx?_eq_none_iff]
  intro c hc
  rw [decide_eq_false_iff_not]
  rintro rfl
  exact h hc

theorem cutLast_append {after : Bytes} (before : Bytes) (h : b ∉ after) :
    cutLast b (before ++ b :: after) = some (before, after) := by
  rw [cutLast, reverse_append, reverse_cons, append_assoc, singleton_append,
    cutFirst_append (by simpa using h)]
  simp

theorem cutLast_eq_none (h : b ∉ s) : cutLast b s = none := by
  rw [cutLast, cutFirst_eq_none (by simpa using h), Option.map_none]

theorem exists_cutLast (h : b ∈ s) : ∃ before after, cutLast b s = some (before, after) := by
  obtain ⟨after, before, heq, hnot⟩ := eq_append_cons_of_mem (mem_reverse.mpr h)
  rw [cutLast, heq, cutFirst_append hnot]
  exact ⟨_, _, rfl⟩

end Text

section Coding

variable {b : UInt8} {value : Bytes}

theorem unreserved_visible (h : unreserved b = true) : visible b = true := by
  simp only [unreserved, Bool.or_eq_true, Bool.and_eq_true, decide_eq_true_eq, mem_cons,
    not_mem_nil, or_false, UInt8.le_iff_toNat_le] at h
  simp only [visible, Bool.and_eq_true, decide_eq_true_eq, UInt8.le_iff_toNat_le]
  rcases h with ((⟨hlow, hhigh⟩ | ⟨hlow, hhigh⟩) | ⟨hlow, hhigh⟩) | rfl | rfl | rfl | rfl
  all_goals simp at *
  all_goals omega

theorem mem_encodeIDPart (h : b ∈ encodeIDPart value) : unreserved b = true ∨ b = percent := by
  have hdigit : ∀ n < 16, unreserved (hexDigit n) = true := by decide
  rcases mem_encode h with hkeep | rfl | ⟨n, hn, rfl⟩
  · exact .inl hkeep
  · exact .inr rfl
  · exact .inl (hdigit n hn)

theorem visible_encodeIDPart (h : b ∈ encodeIDPart value) : visible b = true := by
  rcases mem_encodeIDPart h with hb | rfl
  · exact unreserved_visible hb
  · rfl

theorem slash_notMem_encodeIDPart (value : Bytes) : slash ∉ encodeIDPart value := by
  intro h
  rcases mem_encodeIDPart h with h | h <;> cases h

theorem hash_notMem_encodeIDPart (value : Bytes) : hash ∉ encodeIDPart value := by
  intro h
  rcases mem_encodeIDPart h with h | h <;> cases h

theorem decodeIDPart_encodeIDPart (value : Bytes) :
    decodeIDPart (encodeIDPart value) = some value :=
  decode_encode rfl value

theorem hash_notMem_encodeIDPath (value : Bytes) : hash ∉ encodeIDPath value := by
  intro h
  obtain ⟨part, hpart, hb⟩ := (mem_intercalate_iff (by decide)).mp h
  obtain ⟨plain, -, rfl⟩ := mem_map.mp hpart
  exact hash_notMem_encodeIDPart plain hb

theorem mapM_decodeIDPart (parts : List Bytes) :
    (parts.map encodeIDPart).mapM decodeIDPart = some parts := by
  induction parts with
  | nil => rfl
  | cons part parts ih =>
    rw [map_cons, mapM_cons, decodeIDPart_encodeIDPart, ih]
    rfl

theorem decodeIDPath_encodeIDPath (value : Bytes) :
    decodeIDPath (encodeIDPath value) = some (slashed value) := by
  have hslash : ∀ part ∈ ((slashed value).splitOn slash).map encodeIDPart, slash ∉ part := by
    intro part hpart
    obtain ⟨plain, -, rfl⟩ := mem_map.mp hpart
    exact slash_notMem_encodeIDPart plain
  rw [decodeIDPath, encodeIDPath, splitOn_intercalate slash hslash (by simp),
    mapM_decodeIDPart, Option.map_some, intercalate_splitOn]

theorem slashed_eq_self_iff (value : Bytes) : slashed value = value ↔ backslash ∉ value := by
  induction value with
  | nil => simp [slashed]
  | cons b value ih =>
    rw [slashed, map_cons, cons_eq_cons, ← slashed, ih, mem_cons, not_or]
    refine and_congr_left' ?_
    split_ifs with hb
    · rw [hb]
      decide
    · simpa using Ne.symm hb

theorem notMem_of_isHex (h : isHex value = true) (hb : hexByte b = false) : b ∉ value := by
  intro hmem
  rw [isHex, Bool.and_eq_true, all_eq_true] at h
  rw [h.2 b hmem] at hb
  cases hb

end Coding

variable {lower : Lower} {id : ID}

section Parse

theorem parseScheme_name (scheme : IDScheme) : parseScheme scheme.name = .ok scheme := by
  cases scheme <;> decide

theorem slash_notMem_name (scheme : IDScheme) : slash ∉ scheme.name := by
  cases scheme <;> decide

structure Stable (lower : Lower) (id : ID) : Prop where
  length : id.workspaceID.length = 64
  hex : isHex id.workspaceID = true
  legacy : id.legacy = false
  text : id.symbolText lower ≠ []

section

variable (h : Stable lower id)
include h

theorem Stable.string_eq :
    id.string lower = utf8 "ws:" ++ (id.workspaceID ++ slash ::
      (id.scheme.name ++ slash :: (encodeIDPath id.file ++ hash ::
        encodeIDPart (id.symbolText lower)))) := by
  have hne : id.workspaceID ≠ [] := by
    intro hnil
    have hlength := h.length
    rw [hnil] at hlength
    cases hlength
  rw [ID.string, if_neg (by simp [h.legacy, hne])]
  simp

theorem Stable.parseStableID_string :
    parseStableID lower (id.string lower) =
      parseSymbolText lower
        { scheme := id.scheme, workspaceID := id.workspaceID, file := slashed id.file }
        (id.symbolText lower) := by
  have htrim : trimPrefixBytes (id.string lower) (utf8 "ws:") = id.workspaceID ++ slash ::
      (id.scheme.name ++ slash :: (encodeIDPath id.file ++ hash ::
        encodeIDPart (id.symbolText lower))) := by
    rw [h.string_eq, trimPrefixBytes, if_pos (by simp), drop_left]
  obtain ⟨b, rest, heq⟩ := exists_cons_of_ne_nil h.text
  rw [parseStableID, htrim, cutFirst_append (notMem_of_isHex h.hex (by decide))]
  dsimp only
  rw [cutFirst_append (slash_notMem_name id.scheme)]
  dsimp only
  rw [if_neg (by simp [h.length, h.hex]), cutFirst_append (hash_notMem_encodeIDPath id.file)]
  dsimp only
  rw [parseScheme_name, decodeIDPath_encodeIDPath, decodeIDPart_encodeIDPart, heq]
  rfl

theorem Stable.trimSpaceBytes_string : trimSpaceBytes (id.string lower) = id.string lower := by
  have hpart : encodeIDPart (id.symbolText lower) ≠ [] := encode_ne_nil h.text
  obtain ⟨front, last, heq⟩ := (eq_nil_or_concat _).resolve_left hpart
  have hmem : last ∈ encodeIDPart (id.symbolText lower) := by simp [heq]
  have hstring : id.string lower = 119 :: ((utf8 "s:" ++ id.workspaceID ++ [slash] ++
      id.scheme.name ++ [slash] ++ encodeIDPath id.file ++ [hash] ++ front) ++ [last]) := by
    rw [h.string_eq, heq]
    simp [utf8]
    rfl
  rw [hstring]
  exact trimSpaceBytes_visible _ rfl (visible_encodeIDPart hmem)

theorem Stable.parseID_string :
    parseID lower (id.string lower) =
      parseSymbolText lower
        { scheme := id.scheme, workspaceID := id.workspaceID, file := slashed id.file }
        (id.symbolText lower) := by
  have hprefix : (utf8 "ws:").isPrefixOf (id.string lower) = true := by
    rw [h.string_eq]
    simp
  rw [parseID, h.trimSpaceBytes_string, if_pos hprefix, h.parseStableID_string]

end

end Parse

def RoundTrips (lower : Lower) (id : ID) : Prop :=
  parseID lower (id.string lower) = .ok { id with rev := [] }

theorem RoundTrips.string_inj {other : ID} (hid : RoundTrips lower id)
    (hother : RoundTrips lower other) (h : id.string lower = other.string lower) :
    { id with rev := [] } = { other with rev := [] } := by
  rw [RoundTrips, h, hother, Except.ok.injEq] at hid
  exact hid.symm

section Schemes

variable {workspaceID : Bytes} (hlength : workspaceID.length = 64)
  (hhex : isHex workspaceID = true)

include hlength hhex

variable {rec : SymbolRecord} {docID : Bytes} (rev : Bytes)

theorem stable_symbol (withSig : Bool) (hname : symbolQName rec ≠ []) :
    Stable lower (stableSymbolID lower workspaceID rec rev withSig) :=
  ⟨hlength, hhex, rfl, by simp [ID.symbolText, stableSymbolID, hname]⟩

theorem parseID_signed (hsigned : signed lower rec = true) :
    parseID lower ((stableSymbolID lower workspaceID rec rev true).string lower) =
      .ok { scheme := .symbol
            workspaceID
            file := slashed rec.filePath
            name := symbolQName rec
            sig := lower.toLower (trimSpaceBytes rec.signatureHash) } := by
  have hcand := hsigned
  simp only [signed, Bool.and_eq_true, decide_eq_true_eq] at hcand
  have hne : lower.toLower (trimSpaceBytes rec.signatureHash) ≠ [] := by
    intro h
    rw [h] at hcand
    cases hcand.1
  have hlower := lower.toLower_hex _ hcand.2
  have htext : (stableSymbolID lower workspaceID rec rev true).symbolText lower =
      symbolQName rec ++ tilde :: lower.toLower (trimSpaceBytes rec.signatureHash) := by
    simp [ID.symbolText, stableSymbolID, hsigned, hne, hlower]
  have hstable : Stable lower (stableSymbolID lower workspaceID rec rev true) :=
    ⟨hlength, hhex, rfl, by simp [htext]⟩
  rw [hstable.parseID_string, htext, parseSymbolText]
  dsimp only [stableSymbolID]
  rw [cutLast_append _ (notMem_of_isHex hcand.2 (by decide))]
  dsimp only
  rw [if_neg (by simp [hcand.1, hcand.2]), hlower]

theorem symbol_roundTrips_iff (withSig : Bool) (hname : symbolQName rec ≠ []) :
    RoundTrips lower (stableSymbolID lower workspaceID rec rev withSig) ↔
      backslash ∉ rec.filePath ∧
        (tilde ∉ symbolQName rec ∨ withSig = true ∧ signed lower rec = true) := by
  rw [RoundTrips, ← slashed_eq_self_iff]
  by_cases hsig : withSig = true ∧ signed lower rec = true
  · obtain ⟨rfl, hsigned⟩ := hsig
    rw [parseID_signed hlength hhex rev hsigned]
    simp [stableSymbolID, hsigned]
  · have htext : (stableSymbolID lower workspaceID rec rev withSig).symbolText lower =
        symbolQName rec := by
      simp only [ID.symbolText, stableSymbolID, Bool.and_eq_true, if_neg hsig]
      simp
    rw [(stable_symbol hlength hhex rev withSig hname).parseID_string, htext, parseSymbolText]
    dsimp only [stableSymbolID]
    simp only [Bool.and_eq_true, if_neg hsig]
    by_cases htilde : tilde ∈ symbolQName rec
    · obtain ⟨before, after, hcut⟩ := exists_cutLast htilde
      rw [hcut]
      dsimp only
      split_ifs with hafter
      · simp [htilde, hsig]
      · have hne : lower.toLower after ≠ [] := by
          simp only [not_or, ne_eq, not_not, Bool.not_eq_false] at hafter
          rw [lower.toLower_hex _ hafter.2]
          intro h
          rw [h] at hafter
          cases hafter.1
        simp [htilde, hsig, hne]
    · rw [cutLast_eq_none htilde]
      simp [htilde]

variable (file : Bytes)

theorem stable_range (start stop : ℤ) (rev : Bytes) :
    Stable lower (stableRangeID workspaceID file start stop rev) :=
  ⟨hlength, hhex, rfl, by simp [ID.symbolText, stableRangeID]⟩

theorem range_roundTrips_iff {start stop : ℤ} (rev : Bytes) (hstart : 1 ≤ start)
    (hstop : start ≤ stop) (hint : stop < 2 ^ 63) :
    RoundTrips lower (stableRangeID workspaceID file start stop rev) ↔ backslash ∉ file := by
  have hminus : minus ∉ itoa start := by
    intro h
    rw [itoa, if_neg (by omega)] at h
    cases isDigit_decimal h
  have hne : itoa start ≠ [] := by
    rw [itoa, if_neg (by omega)]
    exact decimal_ne_nil _
  rw [RoundTrips, (stable_range hlength hhex file start stop rev).parseID_string,
    ← slashed_eq_self_iff, parseSymbolText]
  dsimp only [ID.symbolText, stableRangeID]
  rw [if_neg (by omega), append_assoc, singleton_append, cutFirst_append hminus]
  dsimp only
  rw [if_neg hne, parseRange, atoi_itoa (by omega) (by omega), atoi_itoa (by omega) hint]
  dsimp only
  rw [if_neg (by omega)]
  simp

theorem stable_document (rev : Bytes) (hname : docID ≠ []) :
    Stable lower (stableDocumentID workspaceID file docID rev) :=
  ⟨hlength, hhex, rfl, hname⟩

theorem document_roundTrips_iff (rev : Bytes) (hname : docID ≠ []) :
    RoundTrips lower (stableDocumentID workspaceID file docID rev) ↔
      backslash ∉ file ∧ (file = [] → backslash ∉ docID) := by
  rw [RoundTrips, (stable_document hlength hhex file rev hname).parseID_string, parseSymbolText]
  dsimp only [ID.symbolText, stableDocumentID]
  have hfile : slashed (if file = [] then utf8 "_wiki/" ++ docID else file) =
      (if file = [] then utf8 "_wiki/" ++ docID else file) ↔
      backslash ∉ file ∧ (file = [] → backslash ∉ docID) := by
    have hwiki : backslash ∉ utf8 "_wiki/" := by decide
    rw [slashed_eq_self_iff]
    split_ifs with hnil
    · simp [hnil, hwiki]
    · simp [hnil]
  rw [← hfile]
  simp

end Schemes

inductive Subject
  | symbol (rec : SymbolRecord) (withSig : Bool)
  | range (file : Bytes) (start stop : ℤ)
  | document (file docID : Bytes)

namespace Subject

def stableID (lower : Lower) (workspaceID rev : Bytes) : Subject → ID
  | symbol rec withSig => stableSymbolID lower workspaceID rec rev withSig
  | range file start stop => stableRangeID workspaceID file start stop rev
  | document file docID => stableDocumentID workspaceID file docID rev

/-- Names are not empty, and the lines of a range are 64-bit numbers in order. -/
def Valid : Subject → Prop
  | symbol rec _ => symbolQName rec ≠ []
  | range _ start stop => 1 ≤ start ∧ start ≤ stop ∧ stop < 2 ^ 63
  | document _ docID => docID ≠ []

/-- The file has no back-slash, and a name with a tilde comes with a signature. -/
def Plain (lower : Lower) : Subject → Prop
  | symbol rec withSig =>
    backslash ∉ rec.filePath ∧
      (tilde ∉ symbolQName rec ∨ withSig = true ∧ signed lower rec = true)
  | range file _ _ => backslash ∉ file
  | document file docID => backslash ∉ file ∧ (file = [] → backslash ∉ docID)

theorem id_roundTrips_iff {workspaceID : Bytes} (hlength : workspaceID.length = 64)
    (hhex : isHex workspaceID = true) {subject : Subject} (hvalid : subject.Valid) (rev : Bytes) :
    RoundTrips lower (subject.stableID lower workspaceID rev) ↔ subject.Plain lower := by
  cases subject with
  | symbol rec withSig => exact symbol_roundTrips_iff hlength hhex rev withSig hvalid
  | range file start stop =>
    obtain ⟨hstart, hstop, hint⟩ := hvalid
    exact range_roundTrips_iff hlength hhex file rev hstart hstop hint
  | document file docID => exact document_roundTrips_iff hlength hhex file rev hvalid

end Subject

/-- An identity is read back exactly when its file has no back-slash and its name no tilde that
looks like a signature's. -/
theorem stable_id_read_back (lower : Lower) :
    (∀ (workspaceID : Bytes) (subject : Subject) (rev : Bytes),
      workspaceID.length = 64 → isHex workspaceID = true → subject.Valid →
      (RoundTrips lower (subject.stableID lower workspaceID rev) ↔ subject.Plain lower)) ∧
    ∀ (workspaceID workspaceID' : Bytes) (subject subject' : Subject) (rev rev' : Bytes),
      workspaceID.length = 64 → isHex workspaceID = true →
      workspaceID'.length = 64 → isHex workspaceID' = true →
      subject.Valid → subject'.Valid → subject.Plain lower → subject'.Plain lower →
      (subject.stableID lower workspaceID rev).string lower =
        (subject'.stableID lower workspaceID' rev').string lower →
      { subject.stableID lower workspaceID rev with rev := [] } =
        { subject'.stableID lower workspaceID' rev' with rev := [] } := by
  refine ⟨fun _ _ rev hlength hhex hvalid ↦ Subject.id_roundTrips_iff hlength hhex hvalid rev, ?_⟩
  intro _ _ subject subject' rev rev' hlength hhex hlength' hhex' hvalid hvalid' hplain hplain'
  have htrip := (Subject.id_roundTrips_iff hlength hhex hvalid rev).mpr hplain
  have htrip' := (Subject.id_roundTrips_iff hlength' hhex' hvalid' rev').mpr hplain'
  exact htrip.string_inj htrip'

def asciiLower : Lower where
  toLower s := s.map fun b ↦ if 65 ≤ b ∧ b ≤ 90 then b + 32 else b
  toLower_hex s h := by
    rw [isHex, Bool.and_eq_true, all_eq_true] at h
    refine (map_congr_left fun b hb ↦ if_neg ?_).trans (map_id s)
    have hbyte := h.2 b hb
    simp only [hexByte, Bool.or_eq_true, Bool.and_eq_true, decide_eq_true_eq,
      UInt8.le_iff_toNat_le] at hbyte
    simp only [UInt8.le_iff_toNat_le]
    simp at *
    omega

def sampleWorkspace : Bytes := List.replicate 64 97

def destructor : SymbolRecord where
  filePath := utf8 "src/foo.cpp"
  qualifiedName := []
  parent := []
  name := utf8 "~Foo"
  signatureHash := []

def signedLike : SymbolRecord :=
  { destructor with name := utf8 "Foo~" ++ sampleWorkspace }

def withSignature : SymbolRecord :=
  { destructor with name := utf8 "Foo", signatureHash := sampleWorkspace }

theorem signed_destructor_read_back :
    RoundTrips asciiLower ((Subject.symbol { destructor with signatureHash := sampleWorkspace }
      true).stableID asciiLower sampleWorkspace []) := by
  refine ((stable_id_read_back asciiLower).1 _ _ _ (by decide) (by decide) ?_).mpr
    ⟨by decide, .inr ⟨rfl, by decide +kernel⟩⟩
  change symbolQName _ ≠ []
  decide

/-- A destructor's identity is refused, and a name that ends like a signature has another symbol's
text. -/
theorem destructor_not_read_back :
    (Subject.symbol destructor false).Valid ∧ backslash ∉ destructor.filePath ∧
    parseID asciiLower
        ((stableSymbolID asciiLower sampleWorkspace destructor [] false).string asciiLower) =
      .error .signatureHash ∧
    (stableSymbolID asciiLower sampleWorkspace signedLike [] true).string asciiLower =
      (stableSymbolID asciiLower sampleWorkspace withSignature [] true).string asciiLower ∧
    (stableSymbolID asciiLower sampleWorkspace signedLike [] true).name ≠
      (stableSymbolID asciiLower sampleWorkspace withSignature [] true).name := by
  refine ⟨?_, by decide, by decide +kernel, by decide +kernel, by decide +kernel⟩
  change symbolQName destructor ≠ []
  decide

end MiLsp.Ids
