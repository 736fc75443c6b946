import Mathlib.Data.Char
import Mathlib.Data.List.Lex
import Mathlib.Data.List.Pairwise
import Mathlib.Data.Prod.Lex
import MiLsp.Library.Decimal
import MiLsp.Query.Primitives

namespace MiLsp.Query

open Library List OrderDual Prod.Lex QItem

variable (host : QHost)

def QItem.value (item : QItem) : String → Option QValue
  | "id" => some (.text item.id)
  | "kind" => some (.text item.kind)
  | "name" => some (.text item.name)
  | "file" | "path" => some (.text item.file)
  | "line" => some (.number item.line)
  | "end_line" => some (.number item.endLine)
  | "origin" => some (.text item.origin)
  | "lang" => some (.text item.lang)
  | "parent" => some (.text item.parent)
  | "signature" => some (.text item.signature)
  | "title" => some (.text item.title)
  | "layer" => some (.text item.layer)
  | "score" => some (.number item.score)
  | "text" => some (.text item.text)
  | "edge" => item.edge.map .edge
  | "in" => some (.text item.inside)
  | "rev" => if item.rev host = "" then none else some (.text ("rev:" ++ item.rev host))
  | "truncated_item" => some (.flag item.truncatedItem)
  | "stale" => some (.flag item.stale)
  | "missing" => some (.flag item.missing)
  | "seen" => some (.flag item.seen)
  | _ => none

def intText (n : ℤ) : List Char := (Decimal.itoa n).map Char.ofUInt8

def sprint : Option QValue → List Char
  | none => "<nil>".toList
  | some (.text value) => value.toList
  | some (.number value) => intText value
  | some (.flag value) => (if value then "true" else "false").toList
  | some (.edge value) =>
    "&\x7b".toList ++ value.dir.toList ++ ' ' :: value.origin.toList ++ ' ' ::
      intText value.depth ++ "\x7d".toList

def QItem.printed (item : QItem) (field : String) : List Char := sprint (item.value host field)

structure Stage where
  args : List String

variable (field : String)

def fieldAllowed : Bool :=
  field ∈ ["id", "rev", "kind", "name", "file", "path", "line", "end_line", "origin", "lang",
    "parent", "signature", "title", "layer", "score", "text", "edge", "in", "stale", "missing",
    "seen"]

def firstArg (s : Stage) : String := s.args.head?.getD ""

def sortField (s : Stage) : String := if firstArg s = "" then "file" else firstArg s

/-- The letters that equal folding takes for one another; the long s is one of s. -/
def foldLetter (c : Char) : Char := if c = 'ſ' then 's' else c.toLower

def sortDesc (s : Stage) : Bool :=
  match s.args with
  | _ :: direction :: _ => direction.toList.map foldLetter = "desc".toList
  | _ => false

def before (desc : Bool) (a b : QItem) : Bool :=
  if a.printed host field = b.printed host field then
    if a.line = b.line then a.id.toList < b.id.toList else a.line < b.line
  else if desc then b.printed host field < a.printed host field
  else a.printed host field < b.printed host field

def sliceStable (less : QItem → QItem → Bool) (items : List QItem) : List QItem :=
  items.insertionSort fun a b ↦ less b a = false

def qSort (items : List QItem) (s : Stage) : List QItem :=
  sliceStable (before host (sortField s) (sortDesc s)) items

def valueLess : Option QValue → Option QValue → Bool
  | some (.number x), some (.number y) => x < y
  | some (.number x), _ => x < 0
  | some (.text x), some (.text y) => x.toList < y.toList
  | some (.text x), _ => x.toList < []
  | _, _ => false

def fieldLess (a b : QItem) : Bool :=
  valueLess (a.value host field) (b.value host field)

def sortQItems (items : List QItem) (field : String) (desc : Bool) : List QItem :=
  sliceStable (fun a b ↦ if desc then fieldLess host field b a else fieldLess host field a b) items

section Stable

variable {items : List QItem} {less less' : QItem → QItem → Bool}

theorem sliceStable_perm : (sliceStable less items).Perm items := perm_insertionSort _ _

theorem sliceStable_eq_self (h : items.Pairwise fun a b ↦ less b a = false) :
    sliceStable less items = items :=
  List.Pairwise.insertionSort_eq h

theorem sliceStable_congr (h : ∀ a ∈ items, ∀ b ∈ items, less a b = less' a b) :
    sliceStable less items = sliceStable less' items := by
  have hinsert : ∀ (a : QItem) (l : List QItem), (∀ b ∈ l, less b a = less' b a) →
      l.orderedInsert (fun a b ↦ less b a = false) a =
        l.orderedInsert (fun a b ↦ less' b a = false) a := by
    intro a l hl
    induction l with
    | nil => rfl
    | cons b l ih =>
      obtain ⟨hb, hl⟩ := forall_mem_cons.mp hl
      simp only [List.orderedInsert, hb, ih hl]
  rw [sliceStable, sliceStable]
  induction items with
  | nil => rfl
  | cons a items ih =>
    have htail := ih fun b hb c hc ↦ h b (mem_cons_of_mem _ hb) c (mem_cons_of_mem _ hc)
    rw [insertionSort_cons, insertionSort_cons, htail]
    refine hinsert a _ fun b hb ↦ ?_
    rw [mem_insertionSort] at hb
    exact h b (mem_cons_of_mem _ hb) a mem_cons_self

section

variable {κ : Type} [LinearOrder κ] {key : QItem → κ}

theorem sliceStable_pairwise (h : ∀ a b, less a b = true ↔ key a < key b) :
    (sliceStable less items).Pairwise fun a b ↦ less b a = false := by
  have hrel (a b : QItem) : less b a = false ↔ key a ≤ key b := by
    rw [← Bool.not_eq_true, h, not_lt]
  have : Std.Total fun a b ↦ less b a = false :=
    ⟨fun a b ↦ (le_total (key a) (key b)).imp (hrel a b).mpr (hrel b a).mpr⟩
  have : IsTrans QItem fun a b ↦ less b a = false :=
    ⟨fun a b c hab hbc ↦ (hrel a c).mpr (((hrel a b).mp hab).trans ((hrel b c).mp hbc))⟩
  exact pairwise_insertionSort _ items

theorem sliceStable_eq {l : List QItem}
    (h : ∀ a ∈ items, ∀ b ∈ items, less a b = true ↔ key a < key b)
    (hinj : ∀ a ∈ items, ∀ b ∈ items, key a = key b → a = b) (hperm : l.Perm items)
    (hl : l.Pairwise fun a b ↦ less b a = false) : l = sliceStable less items := by
  have hcongr : sliceStable less items = sliceStable (fun a b ↦ key a < key b) items := by
    refine sliceStable_congr fun a ha b hb ↦ ?_
    rw [Bool.eq_iff_iff, h a ha b hb, decide_eq_true_eq]
  have hsorted : (sliceStable less items).Pairwise fun a b ↦ less b a = false := by
    rw [hcongr]
    refine (sliceStable_pairwise fun a b ↦ decide_eq_true_iff).imp_of_mem fun {a b} ha hb hab ↦ ?_
    rw [← Bool.not_eq_true, h b (sliceStable_perm.mem_iff.mp hb) a (sliceStable_perm.mem_iff.mp ha)]
    exact of_decide_eq_false hab
  refine List.Perm.eq_of_pairwise (fun a b ha hb hab hba ↦ ?_) hl hsorted
    (hperm.trans sliceStable_perm.symm)
  have ha := hperm.mem_iff.mp ha
  have hb := sliceStable_perm.mem_iff.mp hb
  rw [← Bool.not_eq_true, h b hb a ha, not_lt] at hab
  rw [← Bool.not_eq_true, h a ha b hb, not_lt] at hba
  exact hinj a ha b hb (le_antisymm hab hba)

end

end Stable

section Order

variable {host} {items : List QItem} {field : String} {desc : Bool}

/-- What follows when an item comes before another one in the result of `sort`. -/
structure Follows (host : QHost) (field : String) (desc : Bool) (a b : QItem) : Prop where
  printed : if desc then b.printed host field ≤ a.printed host field
    else a.printed host field ≤ b.printed host field
  ties : a.printed host field = b.printed host field →
    a.line < b.line ∨ a.line = b.line ∧ a.id.toList ≤ b.id.toList

section Keys

variable {κ : Type} [LinearOrder κ] {f : List Char → κ}

def sortKey (host : QHost) (field : String) (f : List Char → κ) (a : QItem) : κ ×ₗ ℤ ×ₗ List Char :=
  toLex (f (a.printed host field), toLex (a.line, a.id.toList))

variable (hf : ∀ x y, f x < f y ↔ if desc then y < x else x < y)

include hf

theorem injective_of_direction : Function.Injective f := by
  intro x y hxy
  have hlt := hf x y
  have hgt := hf y x
  rw [hxy] at hlt hgt
  simp only [lt_irrefl, false_iff] at hlt hgt
  split_ifs at hlt hgt
  · exact le_antisymm (not_lt.mp hlt) (not_lt.mp hgt)
  · exact le_antisymm (not_lt.mp hgt) (not_lt.mp hlt)

theorem before_iff (a b : QItem) :
    before host field desc a b = true ↔ sortKey host field f a < sortKey host field f b := by
  rw [before, sortKey, sortKey, toLex_lt_toLex, toLex_lt_toLex, hf,
    (injective_of_direction hf).eq_iff]
  by_cases hprinted : a.printed host field = b.printed host field
  · by_cases hline : a.line = b.line
    · simp [hprinted, hline]
    · simp [hprinted, hline]
  · cases desc <;> simp [hprinted]

end Keys

theorem sorted_before :
    (sliceStable (before host field desc) items).Pairwise fun a b ↦
      before host field desc b a = false := by
  cases desc with
  | false =>
    have hf (x y : List Char) : id x < id y ↔ if false = true then y < x else x < y := by simp
    exact sliceStable_pairwise (before_iff hf)
  | true =>
    have hf (x y : List Char) : toDual x < toDual y ↔
        if true = true then y < x else x < y := by simp
    exact sliceStable_pairwise (before_iff hf)

theorem follows_of_not_before {a b : QItem} (h : before host field desc b a = false) :
    Follows host field desc a b := by
  rw [before] at h
  by_cases hprinted : b.printed host field = a.printed host field
  · refine ⟨by simp [hprinted], fun _ ↦ ?_⟩
    split_ifs at h with hline
    · exact .inr ⟨hline.symm, not_lt.mp (of_decide_eq_false h)⟩
    · exact .inl (lt_of_le_of_ne (not_lt.mp (of_decide_eq_false h)) (Ne.symm hline))
  · refine ⟨?_, fun heq ↦ absurd heq.symm hprinted⟩
    split_ifs at h ⊢ <;> exact not_lt.mp (of_decide_eq_false h)

theorem sorted_follows :
    (sliceStable (before host field desc) items).Pairwise (Follows host field desc) :=
  sorted_before.imp follows_of_not_before

def unorderedFields : List String := ["edge", "stale", "missing", "seen"]

theorem fieldLess_unordered (hfield : field ∈ unorderedFields) (a b : QItem) :
    fieldLess host field a b = false := by
  simp only [unorderedFields, mem_cons, not_mem_nil, or_false] at hfield
  rcases hfield with rfl | rfl | rfl | rfl
  · cases hedge : a.edge <;> simp [fieldLess, value, hedge, valueLess]
  all_goals simp [fieldLess, value, valueLess]

theorem value_kind (host : QHost) (hfield : fieldAllowed field = true)
    (hordered : field ∉ unorderedFields) :
    (∀ a : QItem, ∃ n, a.value host field = some (.number n)) ∨
      ∀ a : QItem, (a.value host field).isSome → ∃ s, a.value host field = some (.text s) := by
  by_cases hnumber : field ∈ ["line", "end_line", "score"]
  · left
    intro a
    simp only [mem_cons, not_mem_nil, or_false] at hnumber
    rcases hnumber with rfl | rfl | rfl
    all_goals exact ⟨_, rfl⟩
  · right
    intro a ha
    by_cases hrev : field = "rev"
    · subst hrev
      simp only [value] at ha ⊢
      split_ifs at ha ⊢
      · cases ha
      · exact ⟨_, rfl⟩
    · simp only [fieldAllowed, unorderedFields, decide_eq_true_eq, mem_cons,
        not_mem_nil, or_false] at hfield hordered hnumber
      have htext : field ∈ ["id", "kind", "name", "file", "path", "origin", "lang", "parent",
          "signature", "title", "layer", "text", "in"] := by
        simp only [mem_cons, not_mem_nil, or_false]
        tauto
      simp only [mem_cons, not_mem_nil, or_false] at htext
      rcases htext with rfl | rfl | rfl | rfl | rfl | rfl | rfl | rfl | rfl | rfl | rfl | rfl | rfl
      all_goals exact ⟨_, rfl⟩

def valueKey : Option QValue → ℤ ×ₗ List Char
  | some (.number n) => toLex (n, [])
  | some (.text s) => toLex (0, s.toList)
  | _ => toLex (0, [])

theorem valueLess_iff_valueKey (hfield : fieldAllowed field = true)
    (hordered : field ∉ unorderedFields) {a b : QItem} (ha : (a.value host field).isSome)
    (hb : (b.value host field).isSome) :
    (fieldLess host field a b = true ↔
      valueKey (a.value host field) < valueKey (b.value host field)) ∧
    (valueKey (a.value host field) = valueKey (b.value host field) →
      a.value host field = b.value host field) := by
  rw [fieldLess]
  rcases value_kind host hfield hordered with hkind | hkind
  · obtain ⟨m, hm⟩ := hkind a
    obtain ⟨n, hn⟩ := hkind b
    simp [hm, hn, valueLess, valueKey, toLex_lt_toLex]
  · obtain ⟨s, hs⟩ := hkind a ha
    obtain ⟨t, ht⟩ := hkind b hb
    simp [hs, ht, valueLess, valueKey, toLex_lt_toLex, String.toList_inj]

theorem intText_injective : Function.Injective intText := by
  have hchar : Function.Injective Char.ofUInt8 := by
    intro b c h
    have hval : b.toUInt32.toNat = c.toUInt32.toNat := congrArg (fun c : Char ↦ c.val.toNat) h
    exact UInt8.toNat_inj.mp hval
  exact (map_injective_iff.mpr hchar).comp Decimal.itoa_injective

theorem printed_ne_of_fieldLess (hfield : fieldAllowed field = true) {a b : QItem}
    (h : fieldLess host field a b = true) : a.printed host field ≠ b.printed host field := by
  by_cases hordered : field ∈ unorderedFields
  · rw [fieldLess_unordered hordered] at h
    cases h
  rw [fieldLess] at h
  rcases value_kind host hfield hordered with hkind | hkind
  · obtain ⟨m, hm⟩ := hkind a
    obtain ⟨n, hn⟩ := hkind b
    simp only [hm, hn, valueLess, decide_eq_true_eq] at h
    simp only [printed, hm, hn, sprint, ne_eq, intText_injective.eq_iff]
    exact h.ne
  · cases ha : a.value host field with
    | none => simp [ha, valueLess] at h
    | some v =>
      obtain ⟨s, hs⟩ := hkind a (by simp [ha])
      cases hb : b.value host field with
      | none => simp [hs, hb, valueLess] at h
      | some w =>
        obtain ⟨t, ht⟩ := hkind b (by simp [hb])
        simp only [hs, ht, valueLess, decide_eq_true_eq] at h
        simp only [printed, hs, ht, sprint]
        exact h.ne

end Order

section Agreement

structure SortedBy (host : QHost) (field : String) (desc : Bool) (items result : List QItem) :
    Prop where
  perm : result.Perm items
  ordered : result.Pairwise fun a b ↦
    (if desc then fieldLess host field a b else fieldLess host field b a) = false
  ties : result.Pairwise fun a b ↦ a.value host field = b.value host field →
    a.line < b.line ∨ a.line = b.line ∧ a.id.toList ≤ b.id.toList

def DistinctValues (host : QHost) (field : String) (items : List QItem) : Prop :=
  (∀ a ∈ items, (a.value host field).isSome) ∧ (items.map (·.value host field)).Nodup

def PrintedInOrder (host : QHost) (field : String) (items : List QItem) : Prop :=
  ∀ a ∈ items, ∀ b ∈ items, fieldLess host field a b = true →
    a.printed host field < b.printed host field

variable {host} {items : List QItem} {s : Stage}

theorem sortedBy_of_printed (h : PrintedInOrder host (sortField s) items) :
    SortedBy host (sortField s) (sortDesc s) items (qSort host items s) := by
  have hmem {a : QItem} (ha : a ∈ qSort host items s) : a ∈ items := sliceStable_perm.mem_iff.mp ha
  refine ⟨sliceStable_perm, ?_, ?_⟩
  · refine sorted_follows.imp_of_mem fun {a b} ha hb hab ↦ ?_
    have hprinted := hab.printed
    rw [← Bool.not_eq_true]
    intro hless
    split_ifs at hprinted hless
    · exact not_lt.mpr hprinted (h a (hmem ha) b (hmem hb) hless)
    · exact not_lt.mpr hprinted (h b (hmem hb) a (hmem ha) hless)
  · exact sorted_follows.imp fun {a b} hab hvalue ↦ hab.ties (congrArg sprint hvalue)

theorem printed_of_sortedBy (hfield : fieldAllowed (sortField s) = true)
    (h : SortedBy host (sortField s) (sortDesc s) items (qSort host items s)) :
    PrintedInOrder host (sortField s) items := by
  intro a ha b hb hless
  by_contra hprinted
  have hne := printed_ne_of_fieldLess hfield hless
  have hgt := lt_of_le_of_ne (not_lt.mp hprinted) hne.symm
  have hab : a ≠ b := fun h ↦ hne (by rw [h])
  let Agree (c d : QItem) : Prop :=
    (fieldLess host (sortField s) c d = true →
      ¬ d.printed host (sortField s) < c.printed host (sortField s)) ∧
    (fieldLess host (sortField s) d c = true →
      ¬ c.printed host (sortField s) < d.printed host (sortField s))
  have : Std.Symm Agree := ⟨fun _ _ ↦ And.symm⟩
  have hpair : (qSort host items s).Pairwise Agree := by
    refine (h.ordered.and sorted_follows).imp fun {c d} ⟨hvalue, hfollows⟩ ↦ ?_
    have hprinted := hfollows.printed
    split_ifs at hvalue hprinted
    · exact ⟨fun hlt ↦ absurd hlt (by simp [hvalue]), fun _ ↦ not_lt.mpr hprinted⟩
    · exact ⟨fun _ ↦ not_lt.mpr hprinted, fun hlt ↦ absurd hlt (by simp [hvalue])⟩
  exact (hpair.forall (h.perm.mem_iff.mpr ha) (h.perm.mem_iff.mpr hb) hab).1 hless hgt

theorem qSort_eq_sortQItems (hfield : fieldAllowed (sortField s) = true)
    (hordered : sortField s ∉ unorderedFields)
    (h : SortedBy host (sortField s) (sortDesc s) items (qSort host items s))
    (hdistinct : DistinctValues host (sortField s) items) :
    qSort host items s = sortQItems host items (sortField s) (sortDesc s) := by
  obtain ⟨hsome, hnodup⟩ := hdistinct
  have hkeys (a b : QItem) (ha : a ∈ items) (hb : b ∈ items) :=
    valueLess_iff_valueKey hfield hordered (hsome a ha) (hsome b hb)
  have hinj (a : QItem) (ha : a ∈ items) (b : QItem) (hb : b ∈ items)
      (hkey : valueKey (a.value host (sortField s)) = valueKey (b.value host (sortField s))) :
      a = b :=
    inj_on_of_nodup_map hnodup ha hb ((hkeys a b ha hb).2 hkey)
  have hsorted := h.ordered
  cases hdesc : sortDesc s with
  | false =>
    rw [hdesc] at hsorted
    exact sliceStable_eq (fun a ha b hb ↦ (hkeys a b ha hb).1) hinj h.perm hsorted
  | true =>
    rw [hdesc] at hsorted
    have hless (a : QItem) (ha : a ∈ items) (b : QItem) (hb : b ∈ items) :
        fieldLess host (sortField s) b a = true ↔
          toDual (valueKey (a.value host (sortField s))) <
            toDual (valueKey (b.value host (sortField s))) :=
      (hkeys b a hb ha).1
    exact sliceStable_eq hless hinj h.perm hsorted

theorem qSort_eq_iff_unordered (hunordered : sortField s ∈ unorderedFields) :
    qSort host items s = sortQItems host items (sortField s) (sortDesc s) ↔
      items.Pairwise fun a b ↦ before host (sortField s) (sortDesc s) b a = false := by
  have hself : sortQItems host items (sortField s) (sortDesc s) = items := by
    refine sliceStable_eq_self (pairwise_of_forall fun a b ↦ ?_)
    simp [fieldLess_unordered hunordered]
  rw [hself]
  refine ⟨fun h ↦ ?_, sliceStable_eq_self⟩
  have hsorted := @sorted_before host items (sortField s) (sortDesc s)
  rwa [show sliceStable _ items = items from h] at hsorted

/-- `sort` gives the order of the values, and for distinct ones that of `SortQItems`, exactly when
it is that of their printed forms; values that `SortQItems` does not compare must have stood so
before. -/
theorem qSort_typed_order (host : QHost) (items : List QItem) (s : Stage)
    (hfield : fieldAllowed (sortField s) = true) :
    SortedBy host (sortField s) (sortDesc s) items (qSort host items s) ∧
      (DistinctValues host (sortField s) items →
        qSort host items s = sortQItems host items (sortField s) (sortDesc s)) ↔
    PrintedInOrder host (sortField s) items ∧
      (sortField s ∈ unorderedFields → DistinctValues host (sortField s) items →
        items.Pairwise fun a b ↦ before host (sortField s) (sortDesc s) b a = false) := by
  constructor
  · intro ⟨hsorted, hequal⟩
    exact ⟨printed_of_sortedBy hfield hsorted,
      fun hunordered hdistinct ↦ (qSort_eq_iff_unordered hunordered).mp (hequal hdistinct)⟩
  · intro ⟨hprinted, hstood⟩
    have hsorted := sortedBy_of_printed hprinted
    refine ⟨hsorted, fun hdistinct ↦ ?_⟩
    by_cases hunordered : sortField s ∈ unorderedFields
    · exact (qSort_eq_iff_unordered hunordered).mpr (hstood hunordered hdistinct)
    · exact qSort_eq_sortQItems hfield hunordered hsorted hdistinct

def plainHost : QHost where
  revisionOf _ := ""
  frontmatterSensibilidad _ := ""
  queryDigest _ := ""

def byLine : Stage := ⟨["line"]⟩

theorem lines_sorted : SortedBy plainHost "line" false [{ line := 12 }, { line := 10 }]
      (qSort plainHost [{ line := 12 }, { line := 10 }] byLine) := by
  refine ((qSort_typed_order plainHost _ byLine (by decide)).mpr ⟨?_, fun h ↦ ?_⟩).1
  · simp only [PrintedInOrder, mem_cons, not_mem_nil, or_false, forall_eq_or_imp, forall_eq]
    decide +kernel
  · exact absurd h (by decide)

theorem lines_sorted_as_text :
    (qSort plainHost [{ line := 9 }, { line := 10 }] byLine).map (·.line) = [10, 9] ∧
    (sortQItems plainHost [{ line := 9 }, { line := 10 }] "line" false).map (·.line) = [9, 10] := by
  decide +kernel

end Agreement

end MiLsp.Query
