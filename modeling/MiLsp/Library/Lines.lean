import Mathlib.Data.List.Basic
import Mathlib.Data.List.Count
import Mathlib.Data.Nat.Basic

namespace MiLsp.Library.Lines

open List Option Prod

variable {α : Type} [DecidableEq α] (nl : α)

/-- Where the lines after the first start. A final terminator opens no further line. -/
def laterStarts (offset : ℕ) : List α → List ℕ
  | [] => []
  | b :: rest =>
    if b = nl ∧ rest ≠ [] then (offset + 1) :: laterStarts (offset + 1) rest
    else laterStarts (offset + 1) rest

variable (text : List α)

def lineStarts : List ℕ := 0 :: laterStarts nl 0 text

def lineCount : ℕ := (lineStarts nl text).length

def closed : Bool := text.getLast?.all (· = nl)

def profile : ℕ × Bool := (text.count nl, closed nl text)

@[simp]
theorem closed_nil : closed nl [] = true := rfl

@[simp]
theorem closed_singleton (b : α) : closed nl [b] = decide (b = nl) := rfl

variable {s t : List α} {i k first last start stop : ℕ}

theorem closed_append (ht : t ≠ []) : closed nl (s ++ t) = closed nl t := by
  have h : t.getLast? = some (t.getLast ht) := getLast?_eq_some_getLast ht
  simp [closed, getLast?_append, h]

theorem closed_cons {b : α} (ht : t ≠ []) : closed nl (b :: t) = closed nl t :=
  closed_append nl (s := [b]) ht

theorem eq_nil_of_closed (hc : closed nl t = true) (h : t.count nl = 0) : t = [] := by
  rcases eq_nil_or_concat t with rfl | ⟨s, b, rfl⟩
  · rfl
  · rw [concat_eq_append, closed_append nl (by simp), closed_singleton,
      decide_eq_true_eq] at hc
    simp [hc] at h

theorem length_laterStarts (offset : ℕ) (t : List α) :
    (laterStarts nl offset t).length = t.count nl - if closed nl t then 1 else 0 := by
  induction t generalizing offset with
  | nil => rfl
  | cons b rest ih =>
    by_cases hrest : rest = []
    · subst hrest
      by_cases hb : b = nl <;> simp [laterStarts, hb]
    · have hpos : closed nl rest = true → 0 < rest.count nl := fun hc ↦
        Nat.pos_of_ne_zero fun h0 ↦ hrest (eq_nil_of_closed nl hc h0)
      rw [closed_cons nl hrest]
      by_cases hb : b = nl
      · simp only [laterStarts, hb, hrest, ne_eq, not_false_eq_true, and_self, if_true,
          length_cons, ih, count_cons_self]
        by_cases hc : closed nl rest = true
        · have := hpos hc
          simp only [hc, if_true]
          omega
        · simp [hc]
      · simp [laterStarts, hb, ih]

theorem lineCount_eq (t : List α) :
    lineCount nl t = t.count nl - (if closed nl t then 1 else 0) + 1 := by
  simp [lineCount, lineStarts, length_laterStarts]

theorem lineCount_of_closed (hc : closed nl t = true) (ht : t ≠ []) :
    lineCount nl t = t.count nl := by
  have hpos : t.count nl ≠ 0 := fun h0 ↦ ht (eq_nil_of_closed nl hc h0)
  rw [lineCount_eq, if_pos hc]
  omega

theorem lineCount_append (h : t = [] → s = []) :
    lineCount nl (s ++ t) = s.count nl + lineCount nl t := by
  by_cases ht : t = []
  · rw [ht, h ht]
    exact (Nat.zero_add _).symm
  by_cases hc : closed nl t = true
  · have hst := (closed_append nl (s := s) ht).trans hc
    rw [lineCount_of_closed nl hst (by simp [ht]), lineCount_of_closed nl hc ht, count_append]
  · rw [lineCount_eq, lineCount_eq, closed_append nl ht, if_neg hc, count_append]
    omega

theorem lt_of_mem_laterStarts {offset : ℕ} (h : i ∈ laterStarts nl offset t) : offset < i := by
  induction t generalizing offset with
  | nil => cases h
  | cons b rest ih =>
    simp only [laterStarts] at h
    split at h
    · rcases mem_cons.mp h with rfl | h
      · exact Nat.lt_succ_self _
      · exact Nat.lt_of_succ_lt (ih h)
    · exact Nat.lt_of_succ_lt (ih h)

theorem laterStarts_append_getElem? (offset k : ℕ) {p : List α} (x : List α) (hp : p ≠ []) :
    (laterStarts nl offset (p ++ x))[k]? = some (offset + p.length) ↔
      closed nl p = true ∧ p.count nl = k + 1 ∧ x ≠ [] := by
  induction p generalizing offset k with
  | nil => exact absurd rfl hp
  | cons b rest ih =>
    by_cases hrest : rest = []
    · subst hrest
      have hlate : ∀ j : ℕ, (laterStarts nl (offset + 1) x)[j]? ≠ some (offset + 1) := fun j h ↦
        absurd (lt_of_mem_laterStarts nl (mem_of_getElem? h)) (lt_irrefl _)
      by_cases hb : b = nl
      · by_cases hx : x = []
        · simp [laterStarts, hx]
        · cases k with
          | zero => simp [laterStarts, hb, hx]
          | succ k => simp [laterStarts, hb, hx, hlate]
      · simp [laterStarts, hb, hlate]
    · have hlen : offset + (b :: rest).length = offset + 1 + rest.length := by
        rw [length_cons]
        omega
      have hpos : closed nl rest = true → rest.count nl ≠ 0 := fun hc h0 ↦
        hrest (eq_nil_of_closed nl hc h0)
      rw [closed_cons nl hrest, hlen, cons_append]
      by_cases hb : b = nl
      · have hne : rest ++ x ≠ [] := by simp [hrest]
        simp only [laterStarts, hb, hne, ne_eq, not_false_eq_true, and_self, if_true,
          count_cons_self]
        cases k with
        | zero =>
          have h0 : offset + 1 ≠ offset + 1 + rest.length := by
            have := length_pos_iff.mpr hrest
            omega
          rw [getElem?_cons_zero, Option.some.injEq]
          refine ⟨fun h ↦ absurd h h0, ?_⟩
          rintro ⟨hc, h, -⟩
          exact absurd (Nat.succ.inj h) (hpos hc)
        | succ k =>
          rw [getElem?_cons_succ, ih (offset + 1) k hrest]
          simp
      · simp only [laterStarts, hb, false_and, if_false]
        rw [ih (offset + 1) k hrest]
        simp [hb]

theorem lineStarts_append_getElem? (k : ℕ) (p x : List α) :
    (lineStarts nl (p ++ x))[k]? = some p.length ↔
      closed nl p = true ∧ p.count nl = k ∧ (p = [] ∨ x ≠ []) := by
  by_cases hp : p = []
  · subst hp
    cases k with
    | zero => simp [lineStarts]
    | succ k =>
      have h : (laterStarts nl 0 x)[k]? ≠ some 0 := fun h ↦
        absurd (lt_of_mem_laterStarts nl (mem_of_getElem? h)) (lt_irrefl _)
      simp [lineStarts, h]
  · cases k with
    | zero =>
      have hlen : 0 ≠ p.length := fun h ↦ hp (length_eq_zero_iff.mp h.symm)
      simp only [lineStarts, getElem?_cons_zero, Option.some.injEq, hlen, false_iff]
      rintro ⟨hc, h0, -⟩
      exact hp (eq_nil_of_closed nl hc h0)
    | succ k =>
      have h := laterStarts_append_getElem? nl 0 k x hp
      rw [Nat.zero_add] at h
      simp only [lineStarts, getElem?_cons_succ, h, hp, false_or]

theorem lt_length_of_mem_laterStarts {offset : ℕ}
    (h : i ∈ laterStarts nl offset t) : i < offset + t.length := by
  induction t generalizing offset with
  | nil => cases h
  | cons b rest ih =>
    rw [length_cons]
    simp only [laterStarts] at h
    split at h
    next hb =>
      rcases mem_cons.mp h with rfl | h
      · have := length_pos_iff.mpr hb.2
        omega
      · have := ih h
        omega
    · have := ih h
      omega

theorem pairwise_laterStarts (offset : ℕ) (t : List α) :
    (laterStarts nl offset t).Pairwise (· < ·) := by
  induction t generalizing offset with
  | nil => exact .nil
  | cons b rest ih =>
    simp only [laterStarts]
    split
    · exact .cons (fun i hi ↦ lt_of_mem_laterStarts nl hi) (ih _)
    · exact ih _

theorem pairwise_lineStarts (t : List α) : (lineStarts nl t).Pairwise (· < ·) :=
  .cons (fun _ hi ↦ lt_of_mem_laterStarts nl hi) (pairwise_laterStarts nl 0 t)

theorem lineStart_le_length (h : (lineStarts nl t)[k]? = some i) : i ≤ t.length := by
  rcases mem_cons.mp (mem_of_getElem? h) with rfl | h
  · exact Nat.zero_le _
  · have := lt_length_of_mem_laterStarts nl h
    omega

theorem lineStart_le_lineStart {j i' : ℕ} (hjk : j ≤ k)
    (hj : (lineStarts nl t)[j]? = some i) (hk : (lineStarts nl t)[k]? = some i') : i ≤ i' := by
  obtain ⟨hj', rfl⟩ := List.getElem?_eq_some_iff.mp hj
  obtain ⟨hk', rfl⟩ := List.getElem?_eq_some_iff.mp hk
  rcases Nat.eq_or_lt_of_le hjk with rfl | hlt
  · exact le_rfl
  · exact Nat.le_of_lt
      (pairwise_iff_getElem.mp (pairwise_lineStarts nl t) j k hj' hk' hlt)

/-- The offsets between which the lines `first` to `last`, numbered from one, stand. -/
def lineSpan (t : List α) (first last : ℕ) : Option (ℕ × ℕ) :=
  if 0 < first ∧ first ≤ last ∧ last ≤ lineCount nl t then
    some ((lineStarts nl t).getD (first - 1) 0, (lineStarts nl t).getD last t.length)
  else none

section

variable (h : lineSpan nl t first last = some (start, stop))
include h

theorem lineSpan_eq_some :
    0 < first ∧ first ≤ last ∧ last ≤ lineCount nl t ∧
      (lineStarts nl t)[first - 1]? = some start ∧
      ((last < lineCount nl t ∧ (lineStarts nl t)[last]? = some stop) ∨
        (last = lineCount nl t ∧ stop = t.length)) := by
  unfold lineSpan at h
  split at h
  next hr =>
    obtain ⟨h0, hle, hcount⟩ := hr
    simp only [Option.some.injEq, Prod.mk.injEq] at h
    obtain ⟨hstart, hstop⟩ := h
    have hfirst : first - 1 < (lineStarts nl t).length := by
      unfold lineCount at hcount
      omega
    rw [getD_eq_getElem?_getD, getElem?_eq_getElem hfirst, getD_some] at hstart
    refine ⟨h0, hle, hcount, hstart ▸ getElem?_eq_getElem hfirst, ?_⟩
    rcases Nat.eq_or_lt_of_le hcount with heq | hlt
    · refine .inr ⟨heq, ?_⟩
      rw [getD_eq_getElem?_getD, getElem?_eq_none (by rw [heq]; exact le_rfl)] at hstop
      exact hstop.symm
    · refine .inl ⟨hlt, ?_⟩
      have hlast : last < (lineStarts nl t).length := hlt
      rw [getD_eq_getElem?_getD, getElem?_eq_getElem hlast, getD_some] at hstop
      exact hstop ▸ getElem?_eq_getElem hlast
  · cases h

theorem lineSpan_le : start ≤ stop ∧ stop ≤ t.length := by
  obtain ⟨h0, hle, -, hstart, ⟨-, hstop⟩ | ⟨-, rfl⟩⟩ := lineSpan_eq_some nl h
  · exact ⟨lineStart_le_lineStart nl (by omega) hstart hstop, lineStart_le_length nl hstop⟩
  · exact ⟨lineStart_le_length nl hstart, le_rfl⟩

theorem lineSpan_disjoint {first' last' start' stop' : ℕ}
    (h' : lineSpan nl t first' last' = some (start', stop')) (hlt : last < first') :
    stop ≤ start' := by
  obtain ⟨-, -, -, -, ⟨-, hstop⟩ | ⟨heq, -⟩⟩ := lineSpan_eq_some nl h
  all_goals obtain ⟨-, hle', hcount', hstart', -⟩ := lineSpan_eq_some nl h'
  · exact lineStart_le_lineStart nl (by omega) hstop hstart'
  · omega

end

/-- Lines stand between two texts when the first is made of whole lines, they are as many as are
asked for, and the last of them is terminated or ends the text. -/
theorem lineSpan_append_iff (first last : ℕ) (p r x : List α) :
    lineSpan nl (p ++ r ++ x) first last = some (p.length, p.length + r.length) ↔
      (0 < first ∧ first ≤ last) ∧ (p.count nl = first - 1 ∧ closed nl p = true) ∧
      lineCount nl r = last + 1 - first ∧ (x = [] ∨ closed nl r = true) ∧
      (r = [] → p = [] ∧ x = []) := by
  have hlen : (p ++ r).length = p.length + r.length := length_append
  have hp := lineStarts_append_getElem? nl (first - 1) p (r ++ x)
  have hr := lineStarts_append_getElem? nl last (p ++ r) x
  rw [← append_assoc] at hp
  constructor
  · intro h
    obtain ⟨h0, hle, hcount, hstart, hstop⟩ := lineSpan_eq_some nl h
    obtain ⟨hclosed, hfirst, hne⟩ := hp.mp hstart
    refine ⟨⟨h0, hle⟩, ⟨hfirst, hclosed⟩, ?_⟩
    rcases hstop with ⟨hlt, hstop⟩ | ⟨heq, hstop⟩
    · rw [← hlen] at hstop
      obtain ⟨hclosed', hnl, -⟩ := hr.mp hstop
      have hrne : r ≠ [] := by
        rintro rfl
        rw [append_nil] at hnl
        omega
      rw [closed_append nl hrne] at hclosed'
      rw [count_append] at hnl
      rw [lineCount_of_closed nl hclosed' hrne]
      exact ⟨by omega, .inr hclosed', fun hnil ↦ absurd hnil hrne⟩
    · have hx : x = [] := by
        have hall : (p ++ r ++ x).length = (p ++ r).length + x.length := length_append
        exact length_eq_zero_iff.mp (by omega)
      subst hx
      rw [append_nil] at heq hne
      have hnil : r = [] → p = [] := fun h ↦ hne.resolve_right (not_not.mpr h)
      rw [lineCount_append nl hnil] at heq
      exact ⟨by omega, .inl rfl, fun h ↦ ⟨hnil h, rfl⟩⟩
  · rintro ⟨⟨h0, hle⟩, ⟨hfirst, hclosed⟩, hlines, hx, hnil⟩
    have hne : p = [] ∨ r ++ x ≠ [] := by
      rw [ne_eq, append_eq_nil_iff]
      exact or_iff_not_imp_right.mpr fun h ↦ (hnil (not_not.mp h).1).1
    have hgetD : (lineStarts nl (p ++ r ++ x)).getD (first - 1) 0 = p.length := by
      rw [getD_eq_getElem?_getD, hp.mpr ⟨hclosed, hfirst, hne⟩, getD_some]
    unfold lineSpan
    by_cases hxnil : x = []
    · subst hxnil
      have hcount : lineCount nl (p ++ r) = last := by
        rw [lineCount_append nl fun h ↦ (hnil h).1]
        omega
      rw [append_nil] at hgetD ⊢
      rw [if_pos ⟨h0, hle, Nat.le_of_eq hcount.symm⟩, hgetD, getD_eq_getElem?_getD,
        getElem?_eq_none (Nat.le_of_eq hcount), getD_none, hlen]
    · have hrne : r ≠ [] := fun h ↦ hxnil (hnil h).2
      have hclosed' := hx.resolve_left hxnil
      rw [lineCount_of_closed nl hclosed' hrne] at hlines
      have hlast := hr.mpr
        ⟨(closed_append nl hrne).trans hclosed', by rw [count_append]; omega, .inr hxnil⟩
      have hlt : last < lineCount nl (p ++ r ++ x) := (List.getElem?_eq_some_iff.mp hlast).1
      rw [if_pos ⟨h0, hle, Nat.le_of_lt hlt⟩, hgetD, getD_eq_getElem?_getD, hlast, getD_some, hlen]

/-- Lines found in one text are found in another exactly when as many whole lines stand before
them, they are as many, and the last is terminated or ends the text. -/
theorem lineSpan_kept_iff {p r x p' r' x' : List α}
    (h : lineSpan nl (p ++ r ++ x) first last = some (p.length, p.length + r.length)) :
    lineSpan nl (p' ++ r' ++ x') first last = some (p'.length, p'.length + r'.length) ↔
      profile nl p' = profile nl p ∧ lineCount nl r' = lineCount nl r ∧
        (x' = [] ∨ closed nl r' = true) ∧ (r' = [] → p' = [] ∧ x' = []) := by
  obtain ⟨hle, ⟨hcount, hclosed⟩, hlines, -⟩ := (lineSpan_append_iff nl first last p r x).mp h
  rw [lineSpan_append_iff, hlines, and_iff_right hle, profile, profile, Prod.mk.injEq, hclosed,
    hcount]

end MiLsp.Library.Lines
