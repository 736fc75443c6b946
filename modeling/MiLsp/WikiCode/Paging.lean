import MiLsp.Library.Paging
import MiLsp.Output.Envelope

namespace MiLsp.WikiCode

open Library Json Paging Strings Output List

inductive Direction
  | wikiToCode
  | codeToWiki

def Direction.text : Direction → String
  | .wikiToCode => "wiki_to_code"
  | .codeToWiki => "code_to_wiki"

/-- What the resolver finds, each list sorted, whatever the limit, budget or cursor, by encoded
sizes. -/
structure Resolved where
  Evidence : Type
  Document : Type
  GraphPath : Type
  evidenceSize : Evidence → ℕ
  documentSize : Document → ℕ
  graphPathSize : GraphPath → ℕ
  directCode : List Evidence
  tests : List Evidence
  supportingCode : List Evidence
  candidates : List Evidence
  wikiContext : List Document
  graphPaths : List GraphPath

structure Request where
  direction : Direction
  limit : ℤ
  tokenBudget : ℤ

def normalized (value default max : ℤ) : ℕ := (min (if value < 1 then default else value) max).toNat

def Request.itemLimit (req : Request) : ℕ := normalized req.limit 50 500

def Request.budget (req : Request) : ℕ := normalized req.tokenBudget 4000 20000

structure Continuation where
  direction : Direction
  cursor : String
  remaining : ℕ

variable (r : Resolved)

structure WikiCodeContext where
  directCode : List r.Evidence
  tests : List r.Evidence
  supportingCode : List r.Evidence
  candidates : List r.Evidence
  wikiContext : List r.Document
  graphPaths : List r.GraphPath
  truncated : Bool := false
  tokenUsed : ℤ := 0
  nextCursor : String := ""
  continuation : Option Continuation := none

section Bounds

variable {ε : Type}

structure Room where
  remaining : ℕ
  truncated : Bool

def Room.trim (room : Room) (items : List ε) : List ε × Room :=
  if items.length > room.remaining then (items.take room.remaining, ⟨0, true⟩)
  else (items, ⟨room.remaining - items.length, room.truncated⟩)

def tokens (size : ℕ) : ℕ := (size + 3) / 4

def listCost (size : ε → ℕ) (items : List ε) : ℕ := tokens (listLength (items.map size))

def fitBudget (size : ε → ℕ) : ℕ → List ε → ℤ → List ε × ℤ
  | 0, items, remaining => (items, remaining)
  | n + 1, items, remaining =>
    if listCost size items ≤ remaining then (items, remaining - listCost size items)
    else fitBudget size n items.dropLast remaining

end Bounds

def cursorText (direction : Direction) (suffix : String) : String := direction.text ++ ":" ++ suffix

variable {r}

def WikiCodeContext.count (c : WikiCodeContext r) : ℕ :=
  c.directCode.length + c.tests.length + c.supportingCode.length + c.candidates.length +
    c.wikiContext.length

def applyWikiCodeResolverBounds (limit : ℕ) (cursor : String) (direction : Direction)
    (c : WikiCodeContext r) : WikiCodeContext r :=
  let directCode := (Room.mk limit false).trim c.directCode
  let tests := directCode.2.trim c.tests
  let supportingCode := tests.2.trim c.supportingCode
  let candidates := supportingCode.2.trim c.candidates
  let wikiContext := candidates.2.trim c.wikiContext
  let c :=
    { c with
      directCode := directCode.1
      tests := tests.1
      supportingCode := supportingCode.1
      candidates := candidates.1
      wikiContext := wikiContext.1 }
  if wikiContext.2.truncated then
    let nextCursor := cursorText direction (toString limit)
    { c with
      truncated := true
      nextCursor
      continuation := some { direction, cursor := nextCursor, remaining := c.count } }
  else if trimSpace cursor ≠ "" then { c with nextCursor := cursor }
  else c

def mandatoryCost (directCode tests : List r.Evidence) : ℕ :=
  tokens (objectSize [("direct_code", listLength (directCode.map r.evidenceSize)),
    ("tests", listLength (tests.map r.evidenceSize))])

def spend (budget : ℕ) (c : WikiCodeContext r) : WikiCodeContext r :=
  let used := mandatoryCost c.directCode c.tests
  let supportingCode :=
    fitBudget r.evidenceSize c.supportingCode.length c.supportingCode ((budget : ℤ) - used)
  let candidates :=
    fitBudget r.evidenceSize c.candidates.length c.candidates supportingCode.2
  let wikiContext :=
    fitBudget r.documentSize c.wikiContext.length c.wikiContext candidates.2
  let graphPaths :=
    fitBudget r.graphPathSize c.graphPaths.length c.graphPaths wikiContext.2
  let dropped := supportingCode.1.length < c.supportingCode.length ∨
    candidates.1.length < c.candidates.length ∨ wikiContext.1.length < c.wikiContext.length ∨
    graphPaths.1.length < c.graphPaths.length
  { c with
    supportingCode := supportingCode.1
    candidates := candidates.1
    wikiContext := wikiContext.1
    graphPaths := graphPaths.1
    truncated := c.truncated || decide (dropped ∨ budget < used)
    tokenUsed := max ((budget : ℤ) - graphPaths.2) used }

def applyWikiCodeResolverBudget (budget : ℕ) (direction : Direction) (c : WikiCodeContext r) :
    WikiCodeContext r :=
  let c := spend budget c
  if c.truncated && c.nextCursor = "" then
    let nextCursor := cursorText direction "budget"
    { c with nextCursor, continuation := some { direction, cursor := nextCursor, remaining := 0 } }
  else c

variable (r)

def resolved : WikiCodeContext r where
  directCode := r.directCode
  tests := r.tests
  supportingCode := r.supportingCode
  candidates := r.candidates
  wikiContext := r.wikiContext
  graphPaths := r.graphPaths

def resolveWikiCodeContext (req : Request) (cursor : String) : WikiCodeContext r :=
  applyWikiCodeResolverBudget req.budget req.direction
    (applyWikiCodeResolverBounds req.itemLimit cursor req.direction (resolved r))

inductive Item
  | directCode (evidence : r.Evidence)
  | test (evidence : r.Evidence)
  | supportingCode (evidence : r.Evidence)
  | candidate (evidence : r.Evidence)
  | wikiContext (document : r.Document)

variable {r}

def WikiCodeContext.items (c : WikiCodeContext r) : List (Item r) :=
  c.directCode.map .directCode ++ c.tests.map .test ++ c.supportingCode.map .supportingCode ++
    c.candidates.map .candidate ++ c.wikiContext.map .wikiContext

variable (r) (req : Request) (cursor : String)

/-- The catalog and the overlay are held fixed, so every request is answered alike. -/
def answer (_ : ℕ) (cursor : String) : Page String (Item r) :=
  let c := resolveWikiCodeContext r req cursor
  ⟨c.items, if c.nextCursor = "" then none else some c.nextCursor⟩

def cursorAt : ℕ → Option String
  | 0 => some cursor
  | k + 1 => (cursorAt k).bind fun c ↦ (answer r req k c).next

def delivered : ℕ → List (Item r)
  | 0 => []
  | k + 1 => delivered k ++ ((cursorAt r req cursor k).map fun c ↦ (answer r req k c).rows).getD []

/-- The chain of cursors ends, its pages hold every resolved item once, and what is said to be left
was not delivered. -/
structure Partitions : Prop where
  complete : ∃ items, Finishes (answer r req) 0 cursor items ∧ items.Perm (resolved r).items
  remaining : ∀ k c continuation, cursorAt r req cursor k = some c →
    (resolveWikiCodeContext r req c).continuation = some continuation →
    continuation.remaining ≠ 0 →
    continuation.remaining + (delivered r req cursor (k + 1)).length = (resolved r).items.length

def shownCost {ε : Type} (size : ε → ℕ) (items : List ε) : ℕ :=
  if items = [] then 0 else listCost size items

def WikiCodeContext.cost {r : Resolved} (c : WikiCodeContext r) : ℕ :=
  mandatoryCost c.directCode c.tests + shownCost r.evidenceSize c.supportingCode +
    shownCost r.evidenceSize c.candidates + shownCost r.documentSize c.wikiContext +
    shownCost r.graphPathSize c.graphPaths

/-- The first request brings no cursor, and its answer has room for everything. -/
structure FitsOnePage : Prop where
  first : trimSpace cursor = ""
  limit : (resolved r).count ≤ req.itemLimit
  budget : (resolved r).cost ≤ req.budget

section Bounds

variable {ε : Type} {room : Room} {items : List ε} {size : ε → ℕ} {rest : ℤ}

theorem trim_items : (room.trim items).1 = items.take room.remaining := by
  rw [Room.trim]
  split_ifs with h
  · rfl
  · exact (take_of_length_le (Nat.not_lt.mp h)).symm

theorem trim_remaining : (room.trim items).2.remaining = room.remaining - items.length := by
  rw [Room.trim]
  split_ifs with h
  · exact (Nat.sub_eq_zero_of_le (by omega)).symm
  · rfl

theorem trim_truncated :
    (room.trim items).2.truncated = (room.truncated || decide (room.remaining < items.length)) := by
  rw [Room.trim]
  split_ifs with h
  · simp [h]
  · simp [h]

theorem fitBudget_of_le (h : shownCost size items ≤ rest) :
    fitBudget size items.length items rest = (items, rest - shownCost size items) := by
  cases items with
  | nil => simp [fitBudget, shownCost]
  | cons x xs =>
    rw [shownCost, if_neg (cons_ne_nil x xs)] at h ⊢
    rw [length_cons, fitBudget, if_pos h]

theorem fitBudget_length_le (n : ℕ) : (fitBudget size n items rest).1.length ≤ items.length := by
  induction n generalizing items with
  | zero => exact le_refl _
  | succ n ih =>
    rw [fitBudget]
    split_ifs
    · exact le_refl _
    · exact ih.trans (by simp)

theorem fitBudget_of_lt (hne : items ≠ []) (h : rest < shownCost size items) :
    (fitBudget size items.length items rest).1.length < items.length := by
  cases items with
  | nil => exact absurd rfl hne
  | cons x xs =>
    rw [shownCost, if_neg (cons_ne_nil x xs)] at h
    rw [length_cons, fitBudget, if_neg (by omega)]
    have hle := @fitBudget_length_le ε (x :: xs).dropLast size rest xs.length
    rw [length_dropLast, length_cons] at hle
    omega

theorem fitBudget_whole_iff (hrest : 0 ≤ rest) :
    ¬(fitBudget size items.length items rest).1.length < items.length ↔
      shownCost size items ≤ rest := by
  by_cases h : shownCost size items ≤ rest
  · rw [fitBudget_of_le h]
    simp [h]
  · refine iff_of_false (not_not.mpr ?_) h
    apply fitBudget_of_lt
    · rintro rfl
      exact h hrest
    · omega

end Bounds

section Cursors

variable {r} {c : WikiCodeContext r} {limit budget : ℕ} {direction : Direction} {cursor : String}

theorem cursorText_visible (direction : Direction) (suffix : String) :
    trimSpace (cursorText direction suffix) ≠ "" := by
  refine trimSpace_ne_empty (c := ':') ?_ rfl
  simp [cursorText]

theorem truncated_iff : ((((((Room.mk limit false).trim c.directCode).2.trim c.tests).2.trim
    c.supportingCode).2.trim c.candidates).2.trim c.wikiContext).2.truncated = true ↔
      limit < c.count := by
  simp only [trim_truncated, trim_remaining, WikiCodeContext.count, Bool.or_eq_true,
    decide_eq_true_eq, Bool.false_eq_true, false_or]
  omega

theorem bounds_of_lt (h : limit < c.count) :
    (applyWikiCodeResolverBounds limit cursor direction c).nextCursor =
      cursorText direction (toString limit) := by
  simp only [applyWikiCodeResolverBounds, truncated_iff, h, if_true]

theorem bounds_of_le (h : c.count ≤ limit) :
    applyWikiCodeResolverBounds limit cursor direction c =
      if trimSpace cursor ≠ "" then { c with nextCursor := cursor } else c := by
  simp only [applyWikiCodeResolverBounds, truncated_iff, not_lt.mpr h, if_false, trim_items,
    trim_remaining]
  rw [WikiCodeContext.count] at h
  rw [take_of_length_le (by omega), take_of_length_le (by omega),
    take_of_length_le (by omega), take_of_length_le (by omega),
    take_of_length_le (by omega)]

theorem spend_of_le (h : c.cost ≤ budget) :
    spend budget c = { c with tokenUsed := (spend budget c).tokenUsed } := by
  rw [WikiCodeContext.cost] at h
  have hsupporting := @fitBudget_of_le _ c.supportingCode r.evidenceSize
    ((budget : ℤ) - mandatoryCost c.directCode c.tests) (by omega)
  have hcandidates := @fitBudget_of_le _ c.candidates r.evidenceSize
    ((budget : ℤ) - mandatoryCost c.directCode c.tests -
      shownCost r.evidenceSize c.supportingCode) (by omega)
  have hwiki := @fitBudget_of_le _ c.wikiContext r.documentSize
    ((budget : ℤ) - mandatoryCost c.directCode c.tests -
      shownCost r.evidenceSize c.supportingCode - shownCost r.evidenceSize c.candidates) (by omega)
  have hpaths := @fitBudget_of_le _ c.graphPaths r.graphPathSize
    ((budget : ℤ) - mandatoryCost c.directCode c.tests -
      shownCost r.evidenceSize c.supportingCode - shownCost r.evidenceSize c.candidates -
      shownCost r.documentSize c.wikiContext) (by omega)
  have hused : ¬budget < mandatoryCost c.directCode c.tests := by omega
  simp only [spend, hsupporting, hcandidates, hwiki, hpaths, hused, Nat.lt_irrefl, or_self,
    decide_false, Bool.or_false]

theorem spend_truncated_of_lt (h : budget < c.cost) : (spend budget c).truncated = true := by
  rw [WikiCodeContext.cost] at h
  by_contra hwhole
  simp only [spend, Bool.or_eq_true, decide_eq_true_eq, not_or] at hwhole
  obtain ⟨-, ⟨hsupporting, hcandidates, hwiki, hpaths⟩, hused⟩ := hwhole
  -- Each list that is whole fitted what the lists before it had left.
  have hsupporting := (fitBudget_whole_iff (by omega)).mp hsupporting
  rw [fitBudget_of_le hsupporting] at hcandidates hwiki hpaths
  have hcandidates := (fitBudget_whole_iff (by dsimp only; omega)).mp hcandidates
  rw [fitBudget_of_le hcandidates] at hwiki hpaths
  have hwiki := (fitBudget_whole_iff (by dsimp only at *; omega)).mp hwiki
  rw [fitBudget_of_le hwiki] at hpaths
  have hpaths := (fitBudget_whole_iff (by dsimp only at *; omega)).mp hpaths
  omega

theorem budget_nextCursor_of_ne (h : c.nextCursor ≠ "") :
    (applyWikiCodeResolverBudget budget direction c).nextCursor = c.nextCursor := by
  have hsame : (spend budget c).nextCursor = c.nextCursor := rfl
  simp only [applyWikiCodeResolverBudget, hsame, decide_eq_false h, Bool.and_false,
    Bool.false_eq_true, if_false]

end Cursors

variable {r req cursor}

theorem ne_empty_of_visible {text : String} (h : trimSpace text ≠ "") : text ≠ "" := by
  rintro rfl
  exact h rfl

theorem nextCursor_eq : (resolveWikiCodeContext r req cursor).nextCursor =
    if req.itemLimit < (resolved r).count then cursorText req.direction (toString req.itemLimit)
    else if trimSpace cursor ≠ "" then cursor
    else if req.budget < (resolved r).cost then cursorText req.direction "budget"
    else "" := by
  rw [resolveWikiCodeContext]
  by_cases hlimit : req.itemLimit < (resolved r).count
  · have hbounds := @bounds_of_lt r (resolved r) req.itemLimit req.direction cursor hlimit
    have hvisible := ne_empty_of_visible (cursorText_visible req.direction (toString req.itemLimit))
    rw [if_pos hlimit, budget_nextCursor_of_ne (by rwa [hbounds]), hbounds]
  rw [if_neg hlimit, bounds_of_le (Nat.not_lt.mp hlimit)]
  by_cases hcursor : trimSpace cursor ≠ ""
  · rw [if_pos hcursor, if_pos hcursor]
    exact budget_nextCursor_of_ne (ne_empty_of_visible hcursor)
  rw [if_neg hcursor, if_neg hcursor]
  by_cases hbudget : req.budget < (resolved r).cost
  · have hmarked := spend_truncated_of_lt hbudget
    have hnone : (spend req.budget (resolved r)).nextCursor = "" := rfl
    simp only [applyWikiCodeResolverBudget, hmarked, hnone, decide_true, Bool.and_self, if_true,
      hbudget]
  · have hwhole : (spend req.budget (resolved r)).truncated = false := by
      rw [spend_of_le (Nat.not_lt.mp hbudget)]
      rfl
    simp only [applyWikiCodeResolverBudget, hwhole, Bool.false_and, Bool.false_eq_true, if_false,
      hbudget]
    rfl

theorem nextCursor_eq_empty_iff :
    (resolveWikiCodeContext r req cursor).nextCursor = "" ↔ FitsOnePage r req cursor := by
  have hlimit := ne_empty_of_visible (cursorText_visible req.direction (toString req.itemLimit))
  have hbudget := ne_empty_of_visible (cursorText_visible req.direction "budget")
  rw [nextCursor_eq]
  constructor
  · intro h
    split_ifs at h with hcount hcursor hcost
    · exact absurd h hlimit
    · exact absurd h (ne_empty_of_visible hcursor)
    · exact absurd h hbudget
    · exact ⟨not_not.mp hcursor, Nat.not_lt.mp hcount, Nat.not_lt.mp hcost⟩
  · intro h
    rw [if_neg (Nat.not_lt.mpr h.limit), if_neg (not_not.mpr h.first),
      if_neg (Nat.not_lt.mpr h.budget)]

theorem nextCursor_visible
    (h : trimSpace cursor ≠ "" ∨ (resolveWikiCodeContext r req cursor).nextCursor ≠ "") :
    trimSpace (resolveWikiCodeContext r req cursor).nextCursor ≠ "" := by
  rw [nextCursor_eq] at h ⊢
  split_ifs at h ⊢ with hcount hcursor hcost
  · exact cursorText_visible _ _
  · exact hcursor
  · exact cursorText_visible _ _
  · exact absurd h (by simp [hcursor])

theorem answer_next_eq_some {k : ℕ} {next : String} (h : (answer r req k cursor).next = some next) :
    trimSpace next ≠ "" := by
  by_cases hempty : (resolveWikiCodeContext r req cursor).nextCursor = ""
  · simp [answer, hempty] at h
  · have hnext : (resolveWikiCodeContext r req cursor).nextCursor = next := by
      simpa [answer, hempty] using h
    rw [← hnext]
    exact nextCursor_visible (.inr hempty)

theorem not_finishes {k : ℕ} {items : List (Item r)} (h : trimSpace cursor ≠ "") :
    ¬Finishes (answer r req) k cursor items := by
  intro hfinishes
  induction hfinishes with
  | @last k c hnone =>
    have hvisible : trimSpace (resolveWikiCodeContext r req c).nextCursor ≠ "" :=
      nextCursor_visible (.inl h)
    simp [answer, ne_empty_of_visible hvisible] at hnone
  | more hnext _ ih => exact ih (answer_next_eq_some hnext)

theorem resolve_of_fits (h : FitsOnePage r req cursor) :
    (resolveWikiCodeContext r req cursor).items = (resolved r).items ∧
      (resolveWikiCodeContext r req cursor).continuation = none := by
  have hwhole : (spend req.budget (resolved r)).truncated = false := by
    rw [spend_of_le h.budget]
    rfl
  have hresolve : resolveWikiCodeContext r req cursor = spend req.budget (resolved r) := by
    rw [resolveWikiCodeContext, bounds_of_le h.limit, if_neg (not_not.mpr h.first)]
    simp only [applyWikiCodeResolverBudget, hwhole, Bool.false_and, Bool.false_eq_true, if_false]
  rw [hresolve, spend_of_le h.budget]
  exact ⟨rfl, rfl⟩

/-- The pages partition what was resolved exactly where there is one page: no cursor moves the
window. -/
theorem partitions_iff_fitsOnePage : Partitions r req cursor ↔ FitsOnePage r req cursor := by
  constructor
  · rintro ⟨⟨items, hfinishes, -⟩, -⟩
    rw [← nextCursor_eq_empty_iff]
    cases hfinishes with
    | last hnone =>
      by_contra hne
      simp [answer, hne] at hnone
    | more hnext hrest => exact absurd hrest (not_finishes (answer_next_eq_some hnext))
  · intro h
    obtain ⟨hitems, hcontinuation⟩ := resolve_of_fits h
    have hnext : (answer r req 0 cursor).next = none := by
      simp [answer, nextCursor_eq_empty_iff.mpr h]
    refine ⟨⟨_, .last hnext, ?_⟩, ?_⟩
    · exact List.Perm.of_eq hitems
    · intro k c continuation hcursor hsome
      have honly : ∀ k, cursorAt r req cursor (k + 1) = none := by
        intro k
        induction k with
        | zero => exact hnext
        | succ k ih => rw [cursorAt, ih, Option.bind_none]
      cases k with
      | zero =>
        cases hcursor
        rw [hcontinuation] at hsome
        cases hsome
      | succ k =>
        rw [honly k] at hcursor
        cases hcursor

def sampleResolved : Resolved where
  Evidence := String
  Document := Unit
  GraphPath := Unit
  evidenceSize := textSize
  documentSize := fun _ ↦ 0
  graphPathSize := fun _ ↦ 0
  directCode := ["a.go", "b.go", "c.go"]
  tests := []
  supportingCode := []
  candidates := []
  wikiContext := []
  graphPaths := []

/-- With a limit of two the second answer repeats the first one, and so on without end. -/
theorem limited_answers_repeat :
    ¬Partitions sampleResolved ⟨.wikiToCode, 2, 4000⟩ "" ∧
      (resolveWikiCodeContext sampleResolved ⟨.wikiToCode, 2, 4000⟩ "wiki_to_code:2").directCode =
        ["a.go", "b.go"] := by
  refine ⟨?_, rfl⟩
  rintro ⟨⟨items, hfinishes, -⟩, -⟩
  have hnext : (answer sampleResolved ⟨.wikiToCode, 2, 4000⟩ 0 "").next =
      some "wiki_to_code:2" := by decide +kernel
  cases hfinishes with
  | last hnone =>
    cases hnone
  | more hsome hrest => exact not_finishes (answer_next_eq_some hsome) hrest

end MiLsp.WikiCode
