import Mathlib.Data.List.Nodup
import Mathlib.Data.List.Perm.Subperm
import Mathlib.Logic.Relation

namespace MiLsp.Library.Search

open List Relation

variable {α : Type} [DecidableEq α] (next : α → List α)

def mark : List α → List α → List α → List α × List α
  | [], queue, seen => (queue, seen)
  | a :: found, queue, seen =>
    if a ∈ seen then mark found queue seen else mark found (queue ++ [a]) (seen ++ [a])

def search : ℕ → List α → List α → List α → List α × List α
  | fuel + 1, a :: queue, seen, done =>
    let (queue, seen) := mark (next a) queue seen
    search fuel queue seen (done ++ [a])
  | _, _, seen, done => (seen, done)

def Reaches : α → α → Prop := ReflTransGen fun a b ↦ b ∈ next a

theorem mark_eq (found queue seen : List α) : ∃ fresh,
    mark found queue seen = (queue ++ fresh, seen ++ fresh) ∧
      (seen.Nodup → (seen ++ fresh).Nodup) ∧ fresh ⊆ found ∧ found ⊆ seen ++ fresh := by
  induction found generalizing queue seen with
  | nil => exact ⟨[], by simp [mark]⟩
  | cons a found ih =>
    rw [mark]
    split_ifs with ha
    · obtain ⟨fresh, heq, hnodup, hsub, hall⟩ := ih queue seen
      refine ⟨fresh, heq, hnodup, fun x hx ↦ mem_cons_of_mem a (hsub hx), ?_⟩
      exact cons_subset.mpr ⟨mem_append_left _ ha, hall⟩
    · obtain ⟨fresh, heq, hnodup, hsub, hall⟩ := ih (queue ++ [a]) (seen ++ [a])
      rw [append_assoc, append_assoc, singleton_append] at heq
      rw [append_assoc, singleton_append] at hnodup hall
      refine ⟨a :: fresh, heq, fun hseen ↦ hnodup ?_, cons_subset_cons a hsub, ?_⟩
      · rw [nodup_middle, append_nil]
        exact nodup_cons.mpr ⟨ha, hseen⟩
      · exact cons_subset.mpr ⟨mem_append_right _ mem_cons_self, hall⟩

structure Searching (start : α) (seen queue done : List α) : Prop where
  nodup : (seen ++ (done ++ queue)).Nodup
  started : start ∈ done ++ queue
  reached : ∀ a ∈ done ++ queue, Reaches next start a
  closed : ∀ a ∈ done, next a ⊆ seen ++ (done ++ queue)

variable {next} {start : α} {seen queue done reachable : List α}

theorem Searching.step {a : α} (h : Searching next start seen (a :: queue) done) : ∃ fresh,
    mark (next a) queue (seen ++ (done ++ a :: queue)) =
        (queue ++ fresh, seen ++ (done ++ [a] ++ (queue ++ fresh))) ∧
      Searching next start seen (queue ++ fresh) (done ++ [a]) := by
  obtain ⟨fresh, heq, hnodup, hsub, hall⟩ := mark_eq (next a) queue (seen ++ (done ++ a :: queue))
  have hdone : done ++ [a] ++ (queue ++ fresh) = done ++ a :: queue ++ fresh := by simp
  have hreached := h.reached a (mem_append_right _ mem_cons_self)
  rw [append_assoc, ← hdone] at heq hnodup hall
  refine ⟨fresh, heq, hnodup h.nodup, hdone ▸ mem_append_left _ h.started, ?_, ?_⟩
  · rw [hdone]
    intro b hb
    rcases mem_append.mp hb with hb | hb
    · exact h.reached b hb
    · exact hreached.tail (hsub hb)
  · intro b hb
    rcases mem_append.mp hb with hb | hb
    · rw [hdone, ← append_assoc]
      exact fun c hc ↦ mem_append_left _ (h.closed b hb hc)
    · rw [mem_singleton.mp hb]
      exact hall

theorem Searching.search {fuel : ℕ} (h : Searching next start seen queue done)
    (hreach : ∀ a, Reaches next start a → a ∈ reachable)
    (hfuel : reachable.length ≤ fuel + done.length) :
    ∃ all, search next fuel queue (seen ++ (done ++ queue)) done = (seen ++ all, all) ∧
      Searching next start seen [] all := by
  induction fuel generalizing queue done with
  | zero =>
    have hnodup := (nodup_append.mp h.nodup).2.1
    have hle := (subperm_of_subset hnodup fun a ha ↦ hreach a (h.reached a ha)).length_le
    rw [length_append] at hle
    have hnil : queue = [] := length_eq_zero_iff.mp (by omega)
    subst hnil
    exact ⟨done, by simp [Search.search], h⟩
  | succ fuel ih =>
    cases queue with
    | nil => exact ⟨done, by simp [Search.search], h⟩
    | cons a queue =>
      obtain ⟨fresh, heq, hstep⟩ := h.step
      rw [Search.search, heq]
      refine ih hstep ?_
      rw [length_append, length_singleton]
      omega

theorem search_component (hsymm : ∀ a b, b ∈ next a → a ∈ next b)
    (hclosed : ∀ a ∈ seen, next a ⊆ seen) (hseen : seen.Nodup) (hstart : start ∉ seen)
    (hreach : ∀ a, Reaches next start a → a ∈ reachable) :
    ∃ all, search next reachable.length [start] (seen ++ [start]) [] = (seen ++ all, all) ∧
      (seen ++ all).Nodup ∧ ∀ a, a ∈ all ↔ Reaches next start a := by
  have hfirst : Searching next start seen [start] [] := {
    nodup := by
      rw [nil_append, nodup_middle, append_nil]
      exact nodup_cons.mpr ⟨hstart, hseen⟩
    started := mem_singleton_self start
    reached := by
      intro a ha
      rw [mem_singleton.mp ha]
      exact .refl
    closed := nofun }
  obtain ⟨all, heq, h⟩ := hfirst.search hreach (Nat.le_add_right ..)
  have hnodup := h.nodup
  rw [append_nil] at hnodup
  refine ⟨all, heq, hnodup, fun a ↦ ⟨fun ha ↦ ?_, fun hreached ↦ ?_⟩⟩
  · exact h.reached a (mem_append_left _ ha)
  induction hreached with
  | refl => simpa using h.started
  | @tail b c _ hnext hb =>
    have hc := h.closed b hb hnext
    rw [append_nil] at hc
    refine (mem_append.mp hc).resolve_left fun hc ↦ ?_
    exact (nodup_append.mp hnodup).2.2 b (hclosed c hc (hsymm b c hnext)) b hb rfl

end MiLsp.Library.Search
