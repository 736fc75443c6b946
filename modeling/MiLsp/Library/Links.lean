import Mathlib.Logic.Relation

namespace MiLsp.Library

open Relation

variable {α : Type} {r r' : α → α → Prop}

def Acyclic (r : α → α → Prop) : Prop := ∀ a, ¬TransGen r a a

theorem Acyclic.mono (h : Acyclic r) (hr : ∀ a b, r' a b → r a b) : Acyclic r' :=
  fun a ha ↦ h a (TransGen.mono hr a a ha)

theorem transGen_avoids {source a b : α} (hr : ∀ x y, r' x y → x ≠ source → r x y)
    (hsource : ∀ x, ¬r' x source) (ha : a ≠ source) (h : TransGen r' a b) : TransGen r a b := by
  induction h with
  | single hab => exact .single (hr _ _ hab ha)
  | @tail b c hab hbc ih =>
    refine ih.tail (hr b c hbc ?_)
    intro hb
    obtain ⟨x, -, hx⟩ := TransGen.tail'_iff.mp hab
    exact hsource x (hb ▸ hx)

theorem Acyclic.add_source {source : α} (h : Acyclic r) (hr : ∀ x y, r' x y → x ≠ source → r x y)
    (hsource : ∀ x, ¬r' x source) : Acyclic r' := by
  intro a ha
  obtain ⟨x, -, hx⟩ := TransGen.tail'_iff.mp ha
  have hne : a ≠ source := fun heq ↦ hsource x (heq ▸ hx)
  exact h a (transGen_avoids hr hsource hne ha)

end MiLsp.Library
