import Mathlib.Data.Nat.Notation
import Mathlib.Tactic.SplitIfs

namespace MiLsp.Library.Files

variable {Place Content : Type}

structure File (Content : Type) where
  ino : ℕ
  content : Content

structure Disk (Place Content : Type) where
  file : Place → Option (File Content)
  fresh : ℕ
  ino_lt : ∀ p f, file p = some f → f.ino < fresh

namespace Disk

def content (d : Disk Place Content) (p : Place) : Option Content := (d.file p).map File.content

theorem content_eq_some {d : Disk Place Content} {p : Place} {c : Content} :
    d.content p = some c ↔ ∃ ino, d.file p = some ⟨ino, c⟩ := by
  rw [content, Option.map_eq_some_iff]
  constructor
  · rintro ⟨⟨ino, c⟩, hf, rfl⟩
    exact ⟨ino, hf⟩
  · rintro ⟨ino, hf⟩
    exact ⟨_, hf, rfl⟩

variable [DecidableEq Place] (d : Disk Place Content) (p q a b : Place) (c : Content)

def create : Disk Place Content where
  file q := if q = p then some ⟨d.fresh, c⟩ else d.file q
  fresh := d.fresh + 1
  ino_lt q f h := by
    split_ifs at h
    · cases h
      exact Nat.lt_succ_self _
    · exact Nat.lt_succ_of_lt (d.ino_lt q f h)

def write : Disk Place Content where
  file q := if q = p then (d.file q).map fun f ↦ ⟨f.ino, c⟩ else d.file q
  fresh := d.fresh
  ino_lt q f h := by
    split_ifs at h
    · obtain ⟨g, hg, rfl⟩ := Option.map_eq_some_iff.mp h
      exact d.ino_lt q g hg
    · exact d.ino_lt q f h

def rename : Disk Place Content where
  file q := if q = b then d.file a else if q = a then none else d.file q
  fresh := d.fresh
  ino_lt q f h := by
    split_ifs at h
    · exact d.ino_lt a f h
    · exact d.ino_lt q f h

def remove : Disk Place Content where
  file q := if q = p then none else d.file q
  fresh := d.fresh
  ino_lt q f h := by
    split_ifs at h
    exact d.ino_lt q f h

theorem file_write :
    (d.write p c).file q = if q = p then (d.file q).map fun f ↦ ⟨f.ino, c⟩ else d.file q := rfl

theorem file_rename :
    (d.rename a b).file q = if q = b then d.file a else if q = a then none else d.file q := rfl

variable {d p q a b c}

theorem file_create_other (h : q ≠ p) : (d.create p c).file q = d.file q := if_neg h

theorem file_write_other (h : q ≠ p) : (d.write p c).file q = d.file q := if_neg h

theorem file_rename_other (hb : q ≠ b) (ha : q ≠ a) : (d.rename a b).file q = d.file q := by
  rw [file_rename, if_neg hb, if_neg ha]

theorem file_remove_other (h : q ≠ p) : (d.remove p).file q = d.file q := if_neg h

end Disk

end MiLsp.Library.Files
