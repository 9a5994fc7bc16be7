/-
# Memory in blocks

The blocks that a program asks for and gives back, by number and with their contents.  A new block
has a number that no block had before, so the blocks a call makes are those behind the blocks it
found.  What is not there, or no longer, is neither read nor written nor given back: such a step has
no result, and a block that is gone was given back once.
-/

import Mathlib.Data.List.Basic

namespace Codrive.Basis

/-- The blocks made so far; one that was given back has no contents. -/
abbrev Blocks (β : Type) := List (Option β)

namespace Blocks

variable {β : Type} {m l : Blocks β} {p : ℕ} {b c : β}

/-- The contents of a block. -/
def read (m : Blocks β) (p : ℕ) : Option β := m[p]?.join

/-- A new block. -/
def alloc (m : Blocks β) (b : β) : ℕ × Blocks β := (m.length, m ++ [some b])

/-- New contents. -/
def write (m : Blocks β) (p : ℕ) (b : β) : Option (Blocks β) :=
  (m.read p).map fun _ => m.set p (some b)

/-- A block is given back. -/
def free (m : Blocks β) (p : ℕ) : Option (Blocks β) := (m.read p).map fun _ => m.set p none

theorem lt_of_read (h : m.read p = some b) : p < m.length := by
  by_contra hp
  rw [read, List.getElem?_eq_none (Nat.not_lt.1 hp)] at h
  cases h

/-- Blocks behind a block do not touch it. -/
theorem read_append_left (hp : p < m.length) : read (m ++ l) p = m.read p := by
  rw [read, read, List.getElem?_append_left hp]

/-- The block that comes next. -/
@[simp] theorem read_append_length (o : Option β) : read (m ++ o :: l) m.length = o := by
  rw [read, List.getElem?_append_right (Nat.le_refl _), Nat.sub_self]
  rfl

/-- The block behind that. -/
@[simp] theorem read_append_length_succ (o o' : Option β) :
    read (m ++ o :: o' :: l) (m.length + 1) = o' := by
  rw [read, List.getElem?_append_right (Nat.le_add_right _ 1), Nat.add_sub_cancel_left]
  rfl

@[simp] theorem write_append_length (c : β) :
    write (m ++ some b :: l) m.length c = some (m ++ some c :: l) := by
  rw [write, read_append_length, Option.map_some, List.set_append_right _ _ (Nat.le_refl _),
    Nat.sub_self, List.set_cons_zero]

@[simp] theorem write_append_length_succ (o : Option β) (c : β) :
    write (m ++ o :: some b :: l) (m.length + 1) c = some (m ++ o :: some c :: l) := by
  rw [write, read_append_length_succ, Option.map_some,
    List.set_append_right _ _ (Nat.le_add_right _ 1), Nat.add_sub_cancel_left,
    List.set_cons_succ, List.set_cons_zero]

@[simp] theorem free_append_length :
    free (m ++ some b :: l) m.length = some (m ++ none :: l) := by
  rw [free, read_append_length, Option.map_some, List.set_append_right _ _ (Nat.le_refl _),
    Nat.sub_self, List.set_cons_zero]

@[simp] theorem free_append_length_succ (o : Option β) :
    free (m ++ o :: some b :: l) (m.length + 1) = some (m ++ o :: none :: l) := by
  rw [free, read_append_length_succ, Option.map_some,
    List.set_append_right _ _ (Nat.le_add_right _ 1), Nat.add_sub_cancel_left,
    List.set_cons_succ, List.set_cons_zero]

/-- **Nothing is left** of blocks that were all given back. -/
theorem read_append_none (h : ∀ o ∈ l, o = none) (hp : m.length ≤ p) : read (m ++ l) p = none := by
  rw [read, List.getElem?_append_right hp]
  cases hl : l[p - m.length]? with
  | none => rfl
  | some o =>
    rw [h o (List.mem_of_getElem? hl)]
    rfl

end Blocks

end Codrive.Basis
