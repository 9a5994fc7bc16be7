/-
# Tables of slots

A table of records in numbered slots, some of them empty, and how many of the first `n` slots have a
record with a property.  A counter that a program keeps beside a table is followed by
`Slots.count_update`, one slot at a time.
-/

import Mathlib.Algebra.BigOperators.Intervals
import Mathlib.Algebra.Order.BigOperators.Group.Finset
import Mathlib.Algebra.Order.Ring.Int
import Mathlib.Logic.Function.Basic

namespace Codrive.Basis

open Finset

/-- Numbered slots, some of them empty. -/
abbrev Slots (α : Type*) := ℕ → Option α

namespace Slots

variable {α : Type*} {p q : α → Bool} {n i : ℕ} {s : Slots α}

/-- What a slot adds to a count. -/
def one (p : α → Bool) (o : Option α) : ℤ := if o.any p then 1 else 0

/-- How many of the first `n` slots have a record with the property. -/
def count (p : α → Bool) (n : ℕ) (s : Slots α) : ℤ := ∑ i ∈ range n, one p (s i)

@[simp] theorem one_none : one p none = 0 := rfl

@[simp] theorem one_some (a : α) : one p (some a) = if p a then 1 else 0 := rfl

theorem one_nonneg (o : Option α) : 0 ≤ one p o := by
  unfold one
  split_ifs <;> omega

/-- **One slot changes.** -/
theorem count_update (h : i < n) (o : Option α) :
    count p n (Function.update s i o) = count p n s - one p (s i) + one p o := by
  have hi : i ∈ range n := mem_range.2 h
  unfold count
  rw [← add_sum_erase _ _ hi, ← add_sum_erase _ (fun j => one p (s j)) hi, Function.update_self]
  have hrest : ∑ j ∈ (range n).erase i, one p (Function.update s i o j) =
      ∑ j ∈ (range n).erase i, one p (s j) :=
    sum_congr rfl fun j hj => by rw [Function.update_of_ne (ne_of_mem_erase hj)]
  omega

/-- An empty table has nothing. -/
theorem count_empty : count p n (fun _ => none) = 0 :=
  sum_eq_zero fun _ _ => rfl

theorem count_nonneg : 0 ≤ count p n s :=
  sum_nonneg fun _ _ => one_nonneg _

/-- What implies a property is counted no more often. -/
theorem count_le_count (h : ∀ a, p a → q a) : count p n s ≤ count q n s := by
  refine sum_le_sum fun i _ => ?_
  unfold one
  cases s i with
  | none => exact le_rfl
  | some a =>
    have := h a
    simp only [Option.any_some]
    split_ifs <;> simp_all

/-- Something is counted where a slot has a record with the property. -/
theorem count_pos_iff : 0 < count p n s ↔ ∃ i < n, ∃ a, s i = some a ∧ p a := by
  constructor
  · intro h
    by_contra hno
    push Not at hno
    refine h.ne' (sum_eq_zero fun i hi => ?_)
    unfold one
    cases hs : s i with
    | none => rfl
    | some a => simp [hno i (mem_range.1 hi) a hs]
  · rintro ⟨i, hi, a, hs, ha⟩
    refine sum_pos' (fun _ _ => one_nonneg _) ⟨i, mem_range.2 hi, ?_⟩
    simp [hs, ha]

end Slots

end Codrive.Basis
