/-
# Bitmaps

The kernel's bitmap functions.  A bitmap is the set of its bits that are set;
`find_next_zero_bit` scans it upwards, and a run of clear bits is where a first-fit allocator
places an object.
-/

import Mathlib.Data.Finset.Erase
import Mathlib.Data.Finset.Insert
import Mathlib.Data.List.Range
import Mathlib.Tactic.Common

namespace Codrive.Basis

/-- `find_next_zero_bit(bitmap, size, offset)`: the first clear bit from `offset` on, `size` if
there is none. -/
def findNextZeroBit (bitmap : Finset ℕ) (size offset : ℕ) : ℕ :=
  ((List.range' offset (size - offset)).find? (· ∉ bitmap)).getD size

/-- `set_bit` for every bit from `first` to `last`. -/
def setBits (bitmap : Finset ℕ) (first last : ℕ) : Finset ℕ :=
  (List.range' first (last + 1 - first)).foldl (fun b i => insert i b) bitmap

/-- `clear_bit` for every bit from `first` to `last`. -/
def clearBits (bitmap : Finset ℕ) (first last : ℕ) : Finset ℕ :=
  (List.range' first (last + 1 - first)).foldl (fun b i => b.erase i) bitmap

/-- The `len` bits from `first` on are clear and among the `size` bits of the bitmap. -/
def ClearRun (bitmap : Finset ℕ) (size first len : ℕ) : Prop :=
  first + len ≤ size ∧ ∀ i, first ≤ i → i < first + len → i ∉ bitmap

/-- **`find_next_zero_bit`** passes over bits that are set and stops at one that is clear. -/
theorem findNextZeroBit_spec (bitmap : Finset ℕ) {size offset : ℕ} (h : offset ≤ size) :
    offset ≤ findNextZeroBit bitmap size offset ∧ findNextZeroBit bitmap size offset ≤ size ∧
      (∀ i, offset ≤ i → i < findNextZeroBit bitmap size offset → i ∈ bitmap) ∧
      (findNextZeroBit bitmap size offset < size →
        findNextZeroBit bitmap size offset ∉ bitmap) := by
  unfold findNextZeroBit
  cases hf : (List.range' offset (size - offset)).find? (· ∉ bitmap) with
  | none =>
    rw [Option.getD_none]
    refine ⟨h, Nat.le_refl _, fun i h₁ h₂ => ?_, fun hlt => absurd hlt (Nat.lt_irrefl _)⟩
    have := List.find?_eq_none.1 hf i (List.mem_range'_1.2 ⟨h₁, by omega⟩)
    simpa using this
  | some f =>
    rw [Option.getD_some]
    obtain ⟨hp, l, l', hl, hb⟩ := List.find?_eq_some_iff_append.1 hf
    have hmem := List.mem_range'_1.1 (List.mem_of_find?_eq_some hf)
    refine ⟨hmem.1, by omega, fun i h₁ h₂ => ?_, fun _ => by simpa using hp⟩
    -- what is in front of the first clear bit was passed over
    have hi : i ∈ l ++ f :: l' := hl ▸ List.mem_range'_1.2 ⟨h₁, by omega⟩
    have hsorted : (l ++ f :: l').Pairwise (· < ·) := hl ▸ List.pairwise_lt_range'
    rcases List.mem_append.1 hi with hi | hi
    · simpa using hb i hi
    · obtain ⟨hlt, -⟩ := List.pairwise_cons.1 (List.pairwise_append.1 hsorted).2.1
      rcases List.mem_cons.1 hi with rfl | hi
      · omega
      · have := hlt i hi
        omega

theorem mem_setBits {bitmap : Finset ℕ} {first last i : ℕ} :
    i ∈ setBits bitmap first last ↔ i ∈ bitmap ∨ first ≤ i ∧ i ≤ last := by
  have hfold : ∀ (l : List ℕ) (b : Finset ℕ),
      i ∈ l.foldl (fun b i => insert i b) b ↔ i ∈ b ∨ i ∈ l := by
    intro l
    induction l with
    | nil => simp
    | cons k l ih =>
      intro b
      rw [List.foldl_cons, ih, Finset.mem_insert, List.mem_cons]
      constructor
      · rintro ((h | h) | h) <;> simp [h]
      · rintro (h | h | h) <;> simp [h]
  rw [setBits, hfold, List.mem_range'_1]
  refine or_congr_right ?_
  omega

theorem mem_clearBits {bitmap : Finset ℕ} {first last i : ℕ} :
    i ∈ clearBits bitmap first last ↔ i ∈ bitmap ∧ ¬(first ≤ i ∧ i ≤ last) := by
  have hfold : ∀ (l : List ℕ) (b : Finset ℕ),
      i ∈ l.foldl (fun b i => b.erase i) b ↔ i ∈ b ∧ i ∉ l := by
    intro l
    induction l with
    | nil => simp
    | cons k l ih =>
      intro b
      rw [List.foldl_cons, ih, Finset.mem_erase, List.mem_cons, not_or]
      constructor
      · rintro ⟨⟨h₁, h₂⟩, h₃⟩
        exact ⟨h₂, h₁, h₃⟩
      · rintro ⟨h₂, h₁, h₃⟩
        exact ⟨⟨h₁, h₂⟩, h₃⟩
  rw [clearBits, hfold, List.mem_range'_1]
  refine and_congr_right fun _ => not_congr ?_
  omega

end Codrive.Basis
