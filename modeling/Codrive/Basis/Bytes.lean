/-
# Bytes in memory

A memory image as a function from offsets to bytes, a run of bytes written into it, and numbers
stored with their lowest byte first.
-/

import Mathlib.Algebra.GroupWithZero.Nat
import Mathlib.Data.List.Pairwise
import Mathlib.Tactic.Common

namespace Codrive.Basis

/-- A memory image. -/
abbrev Image := ℕ → UInt8

/-- `memcpy` of some bytes to an offset. -/
def Image.write (img : Image) (off : ℕ) (bytes : List UInt8) : Image := fun i =>
  if off ≤ i ∧ i < off + bytes.length then bytes.getD (i - off) 0 else img i

/-- The byte of a number at a place. -/
def byteOf (v i : ℕ) : UInt8 := UInt8.ofNat (v / 256 ^ i)

/-- The lowest `n` bytes of a number, the lowest first. -/
def leBytes (n v : ℕ) : List UInt8 := (List.range n).map (byteOf v)

/-- The image has a number of `n` bytes at an offset. -/
def Image.Holds (img : Image) (off n v : ℕ) : Prop := ∀ i < n, img (off + i) = byteOf v i

variable {img : Image} {off n v i : ℕ} {bytes : List UInt8}

@[simp] theorem length_leBytes (n v : ℕ) : (leBytes n v).length = n := by
  simp [leBytes]

/-- **What is not written is as it was.** -/
theorem write_of_outside (h : i < off ∨ off + bytes.length ≤ i) :
    img.write off bytes i = img i := by
  unfold Image.write
  exact if_neg (by omega)

theorem getD_leBytes (h : i < n) : (leBytes n v).getD i 0 = byteOf v i := by
  rw [leBytes]
  simp [List.getD, h]

/-- **A number that is written is there.** -/
theorem holds_write (img : Image) (off n v : ℕ) : (img.write off (leBytes n v)).Holds off n v := by
  intro i hi
  unfold Image.write
  rw [length_leBytes, if_pos ⟨by omega, by omega⟩, Nat.add_sub_cancel_left]
  exact getD_leBytes hi

/-- Some bytes have a part of a number where they overlap it. -/
def AgreesWith (off n v : ℕ) (w : ℕ × List UInt8) : Prop :=
  ∀ i < n, ∀ j < w.2.length, off + i = w.1 + j → w.2.getD j 0 = byteOf v i

/-- A number stays where what is written over it agrees with it. -/
theorem Image.Holds.write {w : ℕ × List UInt8} (h : img.Holds off n v)
    (hw : AgreesWith off n v w) : (img.write w.1 w.2).Holds off n v := by
  intro i hi
  by_cases hin : w.1 ≤ off + i ∧ off + i < w.1 + w.2.length
  · unfold Image.write
    rw [if_pos hin]
    exact hw i hi (off + i - w.1) (by omega) (by omega)
  · rw [write_of_outside (by omega)]
    exact h i hi

/-! ### Many writes -/

/-- Runs of bytes written one after the other, each to its offset. -/
def Image.writeAll (img : Image) (ws : List (ℕ × List UInt8)) : Image :=
  ws.foldl (fun img w => img.write w.1 w.2) img

/-- The place is in none of the runs. -/
theorem writeAll_of_outside {ws : List (ℕ × List UInt8)}
    (h : ∀ w ∈ ws, i < w.1 ∨ w.1 + w.2.length ≤ i) : img.writeAll ws i = img i := by
  induction ws generalizing img with
  | nil => rfl
  | cons w ws ih =>
    rw [Image.writeAll, List.foldl_cons]
    refine (ih fun w' hw' => h w' (List.mem_cons_of_mem _ hw')).trans ?_
    exact write_of_outside (h w List.mem_cons_self)

/-- **A byte is what the runs that have it agree on**, if one of them has it or it was so before. -/
theorem writeAll_eq {ws : List (ℕ × List UInt8)} {b : UInt8}
    (hagree : ∀ w ∈ ws, ∀ j < w.2.length, i = w.1 + j → w.2.getD j 0 = b)
    (h : img i = b ∨ ∃ w ∈ ws, ∃ j < w.2.length, i = w.1 + j) : img.writeAll ws i = b := by
  induction ws generalizing img with
  | nil => exact h.resolve_right fun ⟨w, hw, _⟩ => nomatch hw
  | cons w ws ih =>
    rw [Image.writeAll, List.foldl_cons]
    refine ih (fun w' hw' => hagree w' (List.mem_cons_of_mem _ hw')) ?_
    by_cases hin : w.1 ≤ i ∧ i < w.1 + w.2.length
    · left
      unfold Image.write
      rw [if_pos hin]
      exact hagree w List.mem_cons_self (i - w.1) (by omega) (by omega)
    · rw [write_of_outside (by omega)]
      refine h.imp id ?_
      rintro ⟨w', hw', j, hj, hi⟩
      rcases List.mem_cons.1 hw' with rfl | hw'
      · omega
      · exact ⟨w', hw', j, hj, hi⟩

/-- A number that is there stays if what is written over it agrees with it. -/
theorem Image.Holds.writeAll {ws : List (ℕ × List UInt8)} (h : img.Holds off n v)
    (hws : ∀ w ∈ ws, AgreesWith off n v w) : (img.writeAll ws).Holds off n v := by
  induction ws generalizing img with
  | nil => exact h
  | cons w ws ih =>
    rw [Image.writeAll, List.foldl_cons]
    refine ih (h.write (hws w List.mem_cons_self)) ?_
    intro w' hw'
    exact hws w' (List.mem_cons_of_mem _ hw')

/-- **A number that is written is there at the end**, if what is written over it later agrees with
it. -/
theorem holds_writeAll {ws₁ ws₂ : List (ℕ × List UInt8)}
    (hlater : ∀ w ∈ ws₂, AgreesWith off n v w) :
    (img.writeAll (ws₁ ++ (off, leBytes n v) :: ws₂)).Holds off n v := by
  rw [Image.writeAll, List.foldl_append, List.foldl_cons]
  exact Image.Holds.writeAll (holds_write _ _ _ _) hlater

end Codrive.Basis
