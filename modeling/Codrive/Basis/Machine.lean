/-
# Machine words and assertions

The code computes addresses and sizes in 64-bit words and counts in 32-bit ones.  A word
is a natural number here, and every operation that can leave the word wraps explicitly.
A failed `assert` ends the process, unless the build compiles assertions out.
-/

import Mathlib.Algebra.GroupWithZero.Nat
import Mathlib.Algebra.Ring.Int.Defs
import Mathlib.Tactic.Common

namespace Codrive.Basis

/-- Reduction to a `w`-bit word. -/
def wrap (w x : ℕ) : ℕ := x % 2 ^ w

/-- Reduction to a 64-bit word: pointers, `size_t`, `uint64_t`. -/
def u64 (x : ℕ) : ℕ := wrap 64 x

/-- Subtraction of 64-bit words. -/
def sub64 (x y : ℕ) : ℕ := u64 (x + (2 ^ 64 - y % 2 ^ 64))

/-- `assert(c)`; `ndebug` says whether the build compiles assertions out. -/
def assert (ndebug : Bool) (c : Bool) : Option Unit := if ndebug || c then some () else none

theorem assert_of_true {ndebug c : Bool} (h : c = true) : assert ndebug c = some () := by
  simp [assert, h]

theorem wrap_of_lt {w x : ℕ} (h : x < 2 ^ w) : wrap w x = x := Nat.mod_eq_of_lt h

theorem wrap_lt (w x : ℕ) : wrap w x < 2 ^ w := Nat.mod_lt _ (Nat.two_pow_pos w)

theorem u64_of_lt {x : ℕ} (h : x < 2 ^ 64) : u64 x = x := wrap_of_lt h

theorem u64_lt (x : ℕ) : u64 x < 2 ^ 64 := wrap_lt 64 x

theorem sub64_of_le {x y : ℕ} (h : y ≤ x) (hx : x < 2 ^ 64) : sub64 x y = x - y := by
  unfold sub64 u64 wrap
  omega

/-- What wraps loses a whole round. -/
theorem u64_le_sub {x : ℕ} (h : 2 ^ 64 ≤ x) : u64 x ≤ x - 2 ^ 64 := by
  unfold u64 wrap
  omega

/-- A difference does not see what wrapped before. -/
theorem sub64_u64 {x y : ℕ} (h : y ≤ x) (hy : y < 2 ^ 64) : sub64 (u64 x) y = u64 (x - y) := by
  unfold sub64 u64 wrap
  omega

theorem or_le_add (x y : ℕ) : x ||| y ≤ x + y := by
  induction x using Nat.strongRecOn generalizing y with
  | ind x ih =>
    by_cases hx : x = 0
    · simp [hx]
    · have hhalf := ih (x / 2) (by omega) (y / 2)
      have hdiv : (x ||| y) / 2 = x / 2 ||| y / 2 := Nat.or_div_two
      have hmod : (x ||| y) % 2 ≤ x % 2 + y % 2 := by
        rcases Nat.mod_two_eq_zero_or_one (x ||| y) with h | h
        · omega
        · have := Nat.or_mod_two_eq_one.1 h
          omega
      omega

/-- Bits that are masked out of a word take no more from it than the mask. -/
theorem sub_le_and_not {w x m : ℕ} (hx : x < 2 ^ w) (hm : m < 2 ^ w) :
    x ≤ (x &&& (2 ^ w - 1 - m)) + m := by
  have hbits : (x &&& (2 ^ w - 1 - m)) ||| (x &&& m) = x := by
    refine Nat.eq_of_testBit_eq fun i => ?_
    rw [Nat.testBit_or, Nat.testBit_and, Nat.testBit_and,
      show 2 ^ w - 1 - m = 2 ^ w - (m + 1) by omega, Nat.testBit_two_pow_sub_succ hm]
    by_cases hi : i < w
    · cases x.testBit i <;> cases m.testBit i <;> simp [hi]
    · rw [Nat.testBit_lt_two_pow (Nat.lt_of_lt_of_le hx
        (Nat.pow_le_pow_right (by decide) (Nat.not_lt.1 hi)))]
      rfl
  have hle := or_le_add (x &&& (2 ^ w - 1 - m)) (x &&& m)
  have hright : x &&& m ≤ m := Nat.and_le_right
  omega

/-- **The low bits masked out** of a word round it down. -/
theorem and_not_low {w k x : ℕ} (hx : x < 2 ^ w) (hk : k ≤ w) :
    x &&& (2 ^ w - 1 - (2 ^ k - 1)) = x - x % 2 ^ k := by
  have hlow : 2 ^ k - 1 < 2 ^ w := by
    have := Nat.pow_le_pow_right (show 0 < 2 by decide) hk
    have := Nat.two_pow_pos k
    omega
  have hround : x - x % 2 ^ k = 2 ^ k * (x / 2 ^ k) := by
    have := Nat.div_add_mod x (2 ^ k)
    omega
  rw [hround]
  refine Nat.eq_of_testBit_eq fun i => ?_
  rw [Nat.testBit_and, show 2 ^ w - 1 - (2 ^ k - 1) = 2 ^ w - (2 ^ k - 1 + 1) by omega,
    Nat.testBit_two_pow_sub_succ hlow, Nat.testBit_two_pow_sub_one, Nat.testBit_two_pow_mul,
    Nat.testBit_div_two_pow]
  by_cases hi : k ≤ i
  · have hword : x.testBit i = true → i < w := by
      intro hbit
      by_contra hiw
      rw [Nat.testBit_lt_two_pow (Nat.lt_of_lt_of_le hx
        (Nat.pow_le_pow_right (by decide) (Nat.not_lt.1 hiw)))] at hbit
      cases hbit
    cases hbit : x.testBit i
    · simp [hbit, hi]
    · simp [hbit, hi, hword hbit]
  · simp [hi, Nat.not_le.1 hi]

end Codrive.Basis
