/-
# Positions in a ring

A ring of `n` slots is used through counters that only ever grow: counter `a` stands for slot
`a % n`.  Two counters less than a round apart are told apart by their slots, and their difference
is the way from the one slot to the other.
-/

import Mathlib.Tactic.Common

namespace Codrive.Basis

/-- The way from slot `a` on to slot `b` of a ring of `n` slots. -/
def ringDist (n a b : ℕ) : ℕ := (b + n - a) % n

/-- A remainder below two rounds. -/
theorem mod_of_lt_two_mul {n x : ℕ} (h : x < 2 * n) : x % n = if x < n then x else x - n := by
  split
  · next hlt => exact Nat.mod_eq_of_lt hlt
  · next hge => rw [Nat.mod_eq_sub_mod (by omega), Nat.mod_eq_of_lt (by omega)]

theorem ringDist_of_lt {n a b : ℕ} (ha : a < n) (hb : b < n) :
    ringDist n a b = if a ≤ b then b - a else b + n - a := by
  rw [ringDist]
  rcases Nat.eq_zero_or_pos a with rfl | hpos
  · rw [mod_of_lt_two_mul (by omega)]
    split_ifs <;> omega
  · rw [mod_of_lt_two_mul (by omega)]
    split_ifs <;> omega

/-- **Counters less than a round apart** are as far apart as their slots. -/
theorem ringDist_mod {n a b : ℕ} (hle : a ≤ b) (hlt : b < a + n) :
    ringDist n (a % n) (b % n) = b - a := by
  have hn : 0 < n := by omega
  have ha := Nat.mod_lt a hn
  have hb : b % n = if a % n + (b - a) < n then a % n + (b - a) else a % n + (b - a) - n := by
    rw [← mod_of_lt_two_mul (by omega), Nat.mod_add_mod, Nat.add_sub_cancel' hle]
  rw [ringDist_of_lt ha (Nat.mod_lt b hn), hb]
  split_ifs <;> omega

/-- Going on within the round. -/
theorem mod_add_of_lt {n a d : ℕ} (h : a % n + d < n) : (a + d) % n = a % n + d := by
  rw [← Nat.mod_add_mod, Nat.mod_eq_of_lt h]

/-- Going on to the end of the round. -/
theorem mod_add_round {n : ℕ} (hn : 0 < n) (a : ℕ) : (a + (n - a % n)) % n = 0 := by
  have ha := Nat.mod_lt a hn
  rw [← Nat.mod_add_mod, Nat.add_sub_cancel' (by omega), Nat.mod_self]

/-- What is left of a ring when one slot is kept free, so that full and empty differ. -/
theorem free_eq {n a b : ℕ} (ha : a < n) (hb : b < n) :
    (a + n - 1 - b) % n = n - 1 - ringDist n a b := by
  rw [ringDist_of_lt ha hb]
  rcases Nat.lt_or_ge (a + n - 1 - b) n with hlt | hge
  · rw [Nat.mod_eq_of_lt hlt]
    split_ifs <;> omega
  · rw [mod_of_lt_two_mul (by omega)]
    split_ifs <;> omega

end Codrive.Basis
