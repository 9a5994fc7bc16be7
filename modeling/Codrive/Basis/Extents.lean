/-
# Extents

Something that lies in contiguous pieces, one piece after another: `place` tells where its elements
are and `run` how many of them follow one another from an element on.  Inside a piece the places go
up one by one, and where the pieces do not overlap, no place is used twice.
-/

import Mathlib.Data.List.Basic
import Mathlib.Tactic.Common

namespace Codrive.Basis

/-- A contiguous piece. -/
structure Extent where
  start : ℕ
  length : ℕ
  deriving DecidableEq, Repr

namespace Extent

/-- How many elements the pieces have. -/
def total : List Extent → ℕ
  | [] => 0
  | e :: es => e.length + total es

/-- Where an element is. -/
def place : List Extent → ℕ → ℕ
  | [], _ => 0
  | e :: es, i => if i < e.length then e.start + i else place es (i - e.length)

/-- How many elements there are from an element to the end of its piece. -/
def run : List Extent → ℕ → ℕ
  | [], _ => 0
  | e :: es, i => if i < e.length then e.length - i else run es (i - e.length)

/-- Two pieces that have no place in common. -/
def Apart (a b : Extent) : Prop := a.start + a.length ≤ b.start ∨ b.start + b.length ≤ a.start

instance (a b : Extent) : Decidable (Apart a b) := inferInstanceAs (Decidable (_ ∨ _))

variable {es : List Extent} {i j k : ℕ}

theorem run_pos (h : i < total es) : 0 < run es i := by
  induction es generalizing i with
  | nil => exact absurd h (Nat.not_lt_zero i)
  | cons e es ih =>
    rw [run]
    rw [total] at h
    split
    · omega
    · exact ih (by omega)

/-- **Inside a piece** the run gets shorter. -/
theorem run_add (h : k < run es i) : run es (i + k) = run es i - k := by
  induction es generalizing i with
  | nil => exact absurd h (Nat.not_lt_zero k)
  | cons e es ih =>
    rw [run] at h
    rw [run, run]
    by_cases hi : i < e.length
    · rw [if_pos hi] at h ⊢
      rw [if_pos (by omega)]
      omega
    · rw [if_neg hi] at h ⊢
      rw [if_neg (by omega), show i + k - e.length = i - e.length + k by omega]
      exact ih h

/-- **Inside a piece** the places go up one by one. -/
theorem place_add (h : k < run es i) : place es (i + k) = place es i + k := by
  induction es generalizing i with
  | nil => exact absurd h (Nat.not_lt_zero k)
  | cons e es ih =>
    rw [run] at h
    rw [place, place]
    by_cases hi : i < e.length
    · rw [if_pos hi] at h ⊢
      rw [if_pos (by omega)]
      omega
    · rw [if_neg hi] at h ⊢
      rw [if_neg (by omega), show i + k - e.length = i - e.length + k by omega]
      exact ih h

/-- An element is in a piece. -/
theorem exists_place (h : i < total es) :
    ∃ e ∈ es, e.start ≤ place es i ∧ place es i < e.start + e.length := by
  induction es generalizing i with
  | nil => exact absurd h (Nat.not_lt_zero i)
  | cons e es ih =>
    rw [total] at h
    rw [place]
    by_cases hi : i < e.length
    · rw [if_pos hi]
      exact ⟨e, List.mem_cons_self, by omega, by omega⟩
    · rw [if_neg hi]
      obtain ⟨e', he', hplace⟩ := ih (i := i - e.length) (by omega)
      exact ⟨e', List.mem_cons_of_mem _ he', hplace⟩

/-- What is left of a piece is no more than the piece, and inside of it. -/
theorem exists_run_le (h : i < total es) :
    ∃ e ∈ es, place es i + run es i = e.start + e.length ∧ run es i ≤ e.length := by
  induction es generalizing i with
  | nil => exact absurd h (Nat.not_lt_zero i)
  | cons e es ih =>
    rw [total] at h
    rw [place, run]
    by_cases hi : i < e.length
    · rw [if_pos hi, if_pos hi]
      exact ⟨e, List.mem_cons_self, by omega, by omega⟩
    · rw [if_neg hi, if_neg hi]
      obtain ⟨e', he', hrun⟩ := ih (i := i - e.length) (by omega)
      exact ⟨e', List.mem_cons_of_mem _ he', hrun⟩

/-- **No place is used twice.** -/
theorem place_inj (hapart : es.Pairwise Apart) (hi : i < total es) (hj : j < total es)
    (h : place es i = place es j) : i = j := by
  induction es generalizing i j with
  | nil => exact absurd hi (Nat.not_lt_zero i)
  | cons e es ih =>
    rw [List.pairwise_cons] at hapart
    rw [total] at hi hj
    -- an element of the first piece is not where one of the other pieces is
    have hother : ∀ {k}, ¬k < e.length → k < e.length + total es →
        place es (k - e.length) < e.start ∨ e.start + e.length ≤ place es (k - e.length) := by
      intro k hk hlt
      obtain ⟨e', he', hle, hlt'⟩ := exists_place (i := k - e.length) (show _ < total es by omega)
      rcases hapart.1 e' he' with h | h
      · exact .inr (by omega)
      · exact .inl (by omega)
    rw [place, place] at h
    by_cases hi' : i < e.length <;> by_cases hj' : j < e.length
    · rw [if_pos hi', if_pos hj'] at h
      omega
    · rw [if_pos hi', if_neg hj'] at h
      have := hother hj' hj
      omega
    · rw [if_neg hi', if_pos hj'] at h
      have := hother hi' hi
      omega
    · rw [if_neg hi', if_neg hj'] at h
      have := ih hapart.2 (by omega) (by omega) h
      omega

end Extent

end Codrive.Basis
