/-
# Trees of tables over a range of keys

A table at depth `d` has `fanout d` entries, each for `weight d` keys; an entry leads to a table
of the next depth for the same keys.  Page tables are such a tree, and radix trees.  A table is
known by its path, the entries that lead to it, deepest first.
-/

import Mathlib.Algebra.Order.Ring.Nat
import Mathlib.Tactic.Common
import Mathlib.Tactic.Ring

namespace Codrive.Basis

/-- The shape of a tree of tables. -/
structure Radix where
  depth : ℕ
  fanout : ℕ → ℕ
  weight : ℕ → ℕ
  fanout_pos : ∀ d, 0 < fanout d
  weight_pos : ∀ d, 0 < weight d
  weight_eq : ∀ d, d < depth → weight d = fanout (d + 1) * weight (d + 1)

namespace Radix

variable (r : Radix) {d e k k' : ℕ}

/-- The keys of a table. -/
def span (d : ℕ) : ℕ := r.fanout d * r.weight d

/-- The entry of a key in its table. -/
def digit (d k : ℕ) : ℕ := k / r.weight d % r.fanout d

/-- The table of a key. -/
def path : ℕ → ℕ → List ℕ
  | 0, _ => []
  | d + 1, k => r.digit d k :: path d k

/-- The first key of a table. -/
def base : List ℕ → ℕ
  | [] => 0
  | i :: p => base p + i * r.weight p.length

/-- The first key behind the table of a key. -/
def after (d k : ℕ) : ℕ := (k / r.span d + 1) * r.span d

/-- Every entry of a path is one of its table; the root has `top` of them. -/
def Inside (top : ℕ) : List ℕ → Prop
  | [] => True
  | i :: p => i < (if p = [] then top else r.fanout p.length) ∧ Inside top p

theorem span_pos (d : ℕ) : 0 < r.span d := Nat.mul_pos (r.fanout_pos d) (r.weight_pos d)

/-- An entry is for the keys of the table it leads to. -/
theorem span_succ (hd : d < r.depth) : r.span (d + 1) = r.weight d := (r.weight_eq d hd).symm

theorem weight_dvd_span (d : ℕ) : r.weight d ∣ r.span d := Nat.dvd_mul_left ..

/-- The keys of a table are a part of those of the tables above it. -/
theorem span_dvd_span (h : d ≤ e) (he : e ≤ r.depth) : r.span e ∣ r.span d := by
  induction e, h using Nat.le_induction with
  | base => exact Nat.dvd_refl _
  | succ e h ih =>
    rw [r.span_succ (by omega)]
    exact Nat.dvd_trans (r.weight_dvd_span e) (ih (by omega))

@[simp] theorem path_length (d k : ℕ) : (r.path d k).length = d := by
  induction d with
  | zero => rfl
  | succ d ih => rw [path, List.length_cons, ih]

theorem digit_lt (d k : ℕ) : r.digit d k < r.fanout d := Nat.mod_lt _ (r.fanout_pos d)

theorem div_span (d k : ℕ) : k / r.span d = k / r.weight d / r.fanout d := by
  rw [span, Nat.mul_comm, Nat.div_div_eq_div_mul]

/-- Keys of one table have one path. -/
theorem path_congr (hd : d ≤ r.depth) (h : k / r.span d = k' / r.span d) :
    r.path d k = r.path d k' := by
  induction d with
  | zero => rfl
  | succ d ih =>
    rw [r.span_succ (by omega)] at h
    have hdigit : r.digit d k = r.digit d k' := by rw [digit, digit, h]
    have hpath : r.path d k = r.path d k' := ih (by omega) (by rw [div_span, div_span, h])
    rw [path, path, hdigit, hpath]

/-- **The path of a key leads to the table that the key is in.** -/
theorem base_path (hd : d ≤ r.depth) (hk : k < r.span 0) :
    r.base (r.path d k) = k / r.span d * r.span d := by
  induction d with
  | zero => rw [path, base, Nat.div_eq_of_lt hk, Nat.zero_mul]
  | succ d ih =>
    have hdigit : k / r.weight d / r.fanout d * r.fanout d + r.digit d k = k / r.weight d :=
      Nat.div_add_mod' ..
    rw [path, base, path_length, ih (by omega), r.span_succ (by omega), div_span, span,
      ← Nat.mul_assoc, ← Nat.add_mul, hdigit]

theorem lt_after (d k : ℕ) : k < r.after d k := by
  rw [after, Nat.mul_comm]
  exact Nat.lt_mul_div_succ k (r.span_pos d)

theorem span_dvd_after (d k : ℕ) : r.span d ∣ r.after d k := Nat.dvd_mul_left ..

/-- A boundary behind a key is not before the end of the key's table. -/
theorem after_le (hk : k < k') (h : r.span d ∣ k') : r.after d k ≤ k' := by
  obtain ⟨q, rfl⟩ := h
  rw [after, Nat.mul_comm]
  refine Nat.mul_le_mul_left _ ?_
  exact (Nat.div_lt_iff_lt_mul (r.span_pos d)).2 (by rwa [Nat.mul_comm])

theorem after_eq_add (d k : ℕ) : r.after d k = k / r.span d * r.span d + r.span d := by
  rw [after, Nat.add_mul, Nat.one_mul]

/-- **Where an entry is not its table's last, the next entry's table begins at its end.** -/
theorem path_after (hd : d < r.depth) (h : r.digit d k + 1 < r.fanout d) :
    r.path (d + 1) (r.after (d + 1) k) = (r.digit d k + 1) :: r.path d k ∧
      ¬r.span d ∣ r.after (d + 1) k := by
  have hdiv : r.after (d + 1) k / r.weight d = k / r.weight d + 1 := by
    rw [after, r.span_succ hd, Nat.mul_div_cancel _ (r.weight_pos d)]
  have hmod : (k / r.weight d + 1) % r.fanout d = r.digit d k + 1 := by
    rw [Nat.add_mod, ← digit, Nat.mod_eq_of_lt (show 1 < r.fanout d by omega),
      Nat.mod_eq_of_lt h]
  have hquot : (k / r.weight d + 1) / r.fanout d = k / r.weight d / r.fanout d := by
    have h₁ := Nat.div_add_mod (k / r.weight d) (r.fanout d)
    rw [← digit] at h₁
    have h₂ : k / r.weight d + 1 =
        r.digit d k + 1 + r.fanout d * (k / r.weight d / r.fanout d) := by omega
    rw [h₂, Nat.add_mul_div_left _ _ (r.fanout_pos d), Nat.div_eq_of_lt h, Nat.zero_add]
  constructor
  · have hpath : r.path d (r.after (d + 1) k) = r.path d k :=
      r.path_congr (by omega) (by rw [div_span, div_span, hdiv, hquot])
    rw [path, hpath, digit, hdiv, hmod]
  · rintro ⟨q, hq⟩
    have hq' : k / r.weight d + 1 = r.fanout d * q := by
      rw [← hdiv, hq, span, Nat.mul_right_comm, Nat.mul_div_cancel _ (r.weight_pos d)]
    rw [hq', Nat.mul_mod_right] at hmod
    omega

/-- Where an entry is its table's last, they end together. -/
theorem after_succ (hd : d < r.depth) (h : r.digit d k + 1 = r.fanout d) :
    r.after (d + 1) k = r.after d k := by
  have h₁ := Nat.div_add_mod (k / r.weight d) (r.fanout d)
  rw [← digit] at h₁
  have h₂ : k / r.weight d + 1 = (k / r.weight d / r.fanout d + 1) * r.fanout d := by
    rw [Nat.add_mul, Nat.mul_comm]
    omega
  rw [after, after, r.span_succ hd, h₂, div_span, span, Nat.mul_assoc]

variable {top : ℕ}

/-- A key of the tree has a path inside it. -/
theorem inside_path (hk : k < top * r.weight 0) (d : ℕ) : r.Inside top (r.path d k) := by
  induction d with
  | zero => trivial
  | succ d ih =>
    refine ⟨?_, ih⟩
    cases d with
    | zero =>
      refine Nat.lt_of_le_of_lt (Nat.mod_le ..) ?_
      exact (Nat.div_lt_iff_lt_mul (r.weight_pos 0)).2 hk
    | succ d =>
      rw [if_neg (by simp [path]), path_length]
      exact r.digit_lt ..

/-- **The tables inside a tree hold keys of the tree only.** -/
theorem base_add_le {p : List ℕ} {i : ℕ} (hp : p.length ≤ r.depth) (h : r.Inside top (i :: p)) :
    r.base p + (i + 1) * r.weight p.length ≤ top * r.weight 0 := by
  induction p generalizing i with
  | nil =>
    have hi : i < top := h.1
    rw [base, Nat.zero_add]
    exact Nat.mul_le_mul_right _ hi
  | cons j p ih =>
    have hi : i < r.fanout (p.length + 1) := by simpa using h.1
    have hp' : p.length < r.depth := hp
    have hle : (i + 1) * r.weight (p.length + 1) ≤ r.weight p.length := by
      rw [r.weight_eq _ hp']
      exact Nat.mul_le_mul_right _ hi
    have hj := ih (Nat.le_of_lt hp') h.2
    rw [Nat.add_mul, Nat.one_mul] at hj
    rw [base, List.length_cons]
    omega

/-- **A key is the sum of its entries**, each for as many keys as it is for, and of its place below
the last. -/
theorem sum_digits {n : ℕ} (hk : k < r.span 0) (hn : n ≤ r.depth) :
    ((List.range (n + 1)).map fun d => r.digit d k * r.weight d).sum + k % r.weight n = k := by
  induction n with
  | zero =>
    have hdigit : r.digit 0 k = k / r.weight 0 :=
      Nat.mod_eq_of_lt ((Nat.div_lt_iff_lt_mul (r.weight_pos 0)).2 hk)
    rw [List.range_one, List.map_singleton, List.sum_singleton, hdigit]
    exact Nat.div_add_mod' k (r.weight 0)
  | succ n ih =>
    have hsplit : k % r.weight n =
        r.digit (n + 1) k * r.weight (n + 1) + k % r.weight (n + 1) := by
      rw [r.weight_eq n (by omega), Nat.mul_comm (r.fanout (n + 1)), Nat.mod_mul, digit,
        Nat.mul_comm, Nat.add_comm, Nat.mul_comm]
    have hsum := ih (by omega)
    rw [List.range_succ, List.map_append, List.sum_append, List.map_singleton, List.sum_singleton]
    omega

/-- The path has the entries of all levels. -/
theorem digit_eq_of_path {n : ℕ} (h : r.path (n + 1) k = r.path (n + 1) k') (hd : d ≤ n) :
    r.digit d k = r.digit d k' := by
  induction n with
  | zero =>
    obtain rfl : d = 0 := Nat.le_zero.1 hd
    exact (List.cons.inj h).1
  | succ n ih =>
    rcases Nat.eq_or_lt_of_le hd with rfl | hlt
    · exact (List.cons.inj h).1
    · exact ih (List.cons.inj h).2 (Nat.le_of_lt_succ hlt)

/-- **Keys with the same entries** are keys of the same entry. -/
theorem div_weight_eq {n : ℕ} (hn : n ≤ r.depth) (hk : k < r.span 0) (hk' : k' < r.span 0)
    (h : r.path (n + 1) k = r.path (n + 1) k') : k / r.weight n = k' / r.weight n := by
  have hsum := r.sum_digits hk hn
  have hsum' := r.sum_digits hk' hn
  have hsame : ((List.range (n + 1)).map fun d => r.digit d k * r.weight d) =
      (List.range (n + 1)).map fun d => r.digit d k' * r.weight d := by
    refine List.map_congr_left fun d hd => ?_
    rw [r.digit_eq_of_path h (Nat.le_of_lt_succ (List.mem_range.1 hd))]
  have hdiv := Nat.div_add_mod k (r.weight n)
  have hdiv' := Nat.div_add_mod k' (r.weight n)
  rw [hsame] at hsum
  refine Nat.eq_of_mul_eq_mul_left (r.weight_pos n) ?_
  omega

end Radix

end Codrive.Basis
