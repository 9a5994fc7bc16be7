/-
# Counted loops that a turn can leave

`for (i = 0; i < n; i++)` with a body that can leave the loop with a value, as `goto` and `break`
do.  Either every turn is taken, or there is a first turn that leaves, and what the loop has done is
what the turns before it and this one do.
-/

import Mathlib.Tactic.Common

namespace Codrive.Basis

variable {σ ε : Type*} {body : ℕ → σ → Except ε σ} {s t u : σ} {e : ε} {m n : ℕ}

/-- The first `n` turns of the loop. -/
def forBelow (body : ℕ → σ → Except ε σ) : ℕ → σ → Except ε σ
  | 0, s => .ok s
  | n + 1, s => forBelow body n s >>= body n

@[simp] theorem forBelow_zero : forBelow body 0 s = .ok s := rfl

/-- One more turn. -/
theorem forBelow_succ (h : forBelow body n s = .ok t) : forBelow body (n + 1) s = body n t := by
  rw [forBelow, h]
  rfl

/-- A loop that was left is not entered again. -/
theorem forBelow_error (h : forBelow body m s = .error e) (hle : m ≤ n) :
    forBelow body n s = .error e := by
  induction hle with
  | refl => exact h
  | step _ ih =>
    rw [forBelow, ih]
    rfl

/-- The turn that leaves the loop. -/
theorem forBelow_leaves (h : forBelow body m s = .ok t) (he : body m t = .error e) (hlt : m < n) :
    forBelow body n s = .error e :=
  forBelow_error ((forBelow_succ h).trans he) hlt

/-- **Every turn goes on**, and keeps the invariant. -/
theorem forBelow_ok (I : ℕ → σ → Prop) (h₀ : I 0 s)
    (hturn : ∀ i < n, ∀ t, I i t → ∃ u, body i t = .ok u ∧ I (i + 1) u) :
    ∃ t, forBelow body n s = .ok t ∧ I n t := by
  induction n with
  | zero => exact ⟨s, rfl, h₀⟩
  | succ n ih =>
    obtain ⟨t, ht, hI⟩ := ih fun i hi => hturn i (Nat.lt_succ_of_lt hi)
    obtain ⟨u, hu, hI'⟩ := hturn n (Nat.lt_succ_self n) t hI
    exact ⟨u, (forBelow_succ ht).trans hu, hI'⟩

/-- **From a turn on**, every turn keeps the invariant or leaves the loop as it is allowed to. -/
theorem forBelow_from (I : ℕ → σ → Prop) (E : ε → Prop) (hm : forBelow body m s = .ok t)
    (hI : I m t) (hle : m ≤ n)
    (hturn : ∀ i, m ≤ i → i < n → ∀ t, I i t →
      (∃ u, body i t = .ok u ∧ I (i + 1) u) ∨ ∃ e, body i t = .error e ∧ E e) :
    (∃ u, forBelow body n s = .ok u ∧ I n u) ∨ ∃ e, forBelow body n s = .error e ∧ E e := by
  induction hle with
  | refl => exact .inl ⟨t, hm, hI⟩
  | @step n hle ih =>
    have hrest := ih fun i hi hin => hturn i hi (Nat.lt_succ_of_lt hin)
    obtain ⟨u, hu, hIu⟩ | ⟨e, he, hE⟩ := hrest
    · rw [forBelow_succ hu]
      exact hturn n hle (Nat.lt_succ_self n) u hIu
    · exact .inr ⟨e, forBelow_error he (Nat.le_succ n), hE⟩

/-- Either all numbers below a bound are good, or there is a first one that is not. -/
theorem forall_or_exists_first (P : ℕ → Prop) (n : ℕ) :
    (∀ i < n, P i) ∨ ∃ k < n, (∀ i < k, P i) ∧ ¬P k := by
  induction n with
  | zero => exact .inl fun i hi => absurd hi (Nat.not_lt_zero i)
  | succ n ih =>
    obtain hall | ⟨k, hk, hbefore, hnot⟩ := ih
    · by_cases hn : P n
      · refine .inl fun i hi => ?_
        obtain hlt | rfl := Nat.lt_succ_iff_lt_or_eq.1 hi
        · exact hall i hlt
        · exact hn
      · exact .inr ⟨n, Nat.lt_succ_self n, hall, hn⟩
    · exact .inr ⟨k, Nat.lt_succ_of_lt hk, hbefore, hnot⟩

end Codrive.Basis
