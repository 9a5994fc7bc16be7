/-
# Loops

A loop as the body it runs: a turn either leaves a state for the next turn, or ends the loop with a
result, or has none, when what it runs has none.  The loop is bounded by a number of turns, and what
it returns is read off an invariant; a measure that goes down in every turn gives the number of
turns that are enough.  For a loop over the numbers from one to another, the invariant knows the
number.
-/

import Mathlib.Tactic.Common

namespace Codrive.Basis

variable {σ α : Type} {body : σ → Option (σ ⊕ α)}

/-- At most `turns` turns of a loop. -/
def loop (body : σ → Option (σ ⊕ α)) : ℕ → σ → Option α
  | 0, _ => none
  | turns + 1, s =>
    match body s with
    | none => none
    | some (.inl t) => loop body turns t
    | some (.inr a) => some a

/-- **What a loop returns.**  An invariant that holds at the start and is kept by every turn holds
when the loop ends. -/
theorem loop_rule (I : σ → Prop) (Q : α → Prop) (hturn : ∀ s t, I s → body s = some (.inl t) → I t)
    (hend : ∀ s a, I s → body s = some (.inr a) → Q a) {turns : ℕ} {s : σ} {a : α}
    (hs : I s) (h : loop body turns s = some a) : Q a := by
  induction turns generalizing s with
  | zero => cases h
  | succ turns ih =>
    rw [loop] at h
    split at h
    · cases h
    · next t ht => exact ih (hturn s t hs ht) h
    · next b hb => exact Option.some.inj h ▸ hend s b hs hb

/-- More turns change nothing. -/
theorem loop_mono {turns more : ℕ} {s : σ} {a : α} (h : loop body turns s = some a)
    (hle : turns ≤ more) : loop body more s = some a := by
  induction turns generalizing more s with
  | zero => cases h
  | succ turns ih =>
    cases more with
    | zero => omega
    | succ more =>
      rw [loop] at h ⊢
      split at h
      · cases h
      · exact ih h (by omega)
      · exact h

/-- **A loop has one result.** -/
theorem loop_unique {turns more : ℕ} {s : σ} {a b : α} (h : loop body turns s = some a)
    (h' : loop body more s = some b) : a = b := by
  rcases Nat.le_total turns more with hle | hle
  · exact Option.some.inj ((loop_mono h hle).symm.trans h')
  · exact Option.some.inj (h.symm.trans (loop_mono h' hle))

/-- **A loop returns** if a measure goes down in every turn. -/
theorem loop_isSome (I : σ → Prop) (μ : σ → ℕ)
    (hturn : ∀ s, I s → (∃ t, body s = some (.inl t) ∧ I t ∧ μ t < μ s) ∨
      ∃ a, body s = some (.inr a))
    {turns : ℕ} {s : σ} (hs : I s) (h : μ s < turns) : (loop body turns s).isSome = true := by
  induction turns generalizing s with
  | zero => omega
  | succ turns ih =>
    rw [loop]
    obtain ⟨t, ht, hI, hlt⟩ | ⟨a, ha⟩ := hturn s hs
    · rw [ht]
      exact ih hI (by omega)
    · rw [ha]
      rfl

/-- `for (i = lo; i <= hi; ++i)`. -/
def forTo (body : ℕ → σ → σ) (lo hi : ℕ) (s : σ) : σ :=
  (List.range' lo (hi + 1 - lo)).foldl (fun s i => body i s) s

/-- **What a loop over numbers leaves.** -/
theorem forTo_rule (I : ℕ → σ → Prop) {body : ℕ → σ → σ} {lo hi : ℕ} {s : σ} (hle : lo ≤ hi + 1)
    (hs : I lo s) (hstep : ∀ i s, lo ≤ i → i ≤ hi → I i s → I (i + 1) (body i s)) :
    I (hi + 1) (forTo body lo hi s) := by
  have hall : ∀ count i s, lo ≤ i → i + count = hi + 1 → I i s →
      I (hi + 1) ((List.range' i count).foldl (fun s i => body i s) s) := by
    intro count
    induction count with
    | zero =>
      intro i s _ hsum hI
      rw [← hsum]
      exact hI
    | succ count ih =>
      intro i s hlo hsum hI
      exact ih (i + 1) (body i s) (by omega) (by omega) (hstep i s hlo (by omega) hI)
  exact hall _ lo s (Nat.le_refl _) (by omega) hs

end Codrive.Basis
