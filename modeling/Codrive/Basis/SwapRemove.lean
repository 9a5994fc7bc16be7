/-
# Removing from a vector by moving its last element

To remove an element, its place is given to the last one and the vector becomes shorter.  A loop
that removes this way looks at the place once more.  What it leaves is what the test does not find,
in some order (`perm_removeWhere`).
-/

import Mathlib.Data.List.Basic

namespace Codrive.Basis

variable {α : Type*}

/-- `v[i] = std::move(v[v.size() - 1]); v.pop_back()`. -/
def swapRemove (v : List α) (i : ℕ) : List α :=
  match v.getLast? with
  | none => v
  | some last => (v.set i last).dropLast

/-- The loop from place `i` on, for at most so many iterations.  Says as well whether anything was
removed. -/
def removeWhere (p : α → Bool) : ℕ → ℕ → List α → Bool → List α × Bool
  | 0, _, v, ret => (v, ret)
  | n + 1, i, v, ret =>
    match v[i]? with
    | none => (v, ret)
    | some a =>
      if p a then removeWhere p n i (swapRemove v i) true else removeWhere p n (i + 1) v ret

variable {p : α → Bool} {A B : List α} {b : α}

/-- What is before the place stays, and what is behind it changes its order. -/
theorem swapRemove_append :
    ∃ C, swapRemove (A ++ b :: B) A.length = A ++ C ∧ C.Perm B := by
  unfold swapRemove
  rcases List.eq_nil_or_concat B with rfl | ⟨B, c, rfl⟩
  · refine ⟨[], ?_, .refl _⟩
    rw [List.getLast?_concat]
    dsimp only
    rw [List.set_append_right _ _ (Nat.le_refl _), Nat.sub_self, List.set_cons_zero,
      List.dropLast_concat, List.append_nil]
  · rw [List.concat_eq_append]
    refine ⟨c :: B, ?_, (List.perm_append_singleton c B).symm⟩
    rw [← List.cons_append, ← List.append_assoc, List.getLast?_concat]
    dsimp only
    rw [List.append_assoc, List.set_append_right _ _ (Nat.le_refl _), Nat.sub_self,
      List.cons_append, List.set_cons_zero, ← List.cons_append, ← List.append_assoc,
      List.dropLast_concat]

/-- **The loop from a place on**, where nothing before the place is found by the test. -/
theorem removeWhere_append (n : ℕ) (hn : B.length ≤ n) (ret : Bool) :
    ∃ C, removeWhere p n A.length (A ++ B) ret = (A ++ C, ret || B.any p) ∧
      C.Perm (B.filter fun b => !p b) := by
  induction n generalizing A B ret with
  | zero =>
    obtain rfl := List.length_eq_zero_iff.1 (Nat.le_zero.1 hn)
    exact ⟨[], by rw [removeWhere, List.any_nil, Bool.or_false], .refl _⟩
  | succ n ih =>
    cases B with
    | nil =>
      refine ⟨[], ?_, .refl _⟩
      rw [removeWhere, List.append_nil, List.getElem?_eq_none (Nat.le_refl _), List.any_nil,
        Bool.or_false]
    | cons b B =>
      have hb : (A ++ b :: B)[A.length]? = some b := by
        rw [List.getElem?_append_right (Nat.le_refl _), Nat.sub_self, List.getElem?_cons_zero]
      rw [removeWhere, hb]
      dsimp only
      by_cases hp : p b = true
      · obtain ⟨C, hC, hperm⟩ := swapRemove_append (A := A) (b := b) (B := B)
        have hlen : C.length ≤ n := by
          rw [hperm.length_eq]
          exact Nat.le_of_succ_le_succ hn
        obtain ⟨D, hD, hD'⟩ := ih hlen true (A := A)
        refine ⟨D, ?_, ?_⟩
        · rw [if_pos hp, hC, hD, List.any_cons, hp, Bool.true_or, Bool.true_or, Bool.or_true]
        · rw [List.filter_cons_of_neg (by rw [hp]; decide)]
          exact hD'.trans (hperm.filter _)
      · rw [Bool.not_eq_true] at hp
        obtain ⟨D, hD, hD'⟩ := ih (Nat.le_of_succ_le_succ hn) ret (A := A ++ [b])
        refine ⟨b :: D, ?_, ?_⟩
        · rw [List.length_append, List.length_singleton, List.append_assoc,
            List.singleton_append] at hD
          rw [if_neg (by rw [hp]; decide), hD, List.any_cons, hp, Bool.false_or, List.append_assoc,
            List.singleton_append]
        · rw [List.filter_cons_of_pos (by rw [hp]; decide)]
          exact hD'.cons b

/-- **The loop removes what the test finds, and nothing else.** -/
theorem perm_removeWhere (v : List α) :
    (removeWhere p v.length 0 v false).1.Perm (v.filter fun b => !p b) ∧
      (removeWhere p v.length 0 v false).2 = v.any p := by
  obtain ⟨C, hC, hperm⟩ := removeWhere_append (p := p) (A := []) v.length (Nat.le_refl v.length)
    false
  rw [List.nil_append, List.length_nil] at hC
  rw [hC]
  exact ⟨hperm, Bool.false_or _⟩

end Codrive.Basis
