/-
# Lists changed in place

A buffer is a list whose length stays; a write outside it is a fault (`none`).  Where the parts of
the list in front of a cell and behind it are known, so is the list after the write (`store_append`,
`store_gap`).  Mirroring, where the cells of each half are exchanged with those of the other,
reverses the list (`mirror_eq`), and never leaves it.
-/

import Mathlib.Data.List.Induction

namespace Codrive.Basis

variable {α : Type*}

/-- A write to a cell, `none` outside the list. -/
def store (l : List α) (i : ℕ) (a : α) : Option (List α) :=
  if i < l.length then some (l.set i a) else none

theorem length_of_store {l m : List α} {i : ℕ} {a : α} (h : store l i a = some m) :
    m.length = l.length := by
  rw [store] at h
  split at h
  · rw [← Option.some.inj h, List.length_set]
  · cases h

theorem store_append (front : List α) (x : α) (back : List α) (a : α) :
    store (front ++ x :: back) front.length a = some (front ++ a :: back) := by
  rw [store, if_pos (by simp), List.set_append_right front.length a (Nat.le_refl _), Nat.sub_self,
    List.set_cons_zero]

/-- A write behind what is finished, in front of what is still to be read, takes nothing from the
latter. -/
theorem store_gap (front gap : List α) (x : α) (back : List α) (a : α) :
    ∃ gap', gap'.length = gap.length ∧
      store (front ++ gap ++ x :: back) front.length a = some (front ++ [a] ++ gap' ++ back) := by
  cases gap with
  | nil => exact ⟨[], rfl, by simpa using store_append front x back a⟩
  | cons g gap =>
    refine ⟨gap ++ [x], by simp, ?_⟩
    have hsplit : front ++ g :: gap ++ x :: back = front ++ g :: (gap ++ x :: back) := by simp
    rw [hsplit, store_append]
    simp

/-- The exchange of cell `i` with the one as far from the end. -/
def mirrorTurn (l : List α) (i : ℕ) : Option (List α) := do
  let c ← l[i]?
  let d ← l[l.length - i - 1]?
  let l ← store l i d
  store l (l.length - i - 1) c

/-- A list mirrored in place. -/
def mirror (l : List α) : Option (List α) := (List.range' 0 (l.length / 2)).foldlM mirrorTurn l

theorem mirrorTurn_eq {front back : List α} (h : front.length = back.length) (x : α)
    (middle : List α) (y : α) :
    mirrorTurn (front ++ (x :: (middle ++ [y])) ++ back) front.length =
      some (front ++ (y :: (middle ++ [x])) ++ back) := by
  have hlast : (front ++ (x :: (middle ++ [y])) ++ back).length - front.length - 1 =
      (front ++ x :: middle).length := by
    simp only [List.length_append, List.length_cons, List.length_nil]
    omega
  have hlast' : (front ++ y :: (middle ++ y :: back)).length - front.length - 1 =
      (front ++ y :: middle).length := by
    simp only [List.length_append, List.length_cons]
    omega
  have hfirst : front ++ (x :: (middle ++ [y])) ++ back = front ++ x :: (middle ++ y :: back) := by
    simp
  have hcell : (front ++ (x :: (middle ++ [y])) ++ back)[(front ++ x :: middle).length]? =
      some y := by
    rw [show front ++ (x :: (middle ++ [y])) ++ back = front ++ x :: middle ++ y :: back by simp,
      List.getElem?_append_right (Nat.le_refl _), Nat.sub_self, List.getElem?_cons_zero]
  rw [mirrorTurn, hlast, hcell, hfirst, List.getElem?_append_right (Nat.le_refl _), Nat.sub_self,
    List.getElem?_cons_zero]
  change (store _ _ y).bind _ = _
  rw [store_append, Option.bind_some, hlast',
    show front ++ y :: (middle ++ y :: back) = front ++ y :: middle ++ y ::
      back by simp, store_append]
  simp

/-- What the turns that are left do to the part between what has been exchanged. -/
theorem foldlM_mirrorTurn (middle front back : List α) (h : front.length = back.length) :
    (List.range' front.length (middle.length / 2)).foldlM mirrorTurn (front ++ middle ++ back) =
      some (front ++ middle.reverse ++ back) := by
  induction middle using List.bidirectionalRec generalizing front back with
  | nil => simp
  | singleton a => simp
  | cons_append x middle y ih =>
    have hhalf : (x :: (middle ++ [y])).length / 2 = middle.length / 2 + 1 := by
      simp only [List.length_cons, List.length_append, List.length_nil]
      omega
    have hnext := ih (front ++ [y]) (x :: back) (by simp [h])
    rw [hhalf, List.range'_succ, List.foldlM_cons, mirrorTurn_eq h]
    rw [List.length_append, List.length_singleton] at hnext
    simpa using hnext

/-- **Mirroring in place** reverses. -/
theorem mirror_eq (l : List α) : mirror l = some l.reverse := by
  simpa [mirror] using foldlM_mirrorTurn l [] [] rfl

end Codrive.Basis
