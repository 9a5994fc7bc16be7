/-
# Lists of records that are changed in place

A linked list of records is a list; a loop over it that changes the records and a state beside
them is `forEach`, a record reached through a pointer is the first one a test finds.  What such
changes do to a quantity that is added up over the records (`load`) and kept beside them is
said once here: a loop that books each record's change books the list's change.
-/

import Mathlib.Algebra.BigOperators.Group.List.Basic
import Mathlib.Tactic.Abel

namespace Codrive.Basis

section ForEach

variable {σ α : Type*} {G : Type*} [AddCommGroup G]

/-- A loop over a list that changes each record and a state. -/
def forEach (f : σ → α → σ × α) : σ → List α → σ × List α
  | s, [] => (s, [])
  | s, a :: l =>
    let (s, a) := f s a
    let (s, l) := forEach f s l
    (s, a :: l)

theorem length_forEach (f : σ → α → σ × α) (s : σ) (l : List α) :
    (forEach f s l).2.length = l.length := by
  induction l generalizing s with
  | nil => rfl
  | cons a l ih => simp [forEach, ih]

/-- A loop whose body keeps a property of the state keeps it. -/
theorem forEach_inv {P : σ → Prop} {f : σ → α → σ × α} (hf : ∀ s a, P s → P (f s a).1) {s : σ}
    (hs : P s) (l : List α) : P (forEach f s l).1 := by
  induction l generalizing s with
  | nil => exact hs
  | cons a l ih => exact ih (hf s a hs)

/-- A view of the records that the body does not change. -/
theorem map_forEach {β : Type*} {g : α → β} {f : σ → α → σ × α} (hf : ∀ s a, g (f s a).2 = g a)
    (s : σ) (l : List α) : (forEach f s l).2.map g = l.map g := by
  induction l generalizing s with
  | nil => rfl
  | cons a l ih => simp only [forEach, List.map_cons, hf, ih]

/-- **A loop that books the change of each record books the change of the list.** -/
theorem forEach_sum {book : σ → G} {load : α → G} {f : σ → α → σ × α} {l : List α}
    (hf : ∀ a ∈ l, ∀ s, book (f s a).1 + load a = book s + load (f s a).2) (s : σ) :
    book (forEach f s l).1 + (l.map load).sum =
      book s + ((forEach f s l).2.map load).sum := by
  induction l generalizing s with
  | nil => rfl
  | cons a l ih =>
    obtain ⟨ha, hl⟩ := List.forall_mem_cons.1 hf
    have h₁ := ha s
    have h₂ := ih hl (f s a).1
    simp only [forEach, List.map_cons, List.sum_cons]
    calc _ = load a + (book (forEach f (f s a).1 l).1 + (l.map load).sum) := by abel
      _ = (book (f s a).1 + load a) + ((forEach f (f s a).1 l).2.map load).sum := by
        rw [h₂]; abel
      _ = _ := by rw [h₁]; abel

end ForEach

section First

variable {α : Type*} {p : α → Bool}

/-- The first record a test finds, changed. -/
def updateFirst (p : α → Bool) (f : α → α) : List α → List α
  | [] => []
  | a :: l => if p a then f a :: l else a :: updateFirst p f l

/-- **The first record a test finds**, and what changing or erasing it leaves. -/
theorem exists_first {l : List α} {a : α} (h : l.find? p = some a) :
    ∃ A B, l = A ++ a :: B ∧ l.eraseP p = A ++ B ∧
      ∀ f : α → α, updateFirst p f l = A ++ f a :: B := by
  induction l with
  | nil => simp at h
  | cons b l ih =>
    by_cases hb : p b = true
    · rw [List.find?_cons_of_pos hb, Option.some.injEq] at h
      subst h
      exact ⟨[], l, rfl, by simp [hb], fun f => by simp [updateFirst, hb]⟩
    · rw [List.find?_cons_of_neg hb] at h
      obtain ⟨A, B, rfl, he, hf⟩ := ih h
      exact ⟨b :: A, B, rfl, by simp [hb, he], fun f => by simp [updateFirst, hb, hf]⟩

/-- A change that a view of the records does not see. -/
theorem map_updateFirst {β : Type*} {g : α → β} {f : α → α} (hf : ∀ a, g (f a) = g a)
    (l : List α) : (updateFirst p f l).map g = l.map g := by
  induction l with
  | nil => rfl
  | cons a l ih =>
    rw [updateFirst]
    split_ifs
    · rw [List.map_cons, List.map_cons, hf]
    · rw [List.map_cons, List.map_cons, ih]

/-- Erasing the first record a test finds, after a change the test does not see. -/
theorem eraseP_updateFirst {f : α → α} (hf : ∀ a, p (f a) = p a) (l : List α) :
    (updateFirst p f l).eraseP p = l.eraseP p := by
  induction l with
  | nil => rfl
  | cons a l ih =>
    rw [updateFirst]
    by_cases ha : p a = true
    · rw [if_pos ha, List.eraseP_cons_of_pos (by rw [hf, ha]), List.eraseP_cons_of_pos ha]
    · rw [if_neg ha, List.eraseP_cons_of_neg ha, List.eraseP_cons_of_neg ha, ih]

end First

end Codrive.Basis
