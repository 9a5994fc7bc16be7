/-
# What comes no earlier in a list

Entries of a list that stand at or after a given one, where a list grows at its end and gives up
initial parts.  Entries that are waited for in order are followed with `not_notBefore_head` (the
first one may go) and `sublist_of_not_notBefore` (what is before them may go).
-/

import Mathlib.Data.List.Nodup
import Mathlib.Tactic.Common

namespace Codrive.Basis

variable {α : Type*} {l l₁ l₂ u : List α} {a b x : α}

/-- An entry stands at an entry, or after it. -/
def NotBefore (l : List α) (a b : α) : Prop := a ∈ l ∧ (a = b ∨ [a, b].Sublist l)

theorem NotBefore.self (h : a ∈ l) : NotBefore l a a := ⟨h, .inl rfl⟩

theorem NotBefore.mem_right (h : NotBefore l a b) : b ∈ l := by
  obtain ⟨ha, rfl | hab⟩ := h
  · exact ha
  · exact hab.subset (by simp)

/-- What stands so in a part stands so in the list. -/
theorem NotBefore.mono (h : NotBefore l₁ a b) (hsub : l₁.Sublist l₂) : NotBefore l₂ a b :=
  ⟨hsub.subset h.1, h.2.imp_right fun hab => hab.trans hsub⟩

/-- What is added comes last. -/
theorem NotBefore.last (h : a ∈ l) (x : α) : NotBefore (l ++ [x]) a x :=
  ⟨List.mem_append_left _ h, .inr ((List.singleton_sublist.2 h).append (.refl [x]))⟩

/-- What stands after an entry of a list with a new last one stood there, or is the new one. -/
theorem NotBefore.of_concat (ha : a ∈ l) (h : NotBefore (l ++ [x]) a b) :
    NotBefore l a b ∨ b = x := by
  obtain ⟨-, rfl | hab⟩ := h
  · exact .inl (.self ha)
  obtain ⟨r₁, r₂, heq, h₁, h₂⟩ := List.sublist_append_iff.1 hab
  match r₁ with
  | [] =>
    have := h₂.length_le
    rw [← List.nil_append r₂, ← heq] at this
    simp at this
  | [c] =>
    obtain ⟨rfl, rfl⟩ := List.cons_eq_cons.1 heq
    exact .inr (List.mem_singleton.1 (h₂.subset (List.mem_singleton_self b)))
  | c :: d :: r =>
    obtain ⟨hc, htail⟩ := List.cons_eq_cons.1 heq
    obtain ⟨hd, hnil⟩ := List.cons_eq_cons.1 htail
    obtain ⟨rfl, -⟩ := List.append_eq_nil_iff.1 hnil.symm
    rw [← hc, ← hd] at h₁
    exact .inl ⟨ha, .inr h₁⟩

/-- Nothing stands after the last entry. -/
theorem NotBefore.eq_last (hx : x ∉ l) (h : NotBefore (l ++ [x]) x b) : b = x := by
  obtain ⟨-, rfl | hxb⟩ := h
  · rfl
  obtain ⟨r₁, r₂, heq, h₁, h₂⟩ := List.sublist_append_iff.1 hxb
  match r₁ with
  | [] =>
    have := h₂.length_le
    rw [← List.nil_append r₂, ← heq] at this
    simp at this
  | c :: r =>
    obtain ⟨rfl, -⟩ := List.cons_eq_cons.1 heq
    exact absurd (h₁.subset List.mem_cons_self) hx

theorem NotBefore.trans {c : α} (hnodup : l.Nodup) (hab : NotBefore l a b)
    (hbc : NotBefore l b c) : NotBefore l a c := by
  obtain ⟨ha, rfl | hab⟩ := hab
  · exact hbc
  obtain ⟨-, rfl | hbc⟩ := hbc
  · exact ⟨ha, .inr hab⟩
  refine ⟨ha, .inr ?_⟩
  clear ha
  induction l with
  | nil => cases hab
  | cons y l ih =>
    obtain ⟨hy, hl⟩ := List.nodup_cons.1 hnodup
    have hb : b ∈ l := by
      rcases List.sublist_cons_iff.1 hab with hab | ⟨r, heq, hab⟩
      · exact hab.subset (by simp)
      · obtain ⟨-, rfl⟩ := List.cons_eq_cons.1 heq
        exact hab.subset List.mem_cons_self
    -- the pair that starts with an entry of the rest is in the rest
    have hrest : [b, c].Sublist l := by
      rcases List.sublist_cons_iff.1 hbc with hbc | ⟨r, heq, -⟩
      · exact hbc
      · obtain ⟨rfl, -⟩ := List.cons_eq_cons.1 heq
        exact absurd hb hy
    have hc : c ∈ l := hrest.subset (by simp)
    rcases List.sublist_cons_iff.1 hab with hab | ⟨r, heq, -⟩
    · exact (ih hl hab hrest).cons y
    · obtain ⟨rfl, -⟩ := List.cons_eq_cons.1 heq
      exact (List.singleton_sublist.2 hc).cons_cons a

/-- Two entries do not stand before each other. -/
theorem not_sublist_swap (hnodup : l.Nodup) (h : [a, b].Sublist l) : ¬[b, a].Sublist l := by
  intro h'
  induction l with
  | nil => cases h
  | cons y l ih =>
    obtain ⟨hy, hl⟩ := List.nodup_cons.1 hnodup
    rcases List.sublist_cons_iff.1 h with hab | ⟨r, heq, hab⟩
    · rcases List.sublist_cons_iff.1 h' with hba | ⟨r', heq', -⟩
      · exact ih hl hab hba
      · obtain ⟨rfl, -⟩ := List.cons_eq_cons.1 heq'
        exact hy (hab.subset (List.mem_cons_of_mem _ List.mem_cons_self))
    · obtain ⟨rfl, rfl⟩ := List.cons_eq_cons.1 heq
      rcases List.sublist_cons_iff.1 h' with hba | ⟨r', heq', -⟩
      · exact hy (hba.subset (List.mem_cons_of_mem _ List.mem_cons_self))
      · obtain ⟨rfl, -⟩ := List.cons_eq_cons.1 heq'
        exact hy (hab.subset List.mem_cons_self)

/-- The first of some entries, in order, stands before the others. -/
theorem not_notBefore_head (hnodup : l.Nodup) (h : (x :: u).Sublist l) (ha : a ∈ u) :
    ¬NotBefore l a x := by
  have hxa : [x, a].Sublist l := ((List.singleton_sublist.2 ha).cons_cons x).trans h
  rintro ⟨-, rfl | hax⟩
  · exact (List.nodup_cons.1 (hnodup.sublist h)).1 ha
  · exact not_sublist_swap hnodup hxa hax

/-- Some entries that stand after an entry, in order, are in what comes after it. -/
theorem sublist_of_not_notBefore (h : u.Sublist (l₁ ++ x :: l₂))
    (hu : ∀ a ∈ u, ¬NotBefore (l₁ ++ x :: l₂) a x) : u.Sublist l₂ := by
  rw [List.append_cons] at h hu
  obtain ⟨u₁, u₂, rfl, h₁, h₂⟩ := List.sublist_append_iff.1 h
  match u₁ with
  | [] => exact h₂
  | a :: u₁ =>
    have ha : a ∈ l₁ ++ [x] := h₁.subset List.mem_cons_self
    refine absurd ?_ (hu a (by simp))
    refine NotBefore.mono ?_ (List.sublist_append_left ..)
    rcases List.mem_append.1 ha with hal | hax
    · exact .last hal x
    · rw [List.mem_singleton.1 hax]
      exact .self (by simp)

end Codrive.Basis
