/-
# Pools of things handed out

What a pool has is free or in use, never both, and nothing is in use twice.  An allocator that
keeps a bitmap keeps the free members; who uses the others is for its callers to know.
-/

import Mathlib.Data.Multiset.Filter
import Mathlib.Data.Multiset.UnionInter
import Mathlib.Data.Set.Basic

namespace Codrive.Basis

variable {α : Type*}

/-- `Pool all free used`: the members of `all` that are not free are in use, each once. -/
structure Pool (all free : Set α) (used : Multiset α) : Prop where
  nodup : used.Nodup
  free_iff : ∀ x, x ∈ free ↔ x ∈ all ∧ x ∉ used
  used_mem : ∀ x ∈ used, x ∈ all

namespace Pool

variable {all free free' : Set α} {used : Multiset α} {x : α}

/-- A pool nothing of which is in use. -/
theorem init (all : Set α) : Pool all all 0 where
  nodup := Multiset.nodup_zero
  free_iff x := by simp
  used_mem x hx := absurd hx (Multiset.notMem_zero x)

theorem congr (h : Pool all free used) (hf : ∀ y, y ∈ free' ↔ y ∈ free) : Pool all free' used :=
  ⟨h.nodup, fun y => (hf y).trans (h.free_iff y), h.used_mem⟩

/-- **A free member is taken.** -/
theorem take (h : Pool all free used) (hx : x ∈ free) (hf : ∀ y, y ∈ free' ↔ y ∈ free ∧ y ≠ x) :
    Pool all free' (x ::ₘ used) := by
  obtain ⟨hall, hused⟩ := (h.free_iff x).1 hx
  refine ⟨Multiset.nodup_cons.2 ⟨hused, h.nodup⟩, fun y => ?_, fun y hy => ?_⟩
  · rw [hf, h.free_iff, Multiset.mem_cons, not_or]
    tauto
  · rcases Multiset.mem_cons.1 hy with rfl | hy
    · exact hall
    · exact h.used_mem y hy

/-- **A member in use is given back.** -/
theorem give (h : Pool all free (x ::ₘ used)) (hf : ∀ y, y ∈ free' ↔ y ∈ free ∨ y = x) :
    Pool all free' used := by
  obtain ⟨hx, hnodup⟩ := Multiset.nodup_cons.1 h.nodup
  refine ⟨hnodup, fun y => ?_, fun y hy => h.used_mem y (Multiset.mem_cons_of_mem hy)⟩
  rw [hf, h.free_iff, Multiset.mem_cons, not_or]
  constructor
  · rintro (⟨hall, -, hy⟩ | rfl)
    · exact ⟨hall, hy⟩
    · exact ⟨h.used_mem y (Multiset.mem_cons_self ..), hx⟩
  · rintro ⟨hall, hy⟩
    by_cases hyx : y = x
    · exact .inr hyx
    · exact .inl ⟨hall, hyx, hy⟩

/-- What is in use is not free. -/
theorem not_free (h : Pool all free used) (hx : x ∈ used) : x ∉ free :=
  fun hfree => ((h.free_iff x).1 hfree).2 hx

end Pool

end Codrive.Basis
