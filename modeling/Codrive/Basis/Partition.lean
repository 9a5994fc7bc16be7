/-
# Partitions in any order

A whole is a list of parts when each of its members is in one of them, and in no other.  The order
of the parts does not matter, so one of them can be parted again, and what it loses put to the end.
-/

import Mathlib.Data.List.Pairwise
import Mathlib.Tactic.Common

namespace Codrive.Basis

variable {α : Type*} {whole a a' b : α → Prop} {parts : List (α → Prop)}

/-- **The whole is its parts**, and they are apart. -/
structure Partition (whole : α → Prop) (parts : List (α → Prop)) : Prop where
  has : ∀ v, whole v ↔ ∃ a ∈ parts, a v
  apart : parts.Pairwise fun a b => ∀ v, a v → ¬b v

namespace Partition

/-- Nothing is parted yet. -/
theorem single (whole : α → Prop) : Partition whole [whole] where
  has v := by simp
  apart := List.pairwise_singleton ..

/-- Two parts. -/
theorem pair (hhas : ∀ v, whole v ↔ a v ∨ b v) (happart : ∀ v, a v → ¬b v) :
    Partition whole [a, b] where
  has v := by simp [hhas v]
  apart := List.pairwise_pair.2 happart

/-- The order does not matter. -/
theorem perm {parts' : List (α → Prop)} (h : Partition whole parts) (hp : parts.Perm parts') :
    Partition whole parts' where
  has v := by simp [h.has v, hp.mem_iff]
  apart := (hp.pairwise_iff fun hab v hb ha => hab v ha hb).1 h.apart

/-- No member is in two parts. -/
theorem eq_of_map {ι : Type*} {f : ι → α → Prop} {l : List ι} (h : Partition whole (l.map f))
    {i j : ι} (hi : i ∈ l) (hj : j ∈ l) {v : α} (hv : f i v) (hv' : f j v) : i = j := by
  by_contra hne
  have hsymm : Std.Symm fun i j => ∀ v, f i v → ¬f j v := ⟨fun _ _ hij v hb ha => hij v ha hb⟩
  exact (List.pairwise_map.1 h.apart).forall hi hj hne v hv hv'

/-- **The first part is parted again.** -/
theorem split (h : Partition whole (a :: parts)) (ha : Partition a [a', b]) :
    Partition whole (a' :: (parts ++ [b])) := by
  have hhas : ∀ v, a v ↔ a' v ∨ b v := by
    intro v
    simpa using ha.has v
  obtain ⟨happart, hparts⟩ := List.pairwise_cons.1 h.apart
  refine ⟨fun v => ?_, List.pairwise_cons.2 ⟨fun c hc v hv => ?_, ?_⟩⟩
  · rw [h.has v]
    simp only [List.mem_cons, List.mem_append, List.not_mem_nil, or_false, exists_eq_left,
      or_and_right, exists_or, hhas v]
    rw [or_right_comm, or_assoc]
  · rcases List.mem_append.1 hc with hc | hc
    · exact happart c hc v ((hhas v).2 (.inl hv))
    · rw [List.mem_singleton.1 hc]
      exact List.pairwise_pair.1 ha.apart v hv
  · refine List.pairwise_append.2 ⟨hparts, List.pairwise_singleton .., fun c hc d hd v hv hdv => ?_⟩
    rw [List.mem_singleton.1 hd] at hdv
    exact happart c hc v ((hhas v).2 (.inr hdv)) hv

end Partition

end Codrive.Basis
