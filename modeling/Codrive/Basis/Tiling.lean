/-
# Tilings of an interval

A list of spans `(start, length)` tiles `[lo, hi)` when every span starts where the one
before it ends.  Allocators keep their nodes this way, page tables their leaves, and
interval trees the parts a range was split into: no gap, no overlap.
-/

import Mathlib.Algebra.BigOperators.Group.List.Basic
import Mathlib.Algebra.GroupWithZero.Nat
import Mathlib.Data.List.Pairwise
import Mathlib.Order.Basic
import Mathlib.Order.Interval.Finset.Nat
import Mathlib.Tactic.Common

namespace Codrive.Basis

/-- `Tiles lo hi l`: the spans of `l`, in order, cover `[lo, hi)` with no gap and no
overlap. -/
def Tiles : ℕ → ℕ → List (ℕ × ℕ) → Prop
  | lo, hi, [] => lo = hi
  | lo, hi, s :: l => s.1 = lo ∧ Tiles (lo + s.2) hi l

instance Tiles.decidable : ∀ lo hi l, Decidable (Tiles lo hi l)
  | lo, hi, [] => inferInstanceAs (Decidable (lo = hi))
  | lo, hi, s :: l =>
    have := Tiles.decidable (lo + s.2) hi l
    inferInstanceAs (Decidable (s.1 = lo ∧ Tiles (lo + s.2) hi l))

@[simp] theorem tiles_nil {lo hi : ℕ} : Tiles lo hi [] ↔ lo = hi := Iff.rfl

@[simp] theorem tiles_cons {lo hi : ℕ} {s : ℕ × ℕ} {l : List (ℕ × ℕ)} :
    Tiles lo hi (s :: l) ↔ s.1 = lo ∧ Tiles (lo + s.2) hi l := Iff.rfl

theorem Tiles.le {lo hi : ℕ} {l : List (ℕ × ℕ)} (h : Tiles lo hi l) : lo ≤ hi := by
  induction l generalizing lo with
  | nil => exact Nat.le_of_eq h
  | cons s l ih => exact Nat.le_trans (Nat.le_add_right ..) (ih h.2)

/-- A tiling in two parts meets at a point. -/
theorem tiles_append {lo hi : ℕ} {l l' : List (ℕ × ℕ)} :
    Tiles lo hi (l ++ l') ↔ ∃ mid, Tiles lo mid l ∧ Tiles mid hi l' := by
  induction l generalizing lo with
  | nil => simp
  | cons s l ih => simp [ih, and_assoc]

/-- Around one span: what is before it ends where it starts, what is after it starts
where it ends. -/
theorem tiles_append_cons {lo hi : ℕ} {s : ℕ × ℕ} {l l' : List (ℕ × ℕ)} :
    Tiles lo hi (l ++ s :: l') ↔ Tiles lo s.1 l ∧ Tiles (s.1 + s.2) hi l' := by
  rw [tiles_append]
  constructor
  · rintro ⟨mid, h, rfl, h'⟩
    exact ⟨h, h'⟩
  · rintro ⟨h, h'⟩
    exact ⟨s.1, h, rfl, h'⟩

/-- **Splitting a span keeps a tiling.** -/
theorem tiles_split {lo hi s a b : ℕ} {l l' : List (ℕ × ℕ)} :
    Tiles lo hi (l ++ (s, a) :: (s + a, b) :: l') ↔ Tiles lo hi (l ++ (s, a + b) :: l') := by
  rw [tiles_append_cons, tiles_append_cons, tiles_cons]
  simp [Nat.add_assoc]

/-- Every span of a tiling lies inside the interval. -/
theorem Tiles.mem_bounds {lo hi : ℕ} {s : ℕ × ℕ} {l : List (ℕ × ℕ)} (h : Tiles lo hi l)
    (hs : s ∈ l) : lo ≤ s.1 ∧ s.1 + s.2 ≤ hi := by
  obtain ⟨A, B, rfl⟩ := List.append_of_mem hs
  obtain ⟨h₁, h₂⟩ := tiles_append_cons.1 h
  exact ⟨h₁.le, h₂.le⟩

/-- **The spans of a tiling are ordered and disjoint.** -/
theorem Tiles.pairwise {lo hi : ℕ} {l : List (ℕ × ℕ)} (h : Tiles lo hi l) :
    l.Pairwise fun s t => s.1 + s.2 ≤ t.1 := by
  induction l generalizing lo with
  | nil => exact .nil
  | cons s l ih =>
    refine List.pairwise_cons.2 ⟨fun t ht => ?_, ih h.2⟩
    rw [h.1]
    exact (h.2.mem_bounds ht).1

/-- Every point of the interval is in a span. -/
theorem Tiles.exists_mem {lo hi x : ℕ} {l : List (ℕ × ℕ)} (h : Tiles lo hi l) (hlo : lo ≤ x)
    (hhi : x < hi) : ∃ s ∈ l, s.1 ≤ x ∧ x < s.1 + s.2 := by
  induction l generalizing lo with
  | nil =>
    rw [tiles_nil] at h
    omega
  | cons s l ih =>
    obtain ⟨rfl, h⟩ := h
    by_cases hx : x < s.1 + s.2
    · exact ⟨s, List.mem_cons_self, hlo, hx⟩
    · obtain ⟨t, ht, hxt⟩ := ih h (by omega)
      exact ⟨t, List.mem_cons_of_mem _ ht, hxt⟩

/-- The lengths of a tiling add up to the length of the interval. -/
theorem Tiles.sum {lo hi : ℕ} {l : List (ℕ × ℕ)} (h : Tiles lo hi l) :
    lo + (l.map Prod.snd).sum = hi := by
  induction l generalizing lo with
  | nil => simpa using h
  | cons s l ih => simpa [Nat.add_assoc] using ih h.2

/-- Two spans have no point in common. -/
def Separate (s t : ℕ × ℕ) : Prop := s.1 + s.2 ≤ t.1 ∨ t.1 + t.2 ≤ s.1

theorem Separate.symm {s t : ℕ × ℕ} (h : Separate s t) : Separate t s := Or.symm h

instance : Std.Symm Separate := ⟨fun _ _ => Separate.symm⟩

/-- Part of a span has no point in common with what the span has none with. -/
theorem Separate.part {s t u : ℕ × ℕ} (h : Separate s t) (hlo : t.1 ≤ u.1)
    (hhi : u.1 + u.2 ≤ t.1 + t.2) : Separate s u := by
  rcases h with h | h
  · exact .inl (by omega)
  · exact .inr (by omega)

/-- Spans of a list that begin at the same point are one. -/
theorem eq_of_fst_of_separate {l : List (ℕ × ℕ)} (hl : l.Pairwise Separate)
    (hpos : ∀ s ∈ l, 0 < s.2) {s t : ℕ × ℕ} (hs : s ∈ l) (ht : t ∈ l) (heq : s.1 = t.1) :
      s = t := by
  by_contra hne
  have hsep := hl.forall hs ht hne
  have hs := hpos s hs
  have ht := hpos t ht
  unfold Separate at hsep
  omega

theorem nodup_of_separate {l : List (ℕ × ℕ)} (hl : l.Pairwise Separate) (hpos : ∀ s ∈ l, 0 < s.2) :
    l.Nodup := by
  refine List.Pairwise.imp_of_mem (fun {s t} hs _ hsep => ?_) hl
  rintro rfl
  have hpos := hpos s hs
  unfold Separate at hsep
  omega

/-- A span is part of another. -/
def Within (s t : ℕ × ℕ) : Prop := t.1 ≤ s.1 ∧ s.1 + s.2 ≤ t.1 + t.2

instance (s t : ℕ × ℕ) : Decidable (Within s t) := inferInstanceAs (Decidable (_ ∧ _))

theorem Tiles.pairwise_separate {lo hi : ℕ} {l : List (ℕ × ℕ)} (h : Tiles lo hi l) :
    l.Pairwise Separate :=
  h.pairwise.imp .inl

/-- The points of the spans of a list. -/
def points (l : List (ℕ × ℕ)) : Finset ℕ :=
  l.foldr (fun s u => Finset.Ico s.1 (s.1 + s.2) ∪ u) ∅

theorem mem_points {l : List (ℕ × ℕ)} {x : ℕ} :
    x ∈ points l ↔ ∃ s ∈ l, s.1 ≤ x ∧ x < s.1 + s.2 := by
  induction l with
  | nil => simp [points]
  | cons s l ih =>
    rw [points, List.foldr_cons, ← points, Finset.mem_union, ih, Finset.mem_Ico]
    simp

/-- **Disjoint spans inside an interval are no longer, together, than the interval.** -/
theorem sum_le_of_separate {lo hi : ℕ} {l : List (ℕ × ℕ)} (hl : l.Pairwise Separate)
    (hin : ∀ s ∈ l, lo ≤ s.1 ∧ s.1 + s.2 ≤ hi) : (l.map Prod.snd).sum ≤ hi - lo := by
  have hcard : (points l).card = (l.map Prod.snd).sum := by
    clear hin
    induction l with
    | nil => rfl
    | cons s l ih =>
      obtain ⟨hs, hl⟩ := List.pairwise_cons.1 hl
      have hdisj : Disjoint (Finset.Ico s.1 (s.1 + s.2)) (points l) := by
        refine Finset.disjoint_left.2 fun x hx hxl => ?_
        obtain ⟨t, ht, hxt⟩ := mem_points.1 hxl
        have hx' := Finset.mem_Ico.1 hx
        rcases hs t ht with h | h <;> omega
      rw [points, List.foldr_cons, ← points, Finset.card_union_of_disjoint hdisj, ih hl,
        Nat.card_Ico, List.map_cons, List.sum_cons]
      omega
  have hsub : points l ⊆ Finset.Ico lo hi := fun x hx => by
    obtain ⟨s, hs, hxs⟩ := mem_points.1 hx
    have := hin s hs
    exact Finset.mem_Ico.2 (by omega)
  calc (l.map Prod.snd).sum = (points l).card := hcard.symm
    _ ≤ (Finset.Ico lo hi).card := Finset.card_le_card hsub
    _ = hi - lo := Nat.card_Ico lo hi

end Codrive.Basis
