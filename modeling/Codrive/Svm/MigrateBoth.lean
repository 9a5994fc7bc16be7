/-
# Migrating an interval, in either direction

The exact conditions of both directions in one statement, and an interval that meets them in neither
way: a page that is missing behind one that waits sends all pages behind it to the places of the
pages before.
-/

import Codrive.Svm.MigrateToRam
import Codrive.Svm.MigrateToVram

namespace Codrive.Svm

open Codrive.Basis

/-- **When a migration does what it says**, to VRAM and back. -/
theorem migrate_meets_iff {κ : Type} {At : κ → ℕ → ℕ → Prop} :
    (∀ x : ToVram κ, x.Valid At →
      (x.Meets ↔ x.vram_node_new ≠ 0 ∨ x.Whole ∨ ∃ i, x.StopsClean i)) ∧
      ∀ x : ToRam, x.Meets ↔ x.Whole ∨ ∃ i taken, x.StopsClean i taken :=
  ⟨fun _ hx => ToVram.meets_iff hx, fun _ => ToRam.meets_iff⟩

/-! ### An interval with a page missing -/

/-- A cursor that counts pages: the one it is at, and how many are left. -/
def pageCursor (pieces : List Extent) : ResCursor (ℕ × ℕ) where
  first start size := (start / PAGE_BYTES, size / PAGE_BYTES)
  next c size := (c.1 + size / PAGE_BYTES, c.2 - size / PAGE_BYTES)
  start c := pageAddr pieces c.1
  size c := min (Extent.run pieces c.1) c.2 * PAGE_BYTES

/-- It walks over the pieces. -/
theorem pageCursor_walks (pieces : List Extent) :
    (pageCursor pieces).Walks pieces fun c i rem => c = (i, rem) := by
  have hpos : 0 < PAGE_BYTES := by decide
  constructor
  · intro i n _ _
    simp [pageCursor, Nat.mul_div_cancel _ hpos]
  · rintro _ i rem k rfl _ _
    simp [pageCursor, Nat.mul_div_cancel _ hpos]
  · rintro _ i rem rfl
    rfl
  · rintro _ i rem rfl
    rfl

/-- An interval of four pages, in a range and a buffer of eight; every call succeeds. -/
def interval (src : ℕ → Option SysPage) : ToVram (ℕ × ℕ) where
  sdma := ⟨fun _ => 0, fun _ => 0, fun _ => 0, fun _ => 0⟩
  rc := pageCursor [⟨16, 8⟩]
  vram_node_new := 0
  pieces := [⟨16, 8⟩]
  prange := { start := 256, last := 263, npages := 8 }
  start := 256
  npages := 4
  cpages := 4
  src := src
  dma_map_page i := (i + 512) * PAGE_BYTES
  dma_mapping_error _ := 0
  pgmap_start := 1048576 * PAGE_BYTES

theorem interval_valid (src : ℕ → Option SysPage) :
    (interval src).Valid fun c i rem => c = (i, rem) := by
  constructor
  · exact pageCursor_walks _
  · exact Nat.le_refl 256
  · show 256 + 4 ≤ 256 + 8
    decide
  · show 0 + 8 ≤ Extent.total [⟨16, 8⟩]
    decide
  · exact Nat.succ_pos 3
  · exact Nat.le_refl 4
  · exact List.pairwise_singleton _ _
  · exact ⟨1048576, Nat.mul_comm _ _⟩
  · show ∀ e ∈ [Extent.mk 16 8], (e.start + e.length) * PAGE_BYTES + 1048576 * PAGE_BYTES ≤ 2 ^ 64
    decide

/-- **The first page is to be moved, the second is missing**: the third and the fourth go where the
second and the third belong, and the call succeeds. -/
theorem migrate_gap_shifts :
    let x := interval fun i => if i = 1 then none else some ⟨i, false⟩
    x.Valid (fun c i rem => c = (i, rem)) ∧
      (x.svmMigrateCopyToVram fun _ => 0).1 = 0 ∧
      (x.svmMigrateCopyToVram fun _ => 0).2.dst 2 = some (x.pfnAt 1) ∧ ¬x.Meets := by
  have hdst : ((interval fun i => if i = 1 then none else some ⟨i, false⟩).svmMigrateCopyToVram
      fun _ => 0).2.dst 2 = some ((interval fun _ => none).pfnAt 1) := by
    decide +kernel
  refine ⟨interval_valid _, by decide +kernel, hdst, fun hmeets => ?_⟩
  have hrecorded := (hmeets.2 fun _ => 0).recorded (by decide +kernel) 2
  rw [hdst] at hrecorded
  revert hrecorded
  decide +kernel

/-- Where all four pages are to be moved, they are. -/
theorem migrate_meets_full : (interval fun i => some ⟨i, false⟩).Meets := by
  have hcopies : ∀ first n, (interval fun i => some ⟨i, false⟩).sdma.Copies first n :=
    fun _ _ _ _ => ⟨rfl, rfl⟩
  refine (migrate_meets_iff.1 _ (interval_valid _)).2 (.inr (.inl ⟨fun i _ => ?_, ?_, ?_, ?_, ?_⟩))
  · exact ⟨fun _ => rfl, fun _ _ => hcopies _ _, fun h => by cases h⟩
  · decide
  · exact hcopies _ _
  · rfl
  · exact fun i hi _ => hi

end Codrive.Svm
