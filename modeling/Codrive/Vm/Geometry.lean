/-
# Page tables of any geometry, and their cursor

`src/src/cmdio/linux/opu_vm_mgr.c`, lines 124-275: how many entries the tables of a level have, and
the cursor that goes down to a child, on to a sibling and up to the parent.  `Codrive.Vm.UpdatePtes`
has the same functions for the geometries a range can be mapped with; here the root may be at any
level and the tables may have any sizes the shifts of the code are defined for.

`entry->parent` is the entry whose array the entry is in, so a path stands for the entry, its parent
and everything above.
-/

import Codrive.Vm.Cursor

namespace Codrive.Vm

open Codrive.Basis

/-- What the functions read of `struct opu_vm_mgr`. -/
structure Geometry where
  frame_size : ℕ → ℕ
  root_level : ℕ
  max_pfn : ℕ
  root_level_le : root_level ≤ OPU_VM_SPE
  /-- `1 << frame_size[level]` is an `int`. -/
  frame_size_lt : ∀ level, frame_size level < 31
  /-- `1ULL << shift` is one of 64 bits. -/
  shift_lt : opuVmLevelShift frame_size root_level < 64
  /-- A page has an address of 64 bits. -/
  max_pfn_le : max_pfn ≤ 2 ^ 52

namespace Geometry

variable (g : Geometry)

/-- `opu_vm_level_shift`. -/
def levelShift (level : ℕ) : ℕ := opuVmLevelShift g.frame_size level

/-- `opu_vm_num_entries`. -/
def opuVmNumEntries (level : ℕ) : ℕ :=
  let shift := g.levelShift g.root_level
  if level = g.root_level then wrap 32 (u64 (roundUp g.max_pfn (1 <<< shift)) >>> shift)
  else 1 <<< g.frame_size level

/-- `opu_vm_entries_mask`. -/
def opuVmEntriesMask (level : ℕ) : ℕ := 1 <<< g.frame_size level - 1

/-- `opu_vm_va_level_offset`. -/
def opuVmVaLevelOffset (level va : ℕ) : ℕ :=
  va >>> (PAGE_SHIFT + g.levelShift level) &&& g.opuVmEntriesMask level

/-- `opu_vm_pt_start`. -/
def opuVmPtStart (start : ℕ) : Cursor := ⟨start, [], g.root_level⟩

/-- `opu_vm_pt_descendant`. -/
def opuVmPtDescendant (t : Tables) (c : Cursor) : Option Cursor :=
  if t c.path then
    some ⟨c.pfn, (c.pfn >>> g.levelShift c.level &&& g.opuVmEntriesMask c.level) :: c.path,
      c.level + 1⟩
  else none

/-- `amdgpu_vm_pt_sibling`. -/
def amdgpuVmPtSibling (c : Cursor) : Option Cursor :=
  match c.path with
  | [] => none
  | i :: parent =>
    let shift := g.levelShift (c.level - 1)
    if i + 1 = g.opuVmNumEntries (c.level - 1) then none
    else some ⟨alignDown (u64 (c.pfn + 1 <<< shift)) (1 <<< shift), (i + 1) :: parent, c.level⟩

/-- `amdgpu_vm_pt_ancestor`. -/
def amdgpuVmPtAncestor (c : Cursor) : Option Cursor :=
  match c.path with
  | [] => none
  | _ :: parent => some ⟨c.pfn, parent, c.level - 1⟩

/-- The number of entries of the table below an entry. -/
def width (path : List ℕ) : ℕ := g.opuVmNumEntries (g.root_level + path.length)

/-- The page tables as a tree. -/
def radix : Radix where
  depth := OPU_VM_SPE - g.root_level
  fanout d := 2 ^ g.frame_size (g.root_level + d)
  weight d := 2 ^ g.levelShift (g.root_level + d)
  fanout_pos _ := Nat.two_pow_pos _
  weight_pos _ := Nat.two_pow_pos _
  weight_eq d hd := by
    rw [← Nat.pow_add]
    exact congrArg (2 ^ ·) (opuVmLevelShift_succ g.frame_size (by omega))

/-- The cursor that stands at the table of a page, at a depth. -/
def cursorAt (d k : ℕ) : Cursor := ⟨k, g.radix.path d k, g.root_level + d⟩

/-- The entry of a page, as the cursor computes it. -/
theorem shiftRight_and_mask (d k : ℕ) :
    k >>> g.levelShift (g.root_level + d) &&& g.opuVmEntriesMask (g.root_level + d) =
      g.radix.digit d k := by
  rw [opuVmEntriesMask, Nat.one_shiftLeft, Nat.and_two_pow_sub_one_eq_mod,
    Nat.shiftRight_eq_div_pow]
  rfl

variable {g}

/-- Down, the cursor goes to the table of the same page. -/
theorem opuVmPtDescendant_cursorAt {t : Tables} {d k : ℕ} (ht : t (g.radix.path d k) = true) :
    g.opuVmPtDescendant t (g.cursorAt d k) = some (g.cursorAt (d + 1) k) := by
  unfold opuVmPtDescendant cursorAt
  rw [if_pos ht, shiftRight_and_mask]
  rfl

end Geometry

/-! ### The geometries that ranges are mapped with -/

section

variable (m : VmMgr)

theorem le_roundUp (x : ℕ) {y : ℕ} (hy : 0 < y) : x ≤ roundUp x y := by
  have h := Nat.lt_div_mul_add (a := x + (y - 1)) hy
  unfold roundUp
  omega

theorem roundUp_div (x : ℕ) {y : ℕ} (hy : 0 < y) : roundUp x y / y * y = roundUp x y := by
  rw [roundUp, Nat.mul_div_cancel _ hy]

theorem max_pfn_le_coverage : m.max_pfn ≤ coverage m := by
  have hpos := Nat.two_pow_pos (opuVmLevelShift m.frame_size m.root_level)
  rw [coverage, opuVmNumEntries, if_pos rfl, rootEntries, Nat.shiftRight_eq_div_pow,
    Nat.shiftLeft_eq, VmMgr.levelShift, Nat.one_shiftLeft, roundUp_div _ hpos]
  exact le_roundUp _ hpos

/-- The geometry, for tables whose sizes fit their types. -/
def VmMgr.geometry : Geometry where
  frame_size := m.frame_size
  root_level := m.root_level
  max_pfn := m.max_pfn
  root_level_le := Nat.le_succ_of_le m.root_level_le
  frame_size_lt level := Nat.lt_of_le_of_lt (m.frame_size_le level) (by decide)
  shift_lt := by
    have := m.shift_le
    omega
  max_pfn_le := (max_pfn_le_coverage m).trans (coverage_le m)

/-- **The functions are the same** there. -/
theorem numEntries_geometry (level : ℕ) :
    m.geometry.opuVmNumEntries level = opuVmNumEntries m level := by
  unfold Geometry.opuVmNumEntries opuVmNumEntries
  by_cases hroot : level = m.root_level
  · have hcover := coverage_le m
    have htop := top_le m
    have hframe := m.frame_size_le m.root_level
    rw [coverage, opuVmNumEntries, if_pos rfl, rootEntries, Nat.shiftRight_eq_div_pow,
      Nat.shiftLeft_eq, VmMgr.levelShift, Nat.one_shiftLeft,
      roundUp_div _ (Nat.two_pow_pos _)] at hcover
    have hsmall : rootEntries m.frame_size m.root_level m.max_pfn < 2 ^ 32 := by
      rw [← top_eq]
      exact Nat.lt_of_le_of_lt (htop.trans (Nat.pow_le_pow_right (by decide) hframe)) (by decide)
    have hroot' : level = m.geometry.root_level := hroot
    rw [if_pos hroot, if_pos hroot']
    change wrap 32 (u64 (roundUp m.max_pfn (1 <<< opuVmLevelShift m.frame_size m.root_level)) >>>
      opuVmLevelShift m.frame_size m.root_level) = _
    rw [Nat.one_shiftLeft, u64_of_lt (Nat.lt_of_le_of_lt hcover (by decide)), ← Nat.one_shiftLeft]
    exact wrap_of_lt hsmall
  · exact (if_neg hroot).trans (if_neg hroot).symm

theorem descendant_geometry (t : Tables) (c : Cursor) :
    m.geometry.opuVmPtDescendant t c = opuVmPtDescendant m t c := rfl

theorem sibling_geometry (c : Cursor) :
    m.geometry.amdgpuVmPtSibling c = amdgpuVmPtSibling m c := by
  unfold Geometry.amdgpuVmPtSibling amdgpuVmPtSibling
  simp only [numEntries_geometry]
  rfl

end

end Codrive.Vm
