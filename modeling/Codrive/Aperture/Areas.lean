/-
# The address areas of an aperture

`ReservedVma` and `MmapVma` of `src/src/device/Vma.cpp`: `allocate_area_aligned` and
`release_area`.  A `ReservedVma` takes its areas from its `Allocator`, a `MmapVma` from the
operating system.  `mmap` answers with an area that is padded for the alignment and the guard
pages, and the padding is unmapped; `munmap` takes whole pages, and refuses an address inside one.

| here | source |
|---|---|
| `0` as an address | a null pointer |
| `none` as a result | a failed `assert`, or a null pointer that is followed |
| `os` | where `mmap` puts the area, `none` for `MAP_FAILED` |
| `pages` | the pages that the process has mapped in the aperture |

The alignment of a `ReservedVma` sets an address that `alloc` does not read, and is left out.
-/

import Codrive.Device.AllocatorRuns
import Codrive.Device.MemObjPoolRuns
import Mathlib.Order.Interval.Finset.Nat

namespace Codrive.Aperture

open Codrive.Basis Codrive.Device

/-- The subclass of `Vma`. -/
inductive VmaClass
  | reserved
  | mmap
  deriving DecidableEq

/-- What the pool does not read of an object. -/
structure Fields where
  node_id : ℕ := 0
  flags : ℕ := 0
  registered_device_id_array : List ℕ := []
  registered_device_id_array_size : ℕ := 0
  is_imported_kfd_bo : Bool := false

/-- `Vma`. -/
structure Vma where
  cls : VmaClass
  base_ : ℕ
  limit_ : ℕ
  align_ : ℕ := 0
  guard_pages_ : ℕ := 1
  is_cpu_accessible_ : Bool := false
  PAGE_SIZE : ℕ
  PAGE_SHIFT : ℕ
  /-- A null pointer before `init_allocator`. -/
  allocator_ : Option Allocator := none
  mem_objs : MemObjPool := {}
  fields : MemObj → Fields := fun _ => {}
  pages : Finset ℕ := ∅

/-- `GPU_HUGE_PAGE_SIZE`. -/
def gpuHugePageSize : ℕ := 2 ^ 21

/-- The pages that `len` bytes from a page boundary on reach into. -/
def pagesOf (page addr len : ℕ) : Finset ℕ :=
  Finset.Ico (addr / page) ((addr + len + page - 1) / page)

/-- `alignUp`. -/
def alignUp (num align : ℕ) : ℕ := (num + align - 1) / align * align

/-- `while (align < GPU_HUGE_PAGE_SIZE && size >= (align << 1)) align <<= 1`; the loop ends before
the count does. -/
def growAlign (size : ℕ) : ℕ → ℕ → ℕ
  | 0, align => align
  | count + 1, align =>
    if align < gpuHugePageSize ∧ 2 * align ≤ size then growAlign size count (2 * align) else align

namespace Vma

/-- `munmap`. -/
def munmap (v : Vma) (addr len : ℕ) : Vma :=
  if addr % v.PAGE_SIZE = 0 ∧ 0 < len then
    { v with pages := v.pages \ pagesOf v.PAGE_SIZE addr len }
  else v

/-- `vm_align_area_size`. -/
def vmAlignAreaSize (v : Vma) (size : ℕ) : ℕ := size + v.guard_pages_ * v.PAGE_SIZE

/-! ### `MmapVma` -/

/-- `align`, after the loop. -/
def align (v : Vma) (size : ℕ) : ℕ := growAlign size 21 v.align_

/-- `aligned_padded_size`. -/
def alignedPaddedSize (v : Vma) (size : ℕ) : ℕ :=
  size + v.align size + 2 * (v.guard_pages_ * v.PAGE_SIZE) - v.PAGE_SIZE

/-- `aligned_addr`. -/
def alignedAddr (v : Vma) (addr size : ℕ) : ℕ :=
  alignUp (addr + v.guard_pages_ * v.PAGE_SIZE) (v.align size)

/-- `MmapVma::allocate_area_aligned`, after `mmap`. -/
def trim (v : Vma) (addr size : ℕ) : ℕ × Vma :=
  let aligned_addr := v.alignedAddr addr size
  let aligned_end := aligned_addr + size
  let mapping_end := addr + v.alignedPaddedSize size
  let w := { v with pages := v.pages ∪ pagesOf v.PAGE_SIZE addr (v.alignedPaddedSize size) }
  if aligned_addr < v.base_ ∨ v.limit_ < aligned_addr + size - 1 then
    (0, w.munmap addr (v.alignedPaddedSize size))
  else
    let w := if addr < aligned_addr then w.munmap addr (aligned_addr - addr) else w
    let w := if aligned_end < mapping_end then w.munmap aligned_end (mapping_end - aligned_end)
      else w
    (aligned_addr, w)

/-- `MmapVma::allocate_area_aligned`, with the alignment of the aperture. -/
def mmapArea (v : Vma) (os : Option ℕ) (address size : ℕ) : ℕ × Vma :=
  if address ≠ 0 then (0, v)
  else if !v.is_cpu_accessible_ then (0, v)
  else
    match os with
    | none => (0, v)
    | some addr => v.trim addr size

/-! ### Any aperture -/

/-- `aperture_allocate_area`. -/
def apertureAllocateArea (ndebug : Bool) (v : Vma) (os : Option ℕ) (address bytes : ℕ) :
    Option (ℕ × Vma) :=
  match v.cls with
  | .reserved => do
    let a ← v.allocator_
    let (p, a) ← a.alloc ndebug address (v.vmAlignAreaSize bytes) (address ≠ 0)
    return (p.getD 0, { v with allocator_ := some a })
  | .mmap => some (v.mmapArea os address bytes)

/-- `release_area`. -/
def releaseArea (ndebug : Bool) (v : Vma) (address bytes : ℕ) : Option Vma :=
  match v.cls with
  | .reserved => do
    let a ← v.allocator_
    let (_, a) ← a.free ndebug address (v.vmAlignAreaSize bytes)
    return { v with allocator_ := some a }
  | .mmap => if v.is_cpu_accessible_ then some (v.munmap address bytes) else some v

end Vma

/-! ### What an aperture is made of -/

/-- An aperture as it is set up: the allocator keeps its invariant, and the alignment is a number
of pages. -/
structure Vma.Ok (v : Vma) : Prop where
  page_pos : 0 < v.PAGE_SIZE
  allocator : ∀ a ∈ v.allocator_, a.Inv
  align_pos : 0 < v.align_
  align_dvd : v.PAGE_SIZE ∣ v.align_
  sorted : ComparatorMap.Sorted AddrRangeCmp v.mem_objs.address_set
  key : ∀ e ∈ v.mem_objs.address_set, e.1 = e.2.range

/-- `mmap` puts the area at a page boundary, where nothing is mapped. -/
def Vma.OsOk (v : Vma) (os : Option ℕ) (size : ℕ) : Prop :=
  ∀ addr ∈ os, addr ≠ 0 ∧ v.PAGE_SIZE ∣ addr ∧
    Disjoint v.pages (pagesOf v.PAGE_SIZE addr (v.alignedPaddedSize size))

/-- The reserved areas of the allocator. -/
def Vma.used (v : Vma) : List (ℕ × ℕ) :=
  (v.allocator_.map fun a => usedNodes a.memory.entries).getD []

/-- The same areas are reserved. -/
def Vma.SameAreas (v w : Vma) : Prop := w.used.Perm v.used ∧ w.pages = v.pages

theorem Vma.SameAreas.refl (v : Vma) : v.SameAreas v := ⟨.refl _, rfl⟩

end Codrive.Aperture
