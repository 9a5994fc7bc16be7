/-
# The apertures of shared virtual memory

`MemMgr::init_svm_apertures` and `MemMgr::init_mmap_apertures` of `src/src/device/MemMgr.cpp`, and
`Vma::init_allocator` of `src/src/device/inc/Vma.h`.  Where the GPUs do not reach all the addresses
of a process, a range that they reach is reserved: `mmap` is asked for it at one address after the
other, and for half of it when it puts none of them where the GPUs reach.  The first quarter of the
range becomes the coherent aperture and the rest the default one.

| here | source |
|---|---|
| `os len addr size` | where `mmap` reserves `size` bytes when it is asked for `addr`, in the round of the search that looks for `len` bytes; `none` for `MAP_FAILED` |
| `osPage` | where `mmap` puts the page that `init_mmap_apertures` tries |
| `reserved` | the ranges that the search has reserved and not given back |
| `none` as a result | a failed `assert`, or a loop that does not end in `fuel` turns |
| `x / a * a` | `x & ~(a - 1)`, for a power of two `a` |

`GPU_HUGE_PAGE_SIZE` and `PAGE_SIZE` are members of `MemMgr` that no code of the repository sets;
`MemMgr.Ok` says what their names stand for.  `alignUp` comes from a header outside the repository.
Messages are left out.
-/

import Codrive.Aperture.Areas
import Codrive.Basis.Loop

namespace Codrive.Aperture.Reserve

open Codrive.Basis Codrive.Device

/-- `SVM_RESERVATION_LIMIT`. -/
def svmReservationLimit : ℕ := 2 ^ 40 - 1

/-- `SVM_MIN_VM_SIZE`. -/
def svmMinVmSize : ℕ := 4 * 2 ^ 30

/-- `device_status_t`. -/
inductive Status
  | success
  | error
  deriving DecidableEq

/-- Which of the two `apertures` of `GpuSVM`. -/
inductive SvmAperture
  | default
  | coherent
  deriving DecidableEq

/-- Ranges of addresses: where they start and how long they are. -/
abbrev Ranges := List (ℕ × ℕ)

/-- `munmap`: what is left of each range below and above the bytes that go. -/
def Ranges.munmap (r : Ranges) (addr len : ℕ) : Ranges :=
  r.flatMap fun e =>
    [(e.1, min e.2 (addr - e.1)),
      (max e.1 (addr + len), e.1 + e.2 - max e.1 (addr + len))].filter (0 < ·.2)

/-- `MemMgr` and its `GpuSVM`. -/
structure MemMgr where
  GPU_HUGE_PAGE_SIZE : ℕ
  PAGE_SIZE : ℕ
  reserve_svm : Bool := false
  /-- `apertures[SVM_DEFAULT]`. -/
  default : Vma
  /-- `apertures[SVM_COHERENT]`. -/
  coherent : Vma
  dgpu_aperture : Option SvmAperture := none
  dgpu_alt_aperture : Option SvmAperture := none
  dgpu_shared_aperture_base_ : ℕ := 0
  dgpu_shared_aperture_limit_ : ℕ := 0
  reserved : Ranges := []

/-- `init_allocator`: the allocator is given the limit of the aperture for its length. -/
def init_allocator (ndebug : Bool) (v : Vma) : Option Vma := do
  assert ndebug (poolBoundsOk v.base_ v.limit_)
  return { v with allocator_ := some (Allocator.create v.base_ v.limit_) }

/-- `init_mmap_apertures`, and whether it succeeds. -/
def init_mmap_apertures (ndebug : Bool) (osPage : Option ℕ) (m : MemMgr)
    (base limit align guard_pages : ℕ) : Option (Status × MemMgr) := do
  if m.PAGE_SIZE < align then return (.error, m)
  let d ← init_allocator ndebug { m.default with
    base_ := base, limit_ := limit, align_ := align, guard_pages_ := guard_pages,
    is_cpu_accessible_ := true }
  let c ← init_allocator ndebug { m.coherent with base_ := 0, limit_ := 0 }
  -- allocate_area_aligned doubles the alignment until it is large, and never gets there from 0
  if align = 0 then none
  let (addr, d) ← d.apertureAllocateArea ndebug osPage 0 m.PAGE_SIZE
  if addr ≠ 0 then
    let d ← d.releaseArea ndebug addr m.PAGE_SIZE
    return (.success, { m with
      default := d, coherent := c,
      dgpu_aperture := some .default, dgpu_alt_aperture := some .default })
  else
    return (.error, { m with default := d, coherent := c })

/-- `(len + 1) >> 1`. -/
def half (len : ℕ) : ℕ := u64 (len + 1) / 2

/-- One turn of the inner loop, at the start address `addr`. -/
def tryStart (m : MemMgr) (os : ℕ → ℕ → ℕ → Option ℕ) (limit len : ℕ) :
    ℕ × Ranges → (ℕ × Ranges) ⊕ (Option (ℕ × ℕ) × Ranges)
  | (addr, reserved) =>
    if sub64 (u64 (addr + half len)) 1 ≤ limit then
      let top := min (u64 (addr + len)) (u64 (limit + 1))
      let map_size := sub64 top addr / m.PAGE_SIZE * m.PAGE_SIZE
      if map_size < svmMinVmSize then .inr (none, reserved)
      else
        match os len addr map_size with
        | none => .inr (none, reserved)
        | some ret_addr =>
          let reserved := (ret_addr, map_size) :: reserved
          if sub64 (u64 (ret_addr + half len)) 1 ≤ limit then
            .inr (some (ret_addr, map_size), reserved)
          else
            .inl (u64 (addr + m.GPU_HUGE_PAGE_SIZE), Ranges.munmap reserved ret_addr map_size)
    else .inr (none, reserved)

/-- The inner loop: `ret_addr` and `map_size` when it ends, `none` for a null `ret_addr`. -/
def tryStarts (m : MemMgr) (os : ℕ → ℕ → ℕ → Option ℕ) (fuel base limit len : ℕ)
    (reserved : Ranges) : Option (Option (ℕ × ℕ) × Ranges) :=
  loop (fun s => some (tryStart m os limit len s)) fuel (base, reserved)

/-- One turn of the outer loop, which looks for `len` bytes. -/
def tryLength (m : MemMgr) (os : ℕ → ℕ → ℕ → Option ℕ) (fuel base limit : ℕ) :
    ℕ × Ranges → Option ((ℕ × Ranges) ⊕ (Option (ℕ × ℕ) × Ranges))
  | (len, reserved) =>
    if svmMinVmSize ≤ len then
      match tryStarts m os fuel base limit len reserved with
      | none => none
      | some (none, reserved) => some (.inl (half len, reserved))
      | some (some (ret_addr, map_size), reserved) =>
        if limit < sub64 (u64 (ret_addr + svmMinVmSize)) 1 then
          some (.inl (half len, Ranges.munmap reserved ret_addr map_size))
        else some (.inr (some (ret_addr, map_size), reserved))
    else some (.inr (none, reserved))

/-- The search for a range: where it is and how long, `none` unless `found`. -/
def reserveRange (m : MemMgr) (os : ℕ → ℕ → ℕ → Option ℕ) (fuel base limit : ℕ) :
    Option (Option (ℕ × ℕ) × Ranges) :=
  loop (tryLength m os fuel base limit) fuel (u64 (sub64 limit base + 1), [])

/-- `init_svm_apertures`, from the trimming of the range on. -/
def splitRange (ndebug : Bool) (m : MemMgr) (base map_size limit align guard_pages : ℕ)
    (reserved : Ranges) : Option (Status × MemMgr) := do
  let last := sub64 (u64 (base + map_size)) 1
  let reserved :=
    if limit < last then Ranges.munmap reserved (u64 (limit + 1)) (sub64 last limit) else reserved
  let limit := if limit < last then limit else last
  let alt_base := u64 (base + 0xffff) / 2 ^ 16 * 2 ^ 16
  let alt_size := u64 (u64 (sub64 limit base + 1) / 4 + 0xffff) / 2 ^ 16 * 2 ^ 16
  let alt_limit := sub64 (u64 (alt_base + alt_size)) 1
  let d ← init_allocator ndebug { m.default with
    base_ := u64 (alt_limit + 1), limit_ := limit, align_ := align, guard_pages_ := guard_pages,
    is_cpu_accessible_ := true }
  let c ← init_allocator ndebug { m.coherent with
    base_ := alt_base, limit_ := alt_limit, align_ := align, guard_pages_ := guard_pages,
    is_cpu_accessible_ := true }
  return (.success, { m with
    default := d, coherent := c, reserved,
    dgpu_shared_aperture_base_ := base, dgpu_shared_aperture_limit_ := limit,
    dgpu_aperture := some .default, dgpu_alt_aperture := some .coherent })

/-- `base`, aligned to huge pages. -/
def alignBase (huge base : ℕ) : ℕ := u64 (base + huge - 1) / huge * huge

/-- `limit`, aligned to huge pages. -/
def alignLimit (huge limit : ℕ) : ℕ := sub64 (u64 (limit + 1) / huge * huge) 1

/-- `init_svm_apertures`, once it is known that a range has to be reserved. -/
def initReserved (ndebug : Bool) (fuel : ℕ) (os : ℕ → ℕ → ℕ → Option ℕ) (m : MemMgr)
    (base limit align guard_pages : ℕ) : Option (Status × MemMgr) := do
  let limit := min limit svmReservationLimit
  if limit ≤ base then return (.error, m)
  match ← reserveRange m os fuel base limit with
  | (none, reserved) => return (.error, { m with reserved })
  | (some (ret_addr, map_size), reserved) =>
    splitRange ndebug m ret_addr map_size limit align guard_pages reserved

/-- `init_svm_apertures`. -/
def init_svm_apertures (ndebug : Bool) (fuel : ℕ) (os : ℕ → ℕ → ℕ → Option ℕ)
    (osPage : Option ℕ) (m : MemMgr) (base limit align guard_pages : ℕ) :
    Option (Status × MemMgr) := do
  if m.dgpu_shared_aperture_limit_ ≠ 0 then return (.success, m)
  let base := alignBase m.GPU_HUGE_PAGE_SIZE base
  let limit := alignLimit m.GPU_HUGE_PAGE_SIZE limit
  if 2 ^ 47 - 1 ≤ limit ∧ !m.reserve_svm then
    let (status, m) ← init_mmap_apertures ndebug osPage m base limit align guard_pages
    if status = .success then return (.success, m)
    initReserved ndebug fuel os m base limit align guard_pages
  else
    initReserved ndebug fuel os m base limit align guard_pages

end Codrive.Aperture.Reserve
