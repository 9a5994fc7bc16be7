/-
# Sharing memory between processes

`mm_share_memory`, `mm_register_shared_memory`, `mm_find_aperture` and `mm_get_aperture` of
`src/src/device/MemMgr.cpp`.  One process exports an object, and another one reserves an area,
imports the buffer of the object and registers an object of its own.

| here | source |
|---|---|
| a number as an aperture | a pointer to a `Vma` |
| `props_` | the GPU of each node, as `validate_nodeid` reads it |
| `ShareHandle` | the four words of the handle, as one number |
| `ipc` | the buffer that the driver finds for a shared handle |
| `none` as a result | a null aperture, or a position behind the end of `gpu_mem_`, is followed |

The handle is zero as long as nothing was imported.
-/

import Codrive.Aperture.Objects

namespace Codrive.Aperture

open Codrive.Basis Codrive.Device

/-- `HSA_APERTURE`. -/
inductive HsaAperture
  | unsupported
  | dgpu
  | dgpuAlt
  | gpuvm
  | cpuvm
  deriving DecidableEq

/-- `HsaApertureInfo`. -/
structure HsaApertureInfo where
  type : HsaAperture := .unsupported
  idx : ℕ := 0
  deriving DecidableEq

/-- `HsaSharedMemoryStruct`. -/
structure HsaSharedMemoryStruct where
  ShareHandle : ℕ
  ApeInfo : HsaApertureInfo
  SizeInPages : ℕ
  ExportGpuId : ℕ

/-- `GpuMemory`. -/
structure GpuMemory where
  gpu_id : ℕ
  node_id : ℕ
  gpuvm_aperture : ℕ
  scratch_physical : ℕ

/-- `MemMgr`, and the handles that the driver has for the process. -/
structure MemMgr where
  is_dgpu : Bool
  PAGE_SHIFT : ℕ
  dgpu_aperture : ℕ
  dgpu_alt_aperture : ℕ
  cpuvm_aperture : ℕ
  gpu_mem_ : List GpuMemory := []
  /-- The `gpu_id` of `first_gpu_mem_`. -/
  first_gpu_mem_ : Option ℕ := none
  props_ : List ℕ := []
  vmas : ℕ → Vma
  handles : ℕ → Option ℕ := fun _ => none

/-- `device_status_t`, as far as it is returned here. -/
inductive DeviceStatus
  | success
  | error
  | invalidParameter
  | noMemory
  deriving DecidableEq

/-- `NON_VALID_GPU_ID`. -/
def nonValidGpuId : ℕ := 0

/-- What `cmd_ipc_import_handle` gives. -/
structure ImportAnswer where
  handle : ℕ
  mmap_offset : ℕ

namespace MemMgr

/-- An aperture, with the handles of the process. -/
def space (mm : MemMgr) (aperture : ℕ) : Space := ⟨mm.vmas aperture, mm.handles⟩

/-- The address is in the aperture. -/
def within (mm : MemMgr) (address aperture : ℕ) : Bool :=
  (mm.vmas aperture).base_ ≤ address && address ≤ (mm.vmas aperture).limit_

/-- `mm_is_scratch_aperture`. -/
def mmIsScratchAperture (mm : MemMgr) (address : ℕ) : Option ℕ :=
  (mm.gpu_mem_.find? fun gpu =>
    gpu.gpu_id ≠ nonValidGpuId && mm.within address gpu.scratch_physical).map
    GpuMemory.scratch_physical

/-- The loop over the `gpuvm_aperture`s, which goes on after it has found one. -/
def findGpuvm (mm : MemMgr) (address : ℕ) : Option (ℕ × ℕ) :=
  (mm.gpu_mem_.zipIdx.filter fun gpu => mm.within address gpu.1.gpuvm_aperture).getLast?.map
    fun gpu => (gpu.1.gpuvm_aperture, gpu.2)

/-- `mm_find_aperture`. -/
def mmFindAperture (mm : MemMgr) (address : ℕ) : ℕ × HsaApertureInfo :=
  if mm.is_dgpu then
    if mm.within address mm.dgpu_aperture then
      match mm.mmIsScratchAperture address with
      | some aperture => (aperture, {})
      | none => (mm.dgpu_aperture, { type := .dgpu })
    else if mm.within address mm.dgpu_alt_aperture then
      (mm.dgpu_alt_aperture, { type := .dgpuAlt })
    -- Not in SVM, it can be system memory registered by userptr.
    else (mm.dgpu_aperture, { type := .dgpu })
  else if mm.within address mm.dgpu_aperture then (mm.dgpu_aperture, { type := .dgpu })
  else
    match mm.findGpuvm address with
    | some (aperture, idx) => (aperture, { type := .gpuvm, idx })
    | none => (mm.cpuvm_aperture, { type := .cpuvm })

/-- `mm_share_memory`; `driver` is the handle that `cmd_ipc_export_handle` gives. -/
def mmShareMemory (mm : MemMgr) (address size : ℕ) (driver : Option ℕ) :
    DeviceStatus × Option HsaSharedMemoryStruct :=
  if 2 ^ (32 + mm.PAGE_SHIFT) ≤ size then (.invalidParameter, none)
  else
    let (aperture, info) := mm.mmFindAperture address
    match (mm.vmas aperture).mem_objs.find address false with
    | none => (.invalidParameter, none)
    | some obj =>
      match mm.props_[((mm.vmas aperture).fields obj).node_id]? with
      | none => (.error, none)
      | some gpu_id =>
        -- Sharing non paged system memory goes through the first GPU.
        match if gpu_id = 0 ∧ mm.is_dgpu then mm.first_gpu_mem_ else some gpu_id with
        | none => (.error, none)
        | some gpu_id =>
          match driver with
          | none => (.error, none)
          | some share_handle =>
            (.success, some
              { ShareHandle := share_handle
                ApeInfo := info
                SizeInPages := (size >>> mm.PAGE_SHIFT) % 2 ^ 32
                ExportGpuId := gpu_id })

/-- What `mm_register_shared_memory` hands over. -/
structure Imported where
  obj : MemObj
  address : ℕ
  size : ℕ

/-- The environment of a registration: where `mmap` puts the area, what the driver imports, whether
the CPU mapping succeeds, and what `cmd_free_memory` answers. -/
structure Env where
  os : Option ℕ
  driver : Option ImportAnswer
  mapped : Bool
  free : Option ℕ

/-- The node of the GPU, and whether the CPU mapping that is wanted was made. -/
def importNode (mm : MemMgr) (gpu_id mmap_offset : ℕ) (mapped : Bool) : Option (Option ℕ) :=
  if mmap_offset ≠ 0 then
    match mm.gpu_mem_.find? fun gpu => gpu.gpu_id = gpu_id with
    | none => none
    | some gpu => if mapped then some (some gpu.node_id) else none
  else some none

end MemMgr

end Codrive.Aperture
