/-
# The tracker of accelerator memory

`AmMemoryRange`, `AmPointerTracker`, `am_aligned_alloc`, `am_free` and the `am_memtracker_…` calls
of `src/src/driver/csq_pointer.cpp`.

| here | source |
|---|---|
| a number | a pointer, or a handle |
| `allocate` | the answers of `hsa_amd_memory_pool_allocate`, by size, apart from the size 0 |
| `granted` | whether every agent is given access in `am_map_to_peers` |
| `Memory.blocks` | the blocks of the pools that were not freed, with their sizes |
| `Memory.strays` | what `hsa_amd_memory_pool_free` was called with that is no block |
| `State.removed`, `named` | nothing in the code: see `Step` |

An accelerator is the device its `pDev` points to; the one a record points to is alive.  A range
does not reach behind the end of the address space.

The tracker is a map from ranges to records, under an order that takes ranges with a byte in common
for the same key; a pointer is the range of one byte.
-/

import Codrive.Basis.ComparatorMap
import Codrive.Basis.Machine
import Codrive.Basis.Run
import Codrive.Basis.Tiling

namespace Codrive.Csq.Pointers

open Codrive.Basis

/-- `amHostPinned`. -/
def amHostPinned : ℕ := 0x1

/-- `amHostCoherent`. -/
def amHostCoherent : ℕ := 0x2

/-! ### Ranges -/

/-- `AmMemoryRange`, of at least one byte. -/
structure AmMemoryRange where
  _basePointer : ℕ
  _endPointer : ℕ
  le : _basePointer ≤ _endPointer
  deriving DecidableEq

/-- `AmMemoryRange::AmMemoryRange`. -/
def AmMemoryRange.ofPointer (basePointer sizeBytes : ℕ) (h : 0 < sizeBytes) : AmMemoryRange where
  _basePointer := basePointer
  _endPointer := basePointer + sizeBytes - 1
  le := by omega

/-- The range of a pointer. -/
def AmMemoryRange.point (pointer : ℕ) : AmMemoryRange := .ofPointer pointer 1 Nat.one_pos

/-- The pointer is in the range. -/
def AmMemoryRange.Has (r : AmMemoryRange) (p : ℕ) : Prop := r._basePointer ≤ p ∧ p ≤ r._endPointer

/-- `AmMemoryRangeCompare`. -/
def AmMemoryRangeCompare (lhs rhs : AmMemoryRange) : Prop := lhs._endPointer < rhs._basePointer

instance : DecidableRel AmMemoryRangeCompare := fun lhs rhs =>
  inferInstanceAs (Decidable (lhs._endPointer < rhs._basePointer))

instance : IsStrictOrder AmMemoryRange AmMemoryRangeCompare where
  irrefl a h := Nat.not_le.2 h a.le
  trans _ b _ h h' := (h.trans_le b.le).trans h'

/-! ### The tracker -/

/-- `AmPointerInfo`. -/
structure AmPointerInfo where
  _hostPointer : ℕ
  _devicePointer : ℕ
  _unalignedDevicePointer : ℕ
  _sizeBytes : ℕ
  _acc : ℕ
  _isInDeviceMem : Bool
  _isAmManaged : Bool
  _allocSeqNum : ℕ := 0
  _appId : ℤ := -1
  _appAllocationFlags : ℕ := 0
  _appPtr : ℕ := 0
  deriving DecidableEq

/-- `AmPointerTracker`. -/
structure AmPointerTracker where
  _tracker : List (AmMemoryRange × AmPointerInfo) := []
  _allocSeqNum : ℕ := 0

namespace AmPointerTracker

variable (t : AmPointerTracker)

/-- `insert`. -/
def insert (pointer : ℕ) (p : AmPointerInfo) (h : 0 < p._sizeBytes) : AmPointerTracker where
  _tracker := ComparatorMap.insert AmMemoryRangeCompare (.ofPointer pointer p._sizeBytes h)
    { p with _allocSeqNum := u64 (t._allocSeqNum + 1) } t._tracker
  _allocSeqNum := u64 (t._allocSeqNum + 1)

/-- `find`. -/
def find (pointer : ℕ) : Option (AmMemoryRange × AmPointerInfo) :=
  ComparatorMap.find? AmMemoryRangeCompare (.point pointer) t._tracker

/-- `remove`, and what it returns. -/
def remove (pointer : ℕ) : AmPointerTracker × ℕ :=
  ({ t with _tracker := ComparatorMap.erase AmMemoryRangeCompare (.point pointer) t._tracker },
    if (t.find pointer).isSome then 1 else 0)

end AmPointerTracker

/-! ### Memory -/

/-- The memory of the pools. -/
structure Memory where
  blocks : List (ℕ × ℕ) := []
  strays : List ℕ := []

/-- `hsa_amd_memory_pool_allocate`. -/
def hsa_amd_memory_pool_allocate (allocate : ℕ → Option ℕ) (size : ℕ) : Option ℕ :=
  if size = 0 then none else allocate size

/-- `hsa_amd_memory_pool_free`. -/
def Memory.free (m : Memory) (ptr : ℕ) : Memory :=
  if ptr = 0 then m
  else if ptr ∈ m.blocks.map Prod.fst then { m with blocks := m.blocks.filter (·.1 ≠ ptr) }
  else { m with strays := ptr :: m.strays }

/-- The tracker and the memory. -/
structure Am where
  g_amPointerTracker : AmPointerTracker := {}
  memory : Memory := {}

/-- `accelerator`, with the handles of its pools. -/
structure Accelerator where
  pDev : ℕ
  get_hsa_am_system_region : Option ℕ
  get_hsa_am_finegrained_system_region : Option ℕ
  get_hsa_am_region : Option ℕ

/-- `am_status_t`. -/
inductive AmStatus where
  | AM_SUCCESS
  | AM_ERROR_MISC
  deriving DecidableEq

open AmStatus

/-! ### The calls -/

/-- `am_map_to_peers` with the accelerators there are, so many. -/
def am_map_to_peers (t : AmPointerTracker) (ptr num_peer : ℕ) (granted : Bool) : AmStatus :=
  if ptr = 0 ∨ num_peer = 0 then AM_ERROR_MISC
  else
    match t.find ptr with
    | none => AM_ERROR_MISC
    | some (_, info) =>
      if ¬info._isInDeviceMem ∧ ¬info._isAmManaged then AM_ERROR_MISC
      else if granted then AM_SUCCESS
      else AM_ERROR_MISC

/-- What is asked of the pool, and how it is answered. -/
structure Request where
  sizeBytes : ℕ
  acc : Accelerator
  flags : ℕ
  alignment : ℕ
  allocate : ℕ → Option ℕ
  peers : ℕ
  granted : Bool

namespace Request

variable (r : Request)

/-- `alloc_region`. -/
def alloc_region : Option ℕ :=
  if r.flags &&& amHostPinned ≠ 0 then r.acc.get_hsa_am_system_region
  else if r.flags &&& amHostCoherent ≠ 0 then r.acc.get_hsa_am_finegrained_system_region
  else r.acc.get_hsa_am_region

/-- The size of the block. -/
def blockBytes : ℕ := if r.alignment ≠ 0 then u64 (r.sizeBytes + r.alignment) else r.sizeBytes

/-- Host memory is asked for. -/
def host : Bool := r.flags &&& (amHostPinned ||| amHostCoherent) ≠ 0

/-- `unalignedPtr`, if the pool is asked for a block and gives one. -/
def unalignedPtr : Option ℕ :=
  if r.sizeBytes ≠ 0 then
    match r.alloc_region with
    | none => none
    | some handle =>
      if wrap 32 handle ≠ 2 ^ 32 - 1 then hsa_amd_memory_pool_allocate r.allocate r.blockBytes
      else none
  else none

/-- `ptr`. -/
def ptr (unalignedPtr : ℕ) : ℕ :=
  if r.alignment ≠ 0 then
    u64 (unalignedPtr + r.alignment + 2 ^ 64 - 1) &&& (2 ^ 64 - 1 - sub64 r.alignment 1)
  else unalignedPtr

/-- `ampi`. -/
def ampi (unalignedPtr : ℕ) : AmPointerInfo where
  _hostPointer := if r.host then r.ptr unalignedPtr else 0
  _devicePointer := r.ptr unalignedPtr
  _unalignedDevicePointer := unalignedPtr
  _sizeBytes := r.blockBytes
  _acc := r.acc.pDev
  _isInDeviceMem := !r.host
  _isAmManaged := true

theorem blockBytes_pos {r : Request} {unalignedPtr : ℕ} (h : r.unalignedPtr = some unalignedPtr) :
    0 < (r.ampi unalignedPtr)._sizeBytes := by
  refine Nat.pos_of_ne_zero fun hzero => ?_
  unfold Request.unalignedPtr hsa_amd_memory_pool_allocate at h
  rw [if_pos (show r.blockBytes = 0 from hzero)] at h
  split_ifs at h
  split at h
  · exact nomatch h
  · exact nomatch (ite_self (c := _) (none : Option ℕ)).symm.trans h

end Request

/-- The block is tracked. -/
def Am.track (m : Am) (r : Request) (unalignedPtr : ℕ) (h : r.unalignedPtr = some unalignedPtr) :
    Am where
  g_amPointerTracker :=
    m.g_amPointerTracker.insert unalignedPtr (r.ampi unalignedPtr) (Request.blockBytes_pos h)
  memory := { m.memory with blocks := (unalignedPtr, r.blockBytes) :: m.memory.blocks }

/-- `am_aligned_alloc`. -/
def am_aligned_alloc (m : Am) (r : Request) : ℕ × Am :=
  match h : r.unalignedPtr with
  | none => (0, m)
  | some unalignedPtr =>
    let ptr := r.ptr unalignedPtr
    let m := m.track r unalignedPtr h
    if r.host then
      if am_map_to_peers m.g_amPointerTracker ptr r.peers r.granted ≠ AM_SUCCESS then
        (0, { m with memory := m.memory.free ptr })
      else (ptr, m)
    else (ptr, m)

/-- `am_free`. -/
def am_free (m : Am) (ptr : ℕ) : AmStatus × Am :=
  if ptr ≠ 0 then
    let memory :=
      match m.g_amPointerTracker.find ptr with
      | some info => m.memory.free info.2._unalignedDevicePointer
      | none => m.memory
    let (tracker, numRemoved) := m.g_amPointerTracker.remove ptr
    (if numRemoved = 0 then AM_ERROR_MISC else AM_SUCCESS, ⟨tracker, memory⟩)
  else (AM_SUCCESS, m)

/-- `am_memtracker_getinfo`. -/
def am_memtracker_getinfo (m : Am) (ptr : ℕ) : AmStatus × Option AmPointerInfo :=
  match m.g_amPointerTracker.find ptr with
  | some info => (AM_SUCCESS, some info.2)
  | none => (AM_ERROR_MISC, none)

/-- `am_memtracker_add`. -/
def am_memtracker_add (m : Am) (ptr : ℕ) (info : AmPointerInfo) : AmStatus × Am :=
  if h : ptr = 0 ∨ info._sizeBytes = 0 then (AM_ERROR_MISC, m)
  else (AM_SUCCESS,
    { m with g_amPointerTracker := m.g_amPointerTracker.insert ptr info (by omega) })

/-- The fields that `am_memtracker_update` sets. -/
def AmPointerInfo.update (info : AmPointerInfo) (appId : ℤ) (allocationFlags appPtr : ℕ) :
    AmPointerInfo :=
  { info with _appId := appId, _appAllocationFlags := allocationFlags, _appPtr := appPtr }

/-- `am_memtracker_update`: the record that is found is changed where it is. -/
def am_memtracker_update (m : Am) (ptr : ℕ) (appId : ℤ) (allocationFlags appPtr : ℕ) :
    AmStatus × Am :=
  match m.g_amPointerTracker.find ptr with
  | none => (AM_ERROR_MISC, m)
  | some e => (AM_SUCCESS, { m with g_amPointerTracker :=
      { m.g_amPointerTracker with _tracker := m.g_amPointerTracker._tracker.map fun e' =>
          if e'.1 = e.1 then (e'.1, e'.2.update appId allocationFlags appPtr) else e' } })

/-- `am_memtracker_remove`. -/
def am_memtracker_remove (m : Am) (ptr : ℕ) : AmStatus × Am :=
  let (tracker, numRemoved) := m.g_amPointerTracker.remove ptr
  (if numRemoved = 0 then AM_ERROR_MISC else AM_SUCCESS, { m with g_amPointerTracker := tracker })

/-- `am_memtracker_sizeinfo`: device, host and user memory. -/
def am_memtracker_sizeinfo (m : Am) (acc : ℕ) : ℕ × ℕ × ℕ :=
  m.g_amPointerTracker._tracker.foldl (fun s e =>
    if e.2._acc = acc then
      if e.2._isAmManaged then
        if e.2._isInDeviceMem then (u64 (s.1 + e.2._sizeBytes), s.2.1, s.2.2)
        else (s.1, u64 (s.2.1 + e.2._sizeBytes), s.2.2)
      else (s.1, s.2.1, u64 (s.2.2 + e.2._sizeBytes))
    else s) (0, 0, 0)

/-- The loop of `AmPointerTracker::reset`: the entries that remain, the memory, and the count. -/
def resetLoop (acc : ℕ) : List (AmMemoryRange × AmPointerInfo) → Memory →
    List (AmMemoryRange × AmPointerInfo) × Memory × ℕ
  | [], memory => ([], memory, 0)
  | e :: l, memory =>
    if e.2._acc = acc then
      let memory := if e.2._isAmManaged then memory.free e.2._unalignedDevicePointer else memory
      let (l, memory, count) := resetLoop acc l memory
      (l, memory, count + 1)
    else
      let (l, memory, count) := resetLoop acc l memory
      (e :: l, memory, count)

/-- `am_memtracker_reset`. -/
def am_memtracker_reset (m : Am) (acc : ℕ) : ℕ × Am :=
  let (l, memory, count) := resetLoop acc m.g_amPointerTracker._tracker m.memory
  (count, ⟨{ m.g_amPointerTracker with _tracker := l }, memory⟩)

end Codrive.Csq.Pointers
