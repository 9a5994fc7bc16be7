/-
# The memory region of a node

`MemoryRegion::Allocate` and `MemoryRegion::Free` of `src/src/drive/MemoryRegion.cpp`.  A region
rounds sizes to pages, and sizes of what it does not take from its fragment allocator to blocks of
that allocator (`MemoryRegion.size_le`).  Freed with the size that `Allocate` wrote, an allocation
gives the driver back exactly what the driver had given (`MemoryRegion.free_allocate`).

| here | source |
|---|---|
| `max_alloc` | `max_sysmem_alloc_size_` for system memory, otherwise `max_single_alloc_size_` |
| `subAlloc` | `fragment_allocator_.alloc`; `none` where it throws |
| `kfd`, `kfdAgain` | what `AllocateKfdMemory` returns, at first and after `trim` |
| `resident` | what `MakeKfdMemoryResident` returns |
| `gpu_ids` | how many GPUs there are |
-/

import Codrive.Runtime.MemorySpec

namespace Codrive.Runtime

open Codrive.Basis

/-- `HSA_HEAPTYPE`. -/
inductive HeapType
  | system
  | frameBufferPublic
  | frameBufferPrivate
  | gpuGds
  | gpuLds
  | gpuScratch
  | deviceSvm
  | mmioRemap
  deriving DecidableEq

/-- `kPageSize_`. -/
def kPageSize : ℕ := 4096

/-- `BlockAllocator::block_size_`. -/
def blockSize : ℕ := 2 * 1024 * 1024

/-- `alignUp`. -/
def alignUp (value alignment : ℕ) : ℕ := u64 (value + (alignment - 1)) / alignment * alignment

/-- `AllocateRestrict`. -/
def allocateRestrict : ℕ := 1

/-- `MemoryRegion`. -/
structure MemoryRegion where
  heap : HeapType
  full_profile : Bool
  max_alloc : ℕ
  /-- No memory reaches the end of the address space. -/
  max_alloc_lt : max_alloc + 2 * blockSize ≤ 2 ^ 64

/-- What the region asks of others. -/
structure Platform where
  disable_fragment_alloc : Bool
  gpu_ids : ℕ
  subAlloc : Option ℕ
  kfd : Option ℕ
  kfdAgain : Option ℕ
  resident : Bool

namespace MemoryRegion

variable (r : MemoryRegion) (p : Platform)

/-- `IsLocalMemory`. -/
def isLocalMemory : Bool := r.heap = .frameBufferPublic || r.heap = .frameBufferPrivate

/-- The fragment allocator is used: not for executable memory, queues and shared memory. -/
def useSubAlloc (size alloc_flags : ℕ) : Bool :=
  !p.disable_fragment_alloc && (alloc_flags = 0 || alloc_flags = allocateRestrict) &&
    size ≤ blockSize

/-- `Allocate`, from `AllocateKfdMemory` on. -/
def allocateKfd (size alloc_flags : ℕ) : Answer × Option (ℕ × ℕ) :=
  match p.kfd.or p.kfdAgain with
  | none => (⟨.outOfResources, 0, size⟩, none)
  | some address =>
    if r.heap = .system ∧ (alloc_flags % 2 = allocateRestrict ∨ p.gpu_ids = 0) then
      (⟨.success, address, size⟩, some (address, size))
    else if (!r.full_profile || r.isLocalMemory || r.heap = .gpuScratch) && !p.resident then
      -- `FreeKfdMemory`.
      (⟨.outOfResources, 0, size⟩, none)
    else (⟨.success, address, size⟩, some (address, size))

/-- `Allocate`: the answer, and the memory that the driver has given for it. -/
def allocate (size alloc_flags : ℕ) : Answer × Option (ℕ × ℕ) :=
  if r.heap ≠ .system ∧ r.isLocalMemory = false then (⟨.invalidAllocation, 0, size⟩, none)
  else if r.max_alloc < size then (⟨.invalidAllocation, 0, size⟩, none)
  else
    let size := alignUp size kPageSize
    if r.isLocalMemory then
      if useSubAlloc p size alloc_flags then
        match p.subAlloc with
        | none => (⟨.error, 0, size⟩, none)
        | some address => (⟨.success, address, size⟩, none)
      else
        let size := if p.disable_fragment_alloc then size else alignUp size blockSize
        r.allocateKfd p size alloc_flags
    else r.allocateKfd p size alloc_flags

/-- `Free`: the memory that the driver gets back; `fragment` is what `fragment_allocator_.free`
returns. -/
def free (fragment : Bool) (address size : ℕ) : Option (ℕ × ℕ) :=
  if fragment then none else some (address, size)

variable {r p} {size alloc_flags : ℕ}

/-- Rounding up rounds up, if the result is a word. -/
theorem le_alignUp {value alignment : ℕ} (hpos : 0 < alignment)
    (hlt : value + (alignment - 1) < 2 ^ 64) :
    value ≤ alignUp value alignment ∧ alignUp value alignment ≤ value + (alignment - 1) := by
  unfold alignUp
  rw [u64_of_lt hlt]
  have hdiv := Nat.div_add_mod (value + (alignment - 1)) alignment
  have hmod := Nat.mod_lt (value + (alignment - 1)) hpos
  rw [Nat.mul_comm] at hdiv
  omega

/-- What the driver has given is what the answer says. -/
theorem allocateKfd_spec (h : (r.allocateKfd p size alloc_flags).1.status = .success) :
    (r.allocateKfd p size alloc_flags).1.size = size ∧
      (r.allocateKfd p size alloc_flags).2 =
        some ((r.allocateKfd p size alloc_flags).1.address, size) := by
  unfold allocateKfd at h ⊢
  cases hkfd : p.kfd.or p.kfdAgain with
  | none =>
    rw [hkfd] at h
    exact nomatch h
  | some address =>
    rw [hkfd] at h
    dsimp only at h ⊢
    split_ifs at h ⊢ <;> exact ⟨rfl, rfl⟩

/-- **A region rounds up**, and has memory of the driver of just this size, or a fragment. -/
theorem allocate_spec (h : (r.allocate p size alloc_flags).1.status = .success) :
    size ≤ (r.allocate p size alloc_flags).1.size ∧
      ((r.allocate p size alloc_flags).2 = none ∨
        (r.allocate p size alloc_flags).2 = some ((r.allocate p size alloc_flags).1.address,
          (r.allocate p size alloc_flags).1.size)) := by
  unfold allocate at h ⊢
  by_cases hheap : r.heap ≠ .system ∧ r.isLocalMemory = false
  · rw [if_pos hheap] at h
    exact nomatch h
  by_cases hmax : r.max_alloc < size
  · rw [if_neg hheap, if_pos hmax] at h
    exact nomatch h
  rw [if_neg hheap, if_neg hmax] at h ⊢
  dsimp only at h ⊢
  have hbound := r.max_alloc_lt
  have hblock : blockSize = 2097152 := rfl
  obtain ⟨hle, hle'⟩ := @le_alignUp size kPageSize (by decide) (by unfold kPageSize; omega)
  have hpage : alignUp size kPageSize < size + 4096 := Nat.lt_succ_of_le hle'
  -- What the driver is asked for.
  have hkfd : ∀ n, size ≤ n → (r.allocateKfd p n alloc_flags).1.status = .success →
      size ≤ (r.allocateKfd p n alloc_flags).1.size ∧
        ((r.allocateKfd p n alloc_flags).2 = none ∨
          (r.allocateKfd p n alloc_flags).2 = some ((r.allocateKfd p n alloc_flags).1.address,
            (r.allocateKfd p n alloc_flags).1.size)) := by
    intro n hn hok
    obtain ⟨hsize, hgiven⟩ := allocateKfd_spec hok
    rw [hsize]
    exact ⟨hn, .inr hgiven⟩
  by_cases hlocal : r.isLocalMemory = true
  · rw [if_pos hlocal] at h ⊢
    by_cases hsub : useSubAlloc p (alignUp size kPageSize) alloc_flags = true
    · rw [if_pos hsub] at h ⊢
      cases hsubAlloc : p.subAlloc with
      | none =>
        rw [hsubAlloc] at h
        exact nomatch h
      | some address => exact ⟨hle, .inl rfl⟩
    · rw [if_neg hsub] at h ⊢
      refine hkfd _ ?_ h
      split_ifs
      · exact hle
      · exact hle.trans (le_alignUp (by decide) (by omega)).1
  · rw [if_neg hlocal] at h ⊢
    exact hkfd _ hle h

/-- **What is freed with the size that `Allocate` wrote**, the driver has given. -/
theorem free_allocate (h : (r.allocate p size alloc_flags).1.status = .success) :
    (r.allocate p size alloc_flags).2 =
      free (r.allocate p size alloc_flags).2.isNone (r.allocate p size alloc_flags).1.address
        (r.allocate p size alloc_flags).1.size := by
  obtain ⟨-, hnone | hsome⟩ := allocate_spec h
  · rw [hnone]
    rfl
  · rw [hsome]
    rfl

/-- A size of one byte more than a block takes two blocks. -/
example :
    (allocate ⟨.frameBufferPublic, false, 2 ^ 40, by decide⟩
      ⟨false, 1, none, some 4096, none, true⟩ (blockSize + 1) 0).2 =
        free false 4096 (2 * blockSize) :=
  free_allocate (by decide)

/-- What the regions answer.  That memory handed out is nobody's is what the driver and the fragment
allocator are for. -/
def answers (regions : ℕ → MemoryRegion) : Regions := fun held region size flags answer =>
  (∃ p, ((regions region).allocate p size flags).1 = answer) ∧
    (answer.status = .success → answer.address ≠ 0 ∧ answer.address + answer.size < 2 ^ 64 ∧
      ∀ b ∈ held, answer.address ≠ b.address ∧
        (answer.address + answer.size ≤ b.address ∨ b.address + b.size ≤ answer.address))

theorem answers_rounds (regions : ℕ → MemoryRegion) : (answers regions).Rounds where
  size_le h := by
    obtain ⟨⟨p, hp⟩, -⟩ := h
    have hsize := (allocate_spec (r := regions _) (p := p) (congrArg Answer.status hp)).1
    rw [hp] at hsize
    exact hsize
  ne_null h := (h.2 rfl).1
  lt h := (h.2 rfl).2.1
  apart h := (h.2 rfl).2.2

end MemoryRegion

end Codrive.Runtime
