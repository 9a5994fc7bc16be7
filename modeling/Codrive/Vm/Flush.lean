/-
# Translations of freed mappings

`amdgpu_vm_flush` and the function after `amdgpu_vm_bo_lookup_mapping` that its calls name
`opu_vm_clear_freed_mapping` (`src/src/cmdio/linux/opu_vm_mgr.c`): the TLBs of an engine are
invalidated before a job runs on it, for the mappings freed since.

| here | source |
|---|---|
| `FreedBoVa` | a record of `vm->freed`, with its mapping; `last` is the mapping's field `end` |
| `FlushVm` | `job->vm`; `ids` is `id_mgr->ids`, by their masks |
| `Event` | what is emitted to a ring, and that a record leaves the list |
| `FlushVm.log` | the events so far; `FreedBoVa.freed_at` is how many there were when it was freed |

Engines are numbers below `OPU_ENGINE_NUM`, here `engine_num`.  `opu_vm_add_freed_mapping` has no
body in the repository; it appends the mapping, invalidated by no engine, and counts it.
`emit_invalidate_tlb`, which is not there either, invalidates the bytes of a range, or everything
where both ends are zero.  `inv_tlb_eng_mask != (1u << engine);` is a comparison.  The addresses of
page tables and semaphores are left out.
-/

import Codrive.Basis.Run
import Codrive.Basis.Machine
import Mathlib.Logic.Function.Basic
import Mathlib.Data.Nat.Bitwise

namespace Codrive.Vm

open Codrive.Basis

/-- A freed mapping. -/
structure FreedBoVa where
  start : ℕ
  last : ℕ
  offset : ℕ
  /-- Pages have addresses of 64 bits. -/
  last_lt : last < 2 ^ 52
  inv_tlb_eng_mask : ℕ
  freed_at : ℕ
  deriving DecidableEq

/-- `inv_tlb_eng_mask & (1u << engine)`. -/
def FreedBoVa.marked (bo_va : FreedBoVa) (engine : ℕ) : Bool :=
  bo_va.inv_tlb_eng_mask.testBit engine

/-- `inv_tlb_eng_mask |= 1u << engine`. -/
def FreedBoVa.mark (bo_va : FreedBoVa) (engine : ℕ) : FreedBoVa :=
  { bo_va with inv_tlb_eng_mask := bo_va.inv_tlb_eng_mask ||| 1 <<< engine }

/-- `base_addr`. -/
def FreedBoVa.base_addr (bo_va : FreedBoVa) : ℕ := u64 (u64 (bo_va.last + bo_va.offset) <<< 12)

/-- `size_in_bytes`. -/
def FreedBoVa.size_in_bytes (bo_va : FreedBoVa) : ℕ :=
  u64 (u64 (sub64 (sub64 bo_va.last bo_va.start) bo_va.offset + 1) <<< 12)

/-- What is emitted, and what leaves the list. -/
inductive Event where
  | setVmidPtBase (vmid : ℕ)
  | waitFence64 (engine idx seqno : ℕ)
  | invalidateTlb (engine vmid start_addr end_addr : ℕ)
  | fence (engine vmid seqno : ℕ)
  | pipelineSync
  | left (bo_va : FreedBoVa)
  deriving DecidableEq

/-- `struct opu_vm_inv_tlb_sync_info`. -/
structure SyncInfo where
  seqno : ℕ := 0
  last_wait_seqno : ℕ → ℕ := fun _ => 0
  freed_count : ℤ := 0

/-- What a flush reads and writes. -/
structure FlushVm where
  freed : List FreedBoVa := []
  freed_count : ℤ := 0
  inv_tlb_sync_info : ℕ → SyncInfo := fun _ => {}
  full_eng_mask : ℕ
  ids : ℕ → ℕ
  log : List Event := []

/-- `struct amdgpu_ring_mgr`. -/
structure Ring where
  engine_type : ℕ
  idx : ℕ
  deriving DecidableEq

namespace FlushVm

variable (s : FlushVm)

/-- `opu_vm_add_freed_mapping`. -/
def opuVmAddFreedMapping (start last offset : ℕ) (h : last < 2 ^ 52) : FlushVm :=
  { s with
    freed := s.freed ++ [⟨start, last, offset, h, 0, s.log.length⟩]
    freed_count := s.freed_count + 1
    inv_tlb_sync_info := fun engine =>
      { s.inv_tlb_sync_info engine with
        freed_count := (s.inv_tlb_sync_info engine).freed_count + 1 } }

/-- `vmid_switch_inv`. -/
def vmidSwitchInv (engine vmid : ℕ) : Bool := !(s.ids vmid).testBit engine

/-- `set_vmid_pt_base`, for a VMID that no engine has. -/
def ptBases (vmid : ℕ) : List Event := if s.ids vmid = 0 then [.setVmidPtBase vmid] else []

/-- The wait for the last flush of the engine. -/
def waits (ring : Ring) : List Event :=
  let sync_info := s.inv_tlb_sync_info ring.engine_type
  if sync_info.last_wait_seqno ring.idx < sync_info.seqno then
    [.waitFence64 ring.engine_type ring.idx sync_info.seqno]
  else []

/-- The invalidations of a flush. -/
def invalidations (threshold : ℤ) (engine vmid : ℕ) : List Event :=
  let freed_count := (s.inv_tlb_sync_info engine).freed_count
  if s.vmidSwitchInv engine vmid ∨ freed_count ≠ 0 then
    if s.vmidSwitchInv engine vmid ∨ threshold ≤ freed_count then
      [.invalidateTlb engine vmid 0 0]
    else
      (s.freed.filter fun bo_va => !bo_va.marked engine).map fun bo_va =>
        .invalidateTlb engine vmid bo_va.base_addr
          (sub64 (u64 (bo_va.base_addr + bo_va.size_in_bytes)) 1)
  else []

/-- An iteration of `opu_vm_clear_freed_mapping`. -/
def clearStep (engine : ℕ) (s : FlushVm) (bo_va : FreedBoVa) : FlushVm :=
  let s :=
    if bo_va.marked engine then s
    else
      { s with
        inv_tlb_sync_info := Function.update s.inv_tlb_sync_info engine
          { s.inv_tlb_sync_info engine with
            freed_count := (s.inv_tlb_sync_info engine).freed_count - 1 } }
  let bo_va := if bo_va.marked engine then bo_va else bo_va.mark engine
  if bo_va.inv_tlb_eng_mask = s.full_eng_mask then
    { s with freed_count := s.freed_count - 1, log := s.log ++ [.left bo_va] }
  else { s with freed := s.freed ++ [bo_va] }

/-- `opu_vm_clear_freed_mapping`. -/
def opuVmClearFreedMapping (engine : ℕ) : FlushVm :=
  s.freed.foldl (clearStep engine) { s with freed := [] }

/-- `amdgpu_vm_flush`, for a job of the VM. -/
def amdgpuVmFlush (threshold : ℤ) (ring : Ring) (vmid : ℕ) (need_pipe_sync : Bool) : FlushVm :=
  let engine := ring.engine_type
  let sync_info := s.inv_tlb_sync_info engine
  let seqno := u64 (sync_info.seqno + 1)
  let s := { s with
    log := s.log ++ s.ptBases vmid ++ s.waits ring ++ s.invalidations threshold engine vmid ++
      [Event.fence engine vmid seqno]
    inv_tlb_sync_info := Function.update s.inv_tlb_sync_info engine
      { sync_info with
        seqno := seqno
        last_wait_seqno := Function.update sync_info.last_wait_seqno ring.idx seqno } }
  let s := s.opuVmClearFreedMapping engine
  if need_pipe_sync then { s with log := s.log ++ [.pipelineSync] } else s

end FlushVm

/-- What happens to a VM. -/
inductive FlushOp where
  | free (start last offset : ℕ) (h : last < 2 ^ 52)
  | flush (ring : Ring) (vmid : ℕ) (need_pipe_sync : Bool)

/-- A step of a history. -/
def FlushVm.exec (threshold : ℤ) (s : FlushVm) : FlushOp → FlushVm
  | .free start last offset h => s.opuVmAddFreedMapping start last offset h
  | .flush ring vmid need_pipe_sync => s.amdgpuVmFlush threshold ring vmid need_pipe_sync

/-! ### What it is for -/

/-- An invalidation of a range covers every page of a mapping. -/
def Covers (start_addr end_addr : ℕ) (bo_va : FreedBoVa) : Prop :=
  (start_addr = 0 ∧ end_addr = 0) ∨ ∀ page, bo_va.start ≤ page → page ≤ bo_va.last →
    start_addr ≤ 4096 * page ∧ 4096 * page + 4095 ≤ end_addr

/-- Since it was freed, a mapping has been invalidated for an engine. -/
def Invalidated (log : List Event) (engine : ℕ) (bo_va : FreedBoVa) : Prop :=
  ∃ vmid start_addr end_addr,
    .invalidateTlb engine vmid start_addr end_addr ∈ log.drop bo_va.freed_at ∧
      Covers start_addr end_addr bo_va

/-- **No stale translation**: marks and counters are what was done. -/
structure FlushVm.Sound (threshold : ℤ) (engine_num : ℕ) (s : FlushVm) : Prop where
  /-- A mark of an engine stands for an invalidation. -/
  marked : ∀ bo_va ∈ s.freed, ∀ engine, bo_va.marked engine → Invalidated s.log engine bo_va
  engine_count : ∀ engine < engine_num, (s.inv_tlb_sync_info engine).freed_count =
    ((s.freed.filter fun bo_va => !bo_va.marked engine).length : ℤ)
  vm_count : s.freed_count = (s.freed.length : ℤ)
  /-- What leaves the list has been invalidated for every engine. -/
  left : ∀ i bo_va, s.log[i]? = some (.left bo_va) → ∀ engine, s.full_eng_mask.testBit engine →
    Invalidated (s.log.take i) engine bo_va
  /-- The VMID has the engines that were flushed for it. -/
  recorded : ∀ engine vmid seqno, .fence engine vmid seqno ∈ s.log →
    (s.ids vmid).testBit engine
  /-- With nothing freed, another flush invalidates nothing. -/
  quiet : ∀ ring vmid seqno need_pipe_sync, .fence ring.engine_type vmid seqno ∈ s.log →
    (s.inv_tlb_sync_info ring.engine_type).freed_count = 0 →
    ∀ engine vmid' start_addr end_addr, .invalidateTlb engine vmid' start_addr end_addr ∉
      (s.amdgpuVmFlush threshold ring vmid need_pipe_sync).log.drop s.log.length

/-- A mapping of no more than one page, from the start of its buffer. -/
def FreedBoVa.OnePage (bo_va : FreedBoVa) : Prop :=
  bo_va.last < bo_va.start ∨ bo_va.start = bo_va.last ∧ bo_va.offset = 0

instance (bo_va : FreedBoVa) : Decidable bo_va.OnePage := inferInstanceAs (Decidable (_ ∨ _))

/-- A flush that keeps the promise: the VMID has the engine already, where ranges are invalidated
each is of one page, and where a mapping leaves the list the full mask is one of every engine. -/
def FlushOk (threshold : ℤ) (engine_num : ℕ) (s : FlushVm) : FlushOp → Prop
  | .free .. => True
  | .flush ring vmid _ =>
    ring.engine_type < engine_num ∧ s.vmidSwitchInv ring.engine_type vmid = false ∧
      ((s.inv_tlb_sync_info ring.engine_type).freed_count < threshold →
        ∀ bo_va ∈ s.freed, bo_va.marked ring.engine_type = false → bo_va.OnePage) ∧
      ∀ bo_va ∈ s.freed, (bo_va.mark ring.engine_type).inv_tlb_eng_mask = s.full_eng_mask →
        ∀ engine < engine_num, s.full_eng_mask.testBit engine

instance (threshold : ℤ) (engine_num : ℕ) (s : FlushVm) :
    ∀ op, Decidable (FlushOk threshold engine_num s op)
  | .free .. => inferInstanceAs (Decidable True)
  | .flush .. => inferInstanceAs (Decidable (_ ∧ _))

end Codrive.Vm
