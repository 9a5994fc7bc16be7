/-
# Queues and the hardware they are given

The data of `src/src/cmdio/linux/opu_device_queue_manager.c` and the functions that hand out
its resources: `struct queue`, `struct qcm_process_device` and `struct queue_properties` of
`opu_priv.h`, `struct device_queue_manager`, and `allocate_*` / `deallocate_*`.

| here | source |
|---|---|
| `Finset ℕ` | the set bits of a bitmap or mask |
| `List Queue` | `queues_list`, newest first |
| `ptr` | the address of a `struct queue` or `struct kernel_queue` |
| `Option Errno` as a result | `int retval`, `none` for 0 |

The counters are integers: they count objects in memory, and `unsigned int` holds any such
number.  Register writes are left out.
-/

import Codrive.Basis.Records
import Mathlib.Data.Finset.Erase
import Mathlib.Data.Finset.Range

namespace Codrive.Dqm

open Codrive.Basis

/-- The error numbers the queue manager returns. -/
inductive Errno where
  | eperm | eio | enomem | efault | ebusy | einval | enospc | etime
  deriving DecidableEq, Repr

/-- `enum opu_queue_type`. -/
inductive QueueType where
  | compute | sdma | hiq | diq | sdmaXgmi
  deriving DecidableEq, Repr

/-- The types `increment_queue_count` counts as command processor queues. -/
def QueueType.isCp : QueueType → Bool
  | .compute | .diq => true
  | _ => false

/-- The types with a queue of their own on the hardware when there is no scheduler. -/
def QueueType.isUser : QueueType → Bool
  | .compute | .sdma | .sdmaXgmi => true
  | _ => false

/-- `sched_policy`. -/
inductive SchedPolicy where
  | hws | hwsNoOversubscription | noHws
  deriving DecidableEq, Repr

/-- `struct queue_properties`. -/
structure QueueProperties where
  type : QueueType
  queue_id : ℕ := 0
  queue_address : ℕ := 0
  queue_size : ℕ := 0
  queue_percent : ℕ := 0
  priority : ℕ := 0
  is_evicted : Bool := false
  is_active : Bool := false
  is_gws : Bool := false
  vmid : ℕ := 0
  sdma_engine_id : ℕ := 0
  sdma_queue_id : ℕ := 0
  deriving DecidableEq, Repr

/-- `QUEUE_IS_ACTIVE`. -/
def QueueProperties.queueIsActive (p : QueueProperties) : Bool :=
  p.queue_size > 0 && p.queue_address ≠ 0 && p.queue_percent > 0 && !p.is_evicted

/-- `struct queue`. -/
structure Queue where
  /-- Its address. -/
  ptr : ℕ
  properties : QueueProperties
  /-- `gws != NULL`. -/
  gws : Bool := false
  pipe : ℕ := 0
  queue : ℕ := 0
  sdma_id : ℕ := 0
  doorbell_id : ℕ := 0
  deriving DecidableEq, Repr

/-- `struct kernel_queue`, with the type of its queue. -/
structure KernelQueue where
  /-- Its address. -/
  ptr : ℕ
  type : QueueType
  deriving DecidableEq, Repr

/-- `struct qcm_process_device`. -/
structure Qpd where
  pasid : ℕ
  queues_list : List Queue := []
  priv_queue_list : List KernelQueue := []
  queue_count : ℤ := 0
  vmid : ℕ := 0
  is_debug : Bool := false
  /-- "eviction counter, 0=active". -/
  evicted : ℕ := 0
  reset_wavefronts : Bool := false
  mapped_gws_queue : Bool := false
  doorbell_bitmap : Finset ℕ := ∅

/-- `struct device_queue_manager`. -/
structure Manager where
  sched_policy : SchedPolicy
  /-- `queues`: the processes registered. -/
  queues : List ℕ := []
  processes_count : ℤ := 0
  active_queue_count : ℤ := 0
  active_cp_queue_count : ℤ := 0
  gws_queue_count : ℤ := 0
  total_queue_count : ℤ := 0
  next_pipe_to_allocate : ℕ := 0
  /-- The free slots of each pipe. -/
  allocated_queues : ℕ → Finset ℕ := fun _ => ∅
  sdma_bitmap : Finset ℕ := ∅
  xgmi_sdma_bitmap : Finset ℕ := ∅
  /-- The process of each vmid, 0 for none. -/
  vmid_pasid : ℕ → ℕ := fun _ => 0
  active_runlist : Bool := false
  is_hws_hang : Bool := false
  is_resetting : Bool := false
  sched_running : Bool := false

/-- What the functions read of the device. -/
structure Dev where
  /-- `KFD_IS_SOC15(asic_family)`. -/
  is_soc15 : Bool := true
  /-- `asic_family == CHIP_HAWAII`. -/
  is_hawaii : Bool := false
  first_vmid_kfd : ℕ := 8
  last_vmid_kfd : ℕ := 15
  num_sdma_engines : ℕ := 2
  num_xgmi_sdma_engines : ℕ := 0
  num_sdma_queues_per_engine : ℕ := 2
  num_pipe_per_mec : ℕ := 4
  num_queue_per_pipe : ℕ := 8
  cp_queue_bitmap : Finset ℕ := Finset.range 32
  sdma_doorbell_idx : ℕ → ℕ := fun _ => 0
  max_num_of_queues_per_device : ℕ := 4096

/-- `KFD_MAX_NUM_OF_QUEUES_PER_PROCESS`. -/
def maxNumOfQueuesPerProcess : ℕ := 1024

/-- `KFD_QUEUE_DOORBELL_MIRROR_OFFSET`. -/
def doorbellMirrorOffset : ℕ := 512

/-- `ffs`, `__ffs64`: the lowest bit set. -/
def lowestBit (s : Finset ℕ) (width : ℕ) : Option ℕ := (List.range width).find? (· ∈ s)

/-- `get_num_sdma_queues`. -/
def getNumSdmaQueues (dev : Dev) : ℕ := dev.num_sdma_engines * dev.num_sdma_queues_per_engine

/-- `get_num_xgmi_sdma_queues`. -/
def getNumXgmiSdmaQueues (dev : Dev) : ℕ :=
  dev.num_xgmi_sdma_engines * dev.num_sdma_queues_per_engine

/-- `is_pipe_enabled`, of the first MEC. -/
def isPipeEnabled (dev : Dev) (pipe : ℕ) : Bool :=
  (List.range dev.num_queue_per_pipe).any fun i =>
    pipe * dev.num_queue_per_pipe + i ∈ dev.cp_queue_bitmap

/-- `increment_queue_count`. -/
def incrementQueueCount (dqm : Manager) (type : QueueType) : Manager :=
  { dqm with
    active_queue_count := dqm.active_queue_count + 1
    active_cp_queue_count := dqm.active_cp_queue_count + if type.isCp then 1 else 0 }

/-- `decrement_queue_count`. -/
def decrementQueueCount (dqm : Manager) (type : QueueType) : Manager :=
  { dqm with
    active_queue_count := dqm.active_queue_count - 1
    active_cp_queue_count := dqm.active_cp_queue_count - if type.isCp then 1 else 0 }

/-- The types whose doorbells follow from their engine. -/
def QueueType.isSdma : QueueType → Bool
  | .sdma | .sdmaXgmi => true
  | _ => false

/-- `allocate_doorbell`. -/
def allocateDoorbell (dev : Dev) (qpd : Qpd) (q : Queue) : Except Errno (Qpd × Queue) :=
  if !dev.is_soc15 then
    .ok (qpd, { q with doorbell_id := q.properties.queue_id })
  else if q.properties.type.isSdma then
    .ok (qpd, { q with
      doorbell_id := dev.sdma_doorbell_idx q.properties.sdma_engine_id
        + q.properties.sdma_queue_id % 2 * doorbellMirrorOffset
        + q.properties.sdma_queue_id / 2 })
  else
    match (List.range maxNumOfQueuesPerProcess).find? (· ∉ qpd.doorbell_bitmap) with
    | none => .error .ebusy
    | some found =>
      .ok ({ qpd with doorbell_bitmap := insert found qpd.doorbell_bitmap },
        { q with doorbell_id := found })

/-- `deallocate_doorbell`. -/
def deallocateDoorbell (dev : Dev) (qpd : Qpd) (q : Queue) : Qpd :=
  if !dev.is_soc15 || q.properties.type.isSdma then qpd
  else { qpd with doorbell_bitmap := qpd.doorbell_bitmap.erase q.doorbell_id }

/-- `allocate_vmid`. -/
def allocateVmid (dev : Dev) (dqm : Manager) (qpd : Qpd) (q : Queue) :
    Except Errno (Manager × Qpd × Queue) :=
  match (List.range' dev.first_vmid_kfd (dev.last_vmid_kfd + 1 - dev.first_vmid_kfd)).find?
      (dqm.vmid_pasid · = 0) with
  | none => .error .enospc
  | some vmid =>
    .ok ({ dqm with vmid_pasid := Function.update dqm.vmid_pasid vmid qpd.pasid },
      { qpd with vmid }, { q with properties := { q.properties with vmid } })

/-- `deallocate_vmid`, the queue's own copy apart. -/
def deallocateVmid (dqm : Manager) (qpd : Qpd) : Manager × Qpd :=
  ({ dqm with vmid_pasid := Function.update dqm.vmid_pasid qpd.vmid 0 }, { qpd with vmid := 0 })

/-- `allocate_hqd`: the lowest free slot of the first enabled pipe with one, from
`next_pipe_to_allocate` on. -/
def allocateHqd (dev : Dev) (dqm : Manager) (q : Queue) : Except Errno (Manager × Queue) :=
  let pipes := (List.range dev.num_pipe_per_mec).map fun i =>
    (dqm.next_pipe_to_allocate + i) % dev.num_pipe_per_mec
  let slot := pipes.findSome? fun pipe =>
    if isPipeEnabled dev pipe then
      (lowestBit (dqm.allocated_queues pipe) 32).map fun bit => (pipe, bit)
    else none
  match slot with
  | none => .error .ebusy
  | some (pipe, bit) =>
    .ok ({ dqm with
        allocated_queues :=
          Function.update dqm.allocated_queues pipe ((dqm.allocated_queues pipe).erase bit)
        next_pipe_to_allocate := (pipe + 1) % dev.num_pipe_per_mec },
      { q with pipe, queue := bit })

/-- `deallocate_hqd`. -/
def deallocateHqd (dqm : Manager) (q : Queue) : Manager :=
  { dqm with
    allocated_queues :=
      Function.update dqm.allocated_queues q.pipe (insert q.queue (dqm.allocated_queues q.pipe)) }

/-- `allocate_sdma_queue`. -/
def allocateSdmaQueue (dev : Dev) (dqm : Manager) (q : Queue) : Except Errno (Manager × Queue) :=
  match q.properties.type with
  | .sdma =>
    match lowestBit dqm.sdma_bitmap 64 with
    | none => .error .enomem
    | some bit =>
      .ok ({ dqm with sdma_bitmap := dqm.sdma_bitmap.erase bit },
        { q with
          sdma_id := bit
          properties := { q.properties with
            sdma_engine_id := bit % dev.num_sdma_engines
            sdma_queue_id := bit / dev.num_sdma_engines } })
  | .sdmaXgmi =>
    match lowestBit dqm.xgmi_sdma_bitmap 64 with
    | none => .error .enomem
    | some bit =>
      .ok ({ dqm with xgmi_sdma_bitmap := dqm.xgmi_sdma_bitmap.erase bit },
        { q with
          sdma_id := bit
          properties := { q.properties with
            sdma_engine_id := dev.num_sdma_engines + bit % dev.num_xgmi_sdma_engines
            sdma_queue_id := bit / dev.num_xgmi_sdma_engines } })
  | _ => .ok (dqm, q)

/-- `deallocate_sdma_queue`. -/
def deallocateSdmaQueue (dev : Dev) (dqm : Manager) (q : Queue) : Manager :=
  match q.properties.type with
  | .sdma =>
    if q.sdma_id ≥ getNumSdmaQueues dev then dqm
    else { dqm with sdma_bitmap := insert q.sdma_id dqm.sdma_bitmap }
  | .sdmaXgmi =>
    if q.sdma_id ≥ getNumXgmiSdmaQueues dev then dqm
    else { dqm with xgmi_sdma_bitmap := insert q.sdma_id dqm.xgmi_sdma_bitmap }
  | _ => dqm

end Codrive.Dqm
