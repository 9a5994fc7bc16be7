/-
# The device queue manager

The operations of `src/src/cmdio/linux/opu_device_queue_manager.c` in both variants, without
(`nocpsch`) and with (`cpsch`) the scheduler of the command processor.  A locked section of the
source is one function here; `create_queue_nocpsch` gives the lock up in the middle and
`create_queue_cpsch` takes it late, so each of them is two.

The MQD managers, the packet manager and the hardware are outside.  What a call gets from them
is an argument of it (`Outcome`, `Fw`); `MqdActive` is the value `init_mqd` and `update_mqd`
write to `is_active`.  The waits of `halt_if_hws_hang` are left out.
-/

import Codrive.Dqm.Queue
import Mathlib.Data.Finset.Filter

namespace Codrive.Dqm

open Codrive.Basis

/-- What `init_mqd` and `update_mqd` write to `is_active`. -/
abbrev MqdActive := QueueProperties → Bool

/-- What the firmware answers while the run list is taken down and put up again. -/
structure Fw where
  /-- `pm_send_unmap_queue`. -/
  send_unmap : Option Errno := none
  /-- The fence is not signalled in time. -/
  fence_timeout : Bool := false
  /-- `read_doorbell_id` finds a queue that did not answer. -/
  unresponding : Bool := false
  /-- `pm_send_runlist`. -/
  send_runlist : Option Errno := none

/-- What the MQD manager and the firmware answer a call. -/
structure Outcome where
  /-- `allocate_mqd` succeeds. -/
  allocate_mqd : Bool := true
  /-- `load_mqd` of a queue; `EFAULT` when the caller is not a thread of the process. -/
  load_mqd : Queue → Option Errno := fun _ => none
  /-- `destroy_mqd` of a queue. -/
  destroy_mqd : Queue → Option Errno := fun _ => none
  /-- `get_task_mm` finds the process's memory. -/
  mm : Bool := true
  fw : Fw := {}

/-- `is_active` after `init_mqd` or `update_mqd`. -/
def Queue.setActive (active : MqdActive) (q : Queue) : Queue :=
  { q with properties := { q.properties with is_active := active q.properties } }

/-- A queue with its eviction flag set. -/
def Queue.setEvicted (evicted : Bool) (q : Queue) : Queue :=
  { q with properties := { q.properties with is_evicted := evicted } }

/-! ### The run list -/

/-- `map_queues_cpsch`. -/
def mapQueuesCpsch (fw : Fw) (dqm : Manager) : Option Errno × Manager :=
  if !dqm.sched_running then (none, dqm)
  else if dqm.active_queue_count ≤ 0 || dqm.processes_count ≤ 0 then (none, dqm)
  else if dqm.active_runlist then (none, dqm)
  else
    match fw.send_runlist with
    | some e => (some e, dqm)
    | none => (none, { dqm with active_runlist := true })

/-- `unmap_queues_cpsch`. -/
def unmapQueuesCpsch (fw : Fw) (dqm : Manager) : Option Errno × Manager :=
  if !dqm.sched_running then (none, dqm)
  else if dqm.is_hws_hang then (some .eio, dqm)
  else if !dqm.active_runlist then (none, dqm)
  else
    match fw.send_unmap with
    | some e => (some e, dqm)
    | none =>
      if fw.fence_timeout then (some .etime, { dqm with is_hws_hang := true })
      else if fw.unresponding then (some .etime, dqm)
      else (none, { dqm with active_runlist := false })

/-- `execute_queues_cpsch`. -/
def executeQueuesCpsch (fw : Fw) (dqm : Manager) : Option Errno × Manager :=
  if dqm.is_hws_hang then (some .eio, dqm)
  else
    match unmapQueuesCpsch fw dqm with
    | (some e, dqm) => (some e, dqm)
    | (none, dqm) => mapQueuesCpsch fw dqm

/-! ### Creating a queue -/

/-- `if (list_empty(&qpd->queues_list)) allocate_vmid(dqm, qpd, q)`. -/
def allocateVmidIfEmpty (dev : Dev) (dqm : Manager) (qpd : Qpd) (q : Queue) :
    Except Errno (Manager × Qpd × Queue) :=
  if qpd.queues_list.isEmpty then allocateVmid dev dqm qpd q else .ok (dqm, qpd, q)

/-- `if (list_empty(&qpd->queues_list)) deallocate_vmid(dqm, qpd, q)`. -/
def deallocateVmidIfEmpty (dqm : Manager) (qpd : Qpd) : Manager × Qpd :=
  if qpd.queues_list.isEmpty then deallocateVmid dqm qpd else (dqm, qpd)

/-- The slot a queue runs in when there is no scheduler: `allocate_hqd` or
`allocate_sdma_queue`. -/
def allocateSlot (dev : Dev) (dqm : Manager) (q : Queue) : Except Errno (Manager × Queue) :=
  if q.properties.type = .compute then allocateHqd dev dqm q else allocateSdmaQueue dev dqm q

/-- `deallocate_hqd` or `deallocate_sdma_queue`. -/
def deallocateSlot (dev : Dev) (dqm : Manager) (q : Queue) : Manager :=
  if q.properties.type = .compute then deallocateHqd dqm q else deallocateSdmaQueue dev dqm q

/-- `create_queue_nocpsch` up to where it gives the lock up: the queue with what it was
given. -/
def createQueueNocpschBegin (dev : Dev) (dqm : Manager) (qpd : Qpd) (q : Queue) :
    Except Errno Queue × Manager × Qpd :=
  if dqm.total_queue_count ≥ dev.max_num_of_queues_per_device then (.error .eperm, dqm, qpd)
  else
    match allocateVmidIfEmpty dev dqm qpd q with
    | .error e => (.error e, dqm, qpd)
    | .ok (dqm, qpd, q) =>
      let q := { q with properties := { q.properties with vmid := qpd.vmid } }
      let q := q.setEvicted (qpd.evicted ≠ 0)
      match allocateSlot dev dqm q with
      | .error e => (.error e, deallocateVmidIfEmpty dqm qpd)
      | .ok (dqm, q) =>
        match allocateDoorbell dev qpd q with
        | .error e => (.error e, deallocateVmidIfEmpty (deallocateSlot dev dqm q) qpd)
        | .ok (qpd, q) => (.ok q, dqm, qpd)

/-- `add_queue_to_list`, the counters included. -/
def addQueueToList (dqm : Manager) (qpd : Qpd) (q : Queue) : Manager × Qpd :=
  let dqm := if q.properties.is_active then incrementQueueCount dqm q.properties.type else dqm
  ({ dqm with total_queue_count := dqm.total_queue_count + 1 },
    { qpd with queues_list := q :: qpd.queues_list, queue_count := qpd.queue_count + 1 })

/-- `out_deallocate_doorbell` and what follows it. -/
def undoCreateNocpsch (dev : Dev) (dqm : Manager) (qpd : Qpd) (q : Queue) : Manager × Qpd :=
  deallocateVmidIfEmpty (deallocateSlot dev dqm q) (deallocateDoorbell dev qpd q)

/-- `create_queue_nocpsch` from where it takes the lock again. -/
def createQueueNocpschEnd (dev : Dev) (active : MqdActive) (out : Outcome) (dqm : Manager)
    (qpd : Qpd) (q : Queue) : Option Errno × Manager × Qpd :=
  if !out.allocate_mqd then (some .enomem, undoCreateNocpsch dev dqm qpd q)
  else
    let q := q.setActive active
    if q.properties.is_active && dqm.sched_running then
      match out.load_mqd q with
      | some e => (some e, undoCreateNocpsch dev dqm qpd q)
      | none => (none, addQueueToList dqm qpd q)
    else (none, addQueueToList dqm qpd q)

/-- `create_queue_cpsch` before it takes the lock: the queue with what it was given. -/
def createQueueCpschBegin (dev : Dev) (out : Outcome) (dqm : Manager) (qpd : Qpd) (q : Queue) :
    Except Errno Queue × Manager × Qpd :=
  if dqm.total_queue_count ≥ dev.max_num_of_queues_per_device then (.error .eperm, dqm, qpd)
  else
    match allocateSdmaQueue dev dqm q with
    | .error e => (.error e, dqm, qpd)
    | .ok (dqm, q) =>
      match allocateDoorbell dev qpd q with
      | .error e => (.error e, deallocateSdmaQueue dev dqm q, qpd)
      | .ok (qpd, q) =>
        if !out.allocate_mqd then
          (.error .enomem, deallocateSdmaQueue dev dqm q, deallocateDoorbell dev qpd q)
        else (.ok q, dqm, qpd)

/-- `create_queue_cpsch` under the lock. -/
def createQueueCpschEnd (active : MqdActive) (out : Outcome) (dqm : Manager) (qpd : Qpd)
    (q : Queue) : Option Errno × Manager × Qpd :=
  let q := (q.setEvicted (qpd.evicted ≠ 0)).setActive active
  let qpd := { qpd with
    queues_list := q :: qpd.queues_list, queue_count := qpd.queue_count + 1 }
  let dqm := if q.properties.is_active then
      (executeQueuesCpsch out.fw (incrementQueueCount dqm q.properties.type)).2
    else dqm
  (none, { dqm with total_queue_count := dqm.total_queue_count + 1 }, qpd)

/-! ### Destroying a queue -/

/-- The queue counters without a queue that was active, and the flag of GWS queues. -/
def dropActive (dqm : Manager) (qpd : Qpd) (q : Queue) : Manager × Qpd :=
  if q.properties.is_active then
    let dqm := decrementQueueCount dqm q.properties.type
    if q.properties.is_gws then
      ({ dqm with gws_queue_count := dqm.gws_queue_count - 1 },
        { qpd with mapped_gws_queue := false })
    else (dqm, qpd)
  else (dqm, qpd)

/-- `list_del(&q->list)`. -/
def Qpd.listDel (qpd : Qpd) (ptr : ℕ) : Qpd :=
  { qpd with queues_list := qpd.queues_list.eraseP (·.ptr = ptr) }

/-- The part of `destroy_queue_nocpsch_locked` that takes the queue off the list, and the vmid
from a process without queues. -/
def unlistNocpsch (retval : Option Errno) (dqm : Manager) (qpd : Qpd) (q : Queue) :
    Manager × Qpd :=
  let qpd := { qpd with reset_wavefronts := qpd.reset_wavefronts || retval = some Errno.etime }
  let qpd := qpd.listDel q.ptr
  if qpd.queues_list.isEmpty then deallocateVmid dqm { qpd with reset_wavefronts := false }
  else (dqm, qpd)

/-- `destroy_queue_nocpsch_locked`. -/
def destroyQueueNocpschLocked (dev : Dev) (out : Outcome) (dqm : Manager) (qpd : Qpd) (q : Queue) :
    Option Errno × Manager × Qpd :=
  if !q.properties.type.isUser then (some .einval, dqm, qpd)
  else
    let dqm := deallocateSlot dev dqm q
    let dqm := { dqm with total_queue_count := dqm.total_queue_count - 1 }
    let qpd := deallocateDoorbell dev qpd q
    -- "Destroy non-HWS queue while stopped": the queue stays listed
    if !dqm.sched_running then (none, dqm, qpd)
    else
      let retval := out.destroy_mqd q
      let (dqm, qpd) := unlistNocpsch retval dqm qpd q
      (retval, dropActive dqm { qpd with queue_count := qpd.queue_count - 1 } q)

/-- The part of `destroy_queue_cpsch` about a queue that was active. -/
def dropActiveCpsch (fw : Fw) (dqm : Manager) (qpd : Qpd) (q : Queue) :
    Option Errno × Manager × Qpd :=
  if q.properties.is_active then
    let (retval, dqm) := executeQueuesCpsch fw (decrementQueueCount dqm q.properties.type)
    let qpd := { qpd with reset_wavefronts := qpd.reset_wavefronts || retval = some Errno.etime }
    if q.properties.is_gws then
      (retval, { dqm with gws_queue_count := dqm.gws_queue_count - 1 },
        { qpd with mapped_gws_queue := false })
    else (retval, dqm, qpd)
  else (none, dqm, qpd)

/-- `destroy_queue_cpsch`. -/
def destroyQueueCpsch (dev : Dev) (out : Outcome) (dqm : Manager) (qpd : Qpd) (q : Queue) :
    Option Errno × Manager × Qpd :=
  if qpd.is_debug then (some .ebusy, dqm, qpd)
  else
    let qpd := deallocateDoorbell dev qpd q
    let dqm := deallocateSdmaQueue dev dqm q
    let qpd := qpd.listDel q.ptr
    let (retval, dqm, qpd) :=
      dropActiveCpsch out.fw dqm { qpd with queue_count := qpd.queue_count - 1 } q
    (retval, { dqm with total_queue_count := dqm.total_queue_count - 1 }, qpd)

/-! ### Updating a queue -/

/-- `update_queue` before `update_mqd`: the queue is off the hardware, or the call returns. -/
def prepareUpdate (out : Outcome) (dqm : Manager) (q : Queue) :
    Except (Option Errno × Manager) Manager :=
  if dqm.sched_policy ≠ .noHws then
    match unmapQueuesCpsch out.fw dqm with
    | (some e, dqm) => .error (some e, dqm)
    | (none, dqm) => .ok dqm
  else if q.properties.is_active && q.properties.type.isUser then
    if !dqm.sched_running then .error (none, dqm)
    else
      match out.destroy_mqd q with
      | some e => .error (some e, dqm)
      | none => .ok dqm
  else .ok dqm

/-- "check active state vs. the previous state and modify counter accordingly". -/
def countActivity (dqm : Manager) (type : QueueType) (prev_active is_active : Bool) : Manager :=
  if is_active && !prev_active then incrementQueueCount dqm type
  else if !is_active && prev_active then decrementQueueCount dqm type
  else dqm

/-- The part of `update_queue` that sets `is_gws` and counts it. -/
def updateGws (dqm : Manager) (mapped_gws_queue : Bool) (q : Queue) : Manager × Bool × Queue :=
  if q.gws && !q.properties.is_gws then
    let q' := { q with properties := { q.properties with is_gws := true } }
    if q.properties.is_active then
      ({ dqm with gws_queue_count := dqm.gws_queue_count + 1 }, true, q')
    else (dqm, mapped_gws_queue, q')
  else if !q.gws && q.properties.is_gws then
    let q' := { q with properties := { q.properties with is_gws := false } }
    if q.properties.is_active then
      ({ dqm with gws_queue_count := dqm.gws_queue_count - 1 }, false, q')
    else (dqm, mapped_gws_queue, q')
  else (dqm, mapped_gws_queue, q)

/-- `update_queue`. -/
def updateQueue (active : MqdActive) (out : Outcome) (dqm : Manager) (qpd : Qpd) (q : Queue) :
    Option Errno × Manager × Qpd :=
  match prepareUpdate out dqm q with
  | .error (retval, dqm) => (retval, dqm, qpd)
  | .ok dqm =>
    let prev_active := q.properties.is_active
    let q := q.setActive active
    let dqm := countActivity dqm q.properties.type prev_active q.properties.is_active
    let (dqm, mapped_gws_queue, q) := updateGws dqm qpd.mapped_gws_queue q
    let qpd := { qpd with
      mapped_gws_queue, queues_list := updateFirst (·.ptr = q.ptr) (fun _ => q) qpd.queues_list }
    if dqm.sched_policy ≠ .noHws then
      let (retval, dqm) := mapQueuesCpsch out.fw dqm
      (retval, dqm, qpd)
    else if q.properties.is_active && q.properties.type.isUser then (out.load_mqd q, dqm, qpd)
    else (none, dqm, qpd)

/-! ### Evicting and restoring a process -/

/-- What the loops of the evictions and restores change beside the queues. -/
structure LoopState where
  dqm : Manager
  mapped_gws_queue : Bool
  ret : Option Errno := none

/-- The body of the loop of `evict_process_queues_nocpsch`. -/
def evictQueueNocpsch (out : Outcome) (s : LoopState) (q : Queue) : LoopState × Queue :=
  let q := q.setEvicted true
  if !q.properties.is_active then (s, q)
  else
    let q := { q with properties := { q.properties with is_active := false } }
    let s := { s with dqm := decrementQueueCount s.dqm q.properties.type }
    let s := if q.properties.is_gws then
        { s with
          dqm := { s.dqm with gws_queue_count := s.dqm.gws_queue_count - 1 }
          mapped_gws_queue := false }
      else s
    if !s.dqm.sched_running then (s, q)
    else ({ s with ret := s.ret.or (out.destroy_mqd q) }, q)

/-- `evict_process_queues_nocpsch`. -/
def evictProcessQueuesNocpsch (out : Outcome) (dqm : Manager) (qpd : Qpd) :
    Option Errno × Manager × Qpd :=
  let evicted := qpd.evicted + 1
  if qpd.evicted > 0 then (none, dqm, { qpd with evicted })
  else
    let (s, queues_list) :=
      forEach (evictQueueNocpsch out) ⟨dqm, qpd.mapped_gws_queue, none⟩ qpd.queues_list
    (s.ret, s.dqm, { qpd with evicted, queues_list, mapped_gws_queue := s.mapped_gws_queue })

/-- The body of the loop of `evict_process_queues_cpsch`. -/
def evictQueueCpsch (dqm : Manager) (q : Queue) : Manager × Queue :=
  let q := q.setEvicted true
  if !q.properties.is_active then (dqm, q)
  else
    (decrementQueueCount dqm q.properties.type,
      { q with properties := { q.properties with is_active := false } })

/-- `evict_process_queues_cpsch`. -/
def evictProcessQueuesCpsch (out : Outcome) (dqm : Manager) (qpd : Qpd) :
    Option Errno × Manager × Qpd :=
  let evicted := qpd.evicted + 1
  if qpd.evicted > 0 then (none, dqm, { qpd with evicted })
  else
    let (dqm, queues_list) := forEach evictQueueCpsch dqm qpd.queues_list
    let (retval, dqm) := executeQueuesCpsch out.fw dqm
    (retval, dqm, { qpd with evicted, queues_list })

/-- The body of the loop of `restore_process_queues_nocpsch`. -/
def restoreQueueNocpsch (out : Outcome) (s : LoopState) (q : Queue) : LoopState × Queue :=
  let q := q.setEvicted false
  if !q.properties.queueIsActive then (s, q)
  else
    let q := { q with properties := { q.properties with is_active := true } }
    let s := { s with dqm := incrementQueueCount s.dqm q.properties.type }
    let s := if q.properties.is_gws then
        { s with
          dqm := { s.dqm with gws_queue_count := s.dqm.gws_queue_count + 1 }
          mapped_gws_queue := true }
      else s
    if !s.dqm.sched_running then (s, q)
    else ({ s with ret := s.ret.or (out.load_mqd q) }, q)

/-- `restore_process_queues_nocpsch`. -/
def restoreProcessQueuesNocpsch (out : Outcome) (dqm : Manager) (qpd : Qpd) :
    Option Errno × Manager × Qpd :=
  if qpd.evicted = 0 then (none, dqm, qpd)
  else if qpd.evicted > 1 then (none, dqm, { qpd with evicted := qpd.evicted - 1 })
  else if !out.mm then (some .efault, dqm, qpd)
  else
    let (s, queues_list) :=
      forEach (restoreQueueNocpsch out) ⟨dqm, qpd.mapped_gws_queue, none⟩ qpd.queues_list
    (s.ret, s.dqm,
      { qpd with evicted := 0, queues_list, mapped_gws_queue := s.mapped_gws_queue })

/-- The body of the loop of `restore_process_queues_cpsch`. -/
def restoreQueueCpsch (dqm : Manager) (q : Queue) : Manager × Queue :=
  let q := q.setEvicted false
  if !q.properties.queueIsActive then (dqm, q)
  else
    (incrementQueueCount dqm q.properties.type,
      { q with properties := { q.properties with is_active := true } })

/-- `restore_process_queues_cpsch`. -/
def restoreProcessQueuesCpsch (out : Outcome) (dqm : Manager) (qpd : Qpd) :
    Option Errno × Manager × Qpd :=
  if qpd.evicted = 0 then (none, dqm, qpd)
  else if qpd.evicted > 1 then (none, dqm, { qpd with evicted := qpd.evicted - 1 })
  else
    let (dqm, queues_list) := forEach restoreQueueCpsch dqm qpd.queues_list
    let (retval, dqm) := executeQueuesCpsch out.fw dqm
    (retval, dqm, { qpd with evicted := 0, queues_list })

/-! ### Processes, kernel queues, start and stop -/

/-- `register_process`. -/
def registerProcess (dqm : Manager) (qpd : Qpd) : Manager :=
  { dqm with queues := qpd.pasid :: dqm.queues, processes_count := dqm.processes_count + 1 }

/-- `unregister_process`: false when the process is not registered. -/
def unregisterProcess (dqm : Manager) (qpd : Qpd) : Bool × Manager :=
  if qpd.pasid ∈ dqm.queues then
    (true, { dqm with
      queues := dqm.queues.erase qpd.pasid, processes_count := dqm.processes_count - 1 })
  else (false, dqm)

/-- `create_kernel_queue_cpsch`. -/
def createKernelQueueCpsch (dev : Dev) (fw : Fw) (dqm : Manager) (qpd : Qpd) (kq : KernelQueue) :
    Option Errno × Manager × Qpd :=
  if dqm.total_queue_count ≥ dev.max_num_of_queues_per_device then (some .eperm, dqm, qpd)
  else
    let dqm := { dqm with total_queue_count := dqm.total_queue_count + 1 }
    let dqm := incrementQueueCount dqm kq.type
    (none, (executeQueuesCpsch fw dqm).2,
      { qpd with priv_queue_list := kq :: qpd.priv_queue_list, is_debug := true })

/-- `destroy_kernel_queue_cpsch`. -/
def destroyKernelQueueCpsch (fw : Fw) (dqm : Manager) (qpd : Qpd) (kq : KernelQueue) :
    Manager × Qpd :=
  let dqm := (executeQueuesCpsch fw (decrementQueueCount dqm kq.type)).2
  ({ dqm with total_queue_count := dqm.total_queue_count - 1 },
    { qpd with
      priv_queue_list := qpd.priv_queue_list.eraseP (·.ptr = kq.ptr), is_debug := false })

/-- `initialize_nocpsch`.  The bitmaps are `~0ULL >> (64 - n)`, and a shift by 64 is one by 0. -/
def initializeNocpsch (dev : Dev) : Manager :=
  { sched_policy := .noHws
    allocated_queues := fun pipe =>
      if pipe < dev.num_pipe_per_mec then
        (Finset.range dev.num_queue_per_pipe).filter fun queue =>
          pipe * dev.num_queue_per_pipe + queue ∈ dev.cp_queue_bitmap
      else ∅
    sdma_bitmap := Finset.range (64 - (64 - getNumSdmaQueues dev) % 64)
    xgmi_sdma_bitmap := Finset.range (64 - (64 - getNumXgmiSdmaQueues dev) % 64) }

/-- `initialize_cpsch`. -/
def initializeCpsch (dev : Dev) (sched_policy : SchedPolicy) : Manager :=
  { sched_policy
    sdma_bitmap := Finset.range (min 64 (getNumSdmaQueues dev))
    xgmi_sdma_bitmap := Finset.range (min 64 (getNumXgmiSdmaQueues dev)) }

/-- `start_nocpsch`: on Hawaii it returns before it sets the flag. -/
def startNocpsch (dev : Dev) (dqm : Manager) : Manager :=
  if dev.is_hawaii then dqm else { dqm with sched_running := true }

/-- `start_cpsch`, when its allocations succeed. -/
def startCpsch (fw : Fw) (dqm : Manager) : Manager :=
  (executeQueuesCpsch fw { dqm with
    is_hws_hang := false, is_resetting := false, sched_running := true }).2

/-- `stop_nocpsch`. -/
def stopNocpsch (dqm : Manager) : Manager := { dqm with sched_running := false }

/-- `stop_cpsch`. -/
def stopCpsch (fw : Fw) (dqm : Manager) : Manager :=
  let dqm := if !dqm.is_hws_hang then (unmapQueuesCpsch fw dqm).2 else dqm
  { dqm with sched_running := false }

/-- `pre_reset`. -/
def preReset (dqm : Manager) : Manager := { dqm with is_resetting := true }

/-! ### What a call can change -/

section Changes

variable {dev : Dev} {dqm dqm' : Manager} {qpd qpd' : Qpd} {q q' : Queue}

/-- `allocate_sdma_queue` changes the bitmaps, and the queue's SDMA ids. -/
theorem allocateSdmaQueue_changes (h : allocateSdmaQueue dev dqm q = .ok (dqm', q')) :
    ∃ sdma xgmi id engine queue,
      dqm' = { dqm with sdma_bitmap := sdma, xgmi_sdma_bitmap := xgmi } ∧
      q' = { q with
        sdma_id := id
        properties := { q.properties with sdma_engine_id := engine, sdma_queue_id := queue } } := by
  unfold allocateSdmaQueue at h
  split at h
  · split at h <;> cases h
    exact ⟨_, _, _, _, _, rfl, rfl⟩
  · split at h <;> cases h
    exact ⟨_, _, _, _, _, rfl, rfl⟩
  · cases h
    exact ⟨_, _, _, _, _, rfl, rfl⟩

/-- The slots, and where the queue is, are what `allocate_hqd` or `allocate_sdma_queue` change. -/
theorem allocateSlot_changes (h : allocateSlot dev dqm q = .ok (dqm', q')) :
    ∃ next slots sdma xgmi pipe bit id engine queue,
      dqm' = { dqm with
        next_pipe_to_allocate := next
        allocated_queues := slots
        sdma_bitmap := sdma
        xgmi_sdma_bitmap := xgmi } ∧
      q' = { q with
        pipe
        queue := bit
        sdma_id := id
        properties := { q.properties with sdma_engine_id := engine, sdma_queue_id := queue } } := by
  unfold allocateSlot at h
  split at h
  · unfold allocateHqd at h
    dsimp only at h
    split at h <;> cases h
    exact ⟨_, _, _, _, _, _, _, _, _, rfl, rfl⟩
  · obtain ⟨sdma, xgmi, id, engine, queue, rfl, rfl⟩ := allocateSdmaQueue_changes h
    exact ⟨_, _, _, _, _, _, _, _, _, rfl, rfl⟩

theorem deallocateSdmaQueue_changes (dev : Dev) (dqm : Manager) (q : Queue) : ∃ sdma xgmi,
    deallocateSdmaQueue dev dqm q = { dqm with sdma_bitmap := sdma, xgmi_sdma_bitmap := xgmi } := by
  unfold deallocateSdmaQueue
  split
  · split <;> exact ⟨_, _, rfl⟩
  · split <;> exact ⟨_, _, rfl⟩
  · exact ⟨_, _, rfl⟩

theorem deallocateSlot_changes (dev : Dev) (dqm : Manager) (q : Queue) : ∃ slots sdma xgmi,
    deallocateSlot dev dqm q =
      { dqm with allocated_queues := slots, sdma_bitmap := sdma, xgmi_sdma_bitmap := xgmi } := by
  unfold deallocateSlot
  split
  · exact ⟨_, _, _, rfl⟩
  · obtain ⟨sdma, xgmi, h⟩ := deallocateSdmaQueue_changes dev dqm q
    exact ⟨_, _, _, h⟩

/-- `allocate_doorbell` changes the bitmap, and the queue's doorbell. -/
theorem allocateDoorbell_changes (h : allocateDoorbell dev qpd q = .ok (qpd', q')) :
    ∃ bitmap id, qpd' = { qpd with doorbell_bitmap := bitmap } ∧
      q' = { q with doorbell_id := id } := by
  unfold allocateDoorbell at h
  split at h
  · cases h
    exact ⟨_, _, rfl, rfl⟩
  split at h
  · cases h
    exact ⟨_, _, rfl, rfl⟩
  · split at h <;> cases h
    exact ⟨_, _, rfl, rfl⟩

theorem deallocateDoorbell_changes (dev : Dev) (qpd : Qpd) (q : Queue) : ∃ bitmap,
    deallocateDoorbell dev qpd q = { qpd with doorbell_bitmap := bitmap } := by
  unfold deallocateDoorbell
  split <;> exact ⟨_, rfl⟩

/-- The vmids, and the vmid of the process and the queue, are what `allocate_vmid` changes. -/
theorem allocateVmidIfEmpty_changes (h : allocateVmidIfEmpty dev dqm qpd q = .ok (dqm', qpd', q')) :
    ∃ vmid_pasid vmid vmid', dqm' = { dqm with vmid_pasid } ∧ qpd' = { qpd with vmid } ∧
      q' = { q with properties := { q.properties with vmid := vmid' } } := by
  unfold allocateVmidIfEmpty allocateVmid at h
  split at h
  · split at h <;> cases h
    exact ⟨_, _, _, rfl, rfl, rfl⟩
  · cases h
    exact ⟨_, _, _, rfl, rfl, rfl⟩

theorem deallocateVmidIfEmpty_changes (dqm : Manager) (qpd : Qpd) : ∃ vmid_pasid vmid,
    deallocateVmidIfEmpty dqm qpd = ({ dqm with vmid_pasid }, { qpd with vmid }) := by
  unfold deallocateVmidIfEmpty
  split <;> exact ⟨_, _, rfl⟩

/-- A creation without hardware scheduling that goes on was given a vmid, a slot and a doorbell,
in this order. -/
theorem createQueueNocpschBegin_ok
    (h : createQueueNocpschBegin dev dqm qpd q = (.ok q', dqm', qpd')) :
    ∃ dqm₁ qpd₁ q₁ q₂, allocateVmidIfEmpty dev dqm qpd q = .ok (dqm₁, qpd₁, q₁) ∧
      allocateSlot dev dqm₁ (({ q₁ with
        properties := { q₁.properties with vmid := qpd₁.vmid } } : Queue).setEvicted
          (qpd₁.evicted ≠ 0)) = .ok (dqm', q₂) ∧
      allocateDoorbell dev qpd₁ q₂ = .ok (qpd', q') := by
  unfold createQueueNocpschBegin at h
  split at h
  · cases h
  split at h
  · cases h
  rename_i hvmid
  dsimp only at h
  split at h
  · cases h
  rename_i hslot
  split at h
  · cases h
  rename_i hdoorbell
  cases h
  exact ⟨_, _, _, _, hvmid, hslot, hdoorbell⟩

/-- What `update_queue` does before `update_mqd` keeps what unmapping the queues keeps. -/
theorem prepareUpdate_keeps {out : Outcome} {P : Manager → Prop} (h : P dqm)
    (hu : P (unmapQueuesCpsch out.fw dqm).2) :
    (∀ r dqm', prepareUpdate out dqm q = .error (r, dqm') → P dqm') ∧
      ∀ dqm', prepareUpdate out dqm q = .ok dqm' → P dqm' := by
  constructor
  · intro r dqm' heq
    unfold prepareUpdate at heq
    split at heq
    · split at heq <;> cases heq
      rename_i hm
      rwa [hm] at hu
    split at heq
    · split at heq
      · cases heq
        exact h
      · split at heq <;> cases heq
        exact h
    · cases heq
  · intro dqm' heq
    unfold prepareUpdate at heq
    split at heq
    · split at heq <;> cases heq
      rename_i hm
      rwa [hm] at hu
    split at heq
    · split at heq
      · cases heq
      · split at heq <;> cases heq
        exact h
    · cases heq
      exact h

end Changes

end Codrive.Dqm
