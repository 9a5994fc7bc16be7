/-
# The queues of a process

`src/src/cmdio/linux/opu_process_queue_manager.c`: a process makes its queues on the devices it has
opened, `pqm_create_queue` and `pqm_destroy_queue` keep the list of them and the ids that are in
use, and register the process with the queue manager of a device while it has queues there.  What
the device's queue manager does is `Codrive.Dqm`.

| here | source |
|---|---|
| `Node` | `struct process_queue_node` |
| `Pdd` | `struct opu_process_device`, with its device |
| `alive` | the addresses `kzalloc` has given and `kfree` has not taken back |

The process's mutex is held over a call.  What the wave states, the CU masks and the GWS add is left
out.
-/

import Codrive.Dqm.Runs

namespace Codrive.Pqm

open Codrive.Basis Codrive.Dqm

/-- A process on a device: `max_no_of_hqd` and `vmid_num_opu` are the device's, `get_cp_queues_num`
is of its queue manager. -/
structure Pdd where
  dev : Dev := {}
  max_no_of_hqd : ℕ := 24
  vmid_num_opu : ℕ := 8
  cp_queues_num : ℕ := 32
  dqm : Manager
  qpd : Qpd

/-- `pqn->q` or `pqn->kq`, of which one is `NULL`. -/
inductive NodeQueue where
  | user (ptr : ℕ)
  | kernel (kq : KernelQueue)
  deriving DecidableEq, Repr

/-- The address of the queue. -/
def NodeQueue.ptr : NodeQueue → ℕ
  | .user ptr => ptr
  | .kernel kq => kq.ptr

/-- `struct process_queue_node`, with the id and the device of its queue. -/
structure Node where
  ptr : ℕ
  queue_id : ℕ
  device : ℕ
  queue : NodeQueue
  deriving DecidableEq, Repr

/-- `struct process_queue_manager`, the devices of its process, and what is allocated. -/
structure State where
  queues : List Node := []
  queue_slot_bitmap : Finset ℕ := ∅
  pdds : ℕ → Option Pdd
  alive : Finset ℕ := ∅

/-- What `kzalloc` has memory for. -/
structure Memory where
  /-- The node of the queue. -/
  node : Bool := true
  /-- The node of the process, in `register_process`. -/
  process_node : Bool := true
  /-- `init_queue` or `kernel_queue_init`. -/
  queue : Bool := true

/-- `get_queue_by_qid`. -/
def getQueueByQid (queues : List Node) (qid : ℕ) : Option Node := queues.find? (·.queue_id = qid)

/-- `find_available_queue_slot`, up to where it sets the bit. -/
def findAvailableQueueSlot (queue_slot_bitmap : Finset ℕ) : Option ℕ :=
  (List.range maxNumOfQueuesPerProcess).find? (· ∉ queue_slot_bitmap)

/-- `list_empty(&pdd->qpd.queues_list) && list_empty(&pdd->qpd.priv_queue_list)`. -/
def Pdd.listsEmpty (pdd : Pdd) : Bool :=
  pdd.qpd.queues_list.isEmpty && pdd.qpd.priv_queue_list.isEmpty

/-- The process is registered if it has no queue on the device; what `register_process` returns is
not looked at. -/
def Pdd.registerIfEmpty (pdd : Pdd) (memory : Bool) : Pdd :=
  if pdd.listsEmpty && memory then { pdd with dqm := registerProcess pdd.dqm pdd.qpd } else pdd

/-- The process is unregistered if it has no queue on the device. -/
def Pdd.unregisterIfEmpty (pdd : Pdd) : Pdd :=
  if pdd.listsEmpty then { pdd with dqm := (unregisterProcess pdd.dqm pdd.qpd).2 } else pdd

/-- `max_queues`. -/
def Pdd.maxQueues (pdd : Pdd) (type : QueueType) : ℕ :=
  if pdd.qpd.is_debug || type = .diq then pdd.max_no_of_hqd / 2 else 127

/-- "Over-subscription is not allowed". -/
def Pdd.isFull (pdd : Pdd) : Bool :=
  pdd.dqm.sched_policy = .hwsNoOversubscription &&
    (pdd.dqm.processes_count ≥ pdd.vmid_num_opu || pdd.dqm.active_queue_count ≥ pdd.cp_queues_num)

/-- `dqm->ops.create_queue`. -/
def Pdd.createQueue (pdd : Pdd) (active : MqdActive) (out : Outcome) (q : Queue) :
    Option Errno × Pdd :=
  match createBegin pdd.dev out pdd.dqm pdd.qpd q with
  | (.error e, dqm, qpd) => (some e, { pdd with dqm, qpd })
  | (.ok q, dqm, qpd) =>
    let (retval, dqm, qpd) := createEnd pdd.dev active out dqm qpd q
    (retval, { pdd with dqm, qpd })

/-- The `switch` of `pqm_create_queue`. -/
def Pdd.createByType (pdd : Pdd) (active : MqdActive) (out : Outcome) (mem : Memory)
    (args : CreateArgs) : Option Errno × Pdd :=
  match args.type with
  | .sdma | .sdmaXgmi =>
    if !mem.queue then (some .enomem, pdd) else pdd.createQueue active out args.initUserQueue
  | .compute =>
    if pdd.isFull then (some .eperm, pdd)
    else if !mem.queue then (some .enomem, pdd)
    else pdd.createQueue active out args.initUserQueue
  | .diq =>
    if !mem.queue then (some .enomem, pdd)
    else
      let (retval, dqm, qpd) :=
        createKernelQueueCpsch pdd.dev out.fw pdd.dqm pdd.qpd ⟨args.ptr, .diq⟩
      (retval, { pdd with dqm, qpd })
  | .hiq => (some .einval, pdd)

namespace State

/-- Another value of the process's data of a device. -/
def setPdd (s : State) (d : ℕ) (pdd : Pdd) : State :=
  { s with pdds := Function.update s.pdds d (some pdd) }

/-- What follows `err_allocate_pqn`.  What was allocated before is freed again, and was on no
list. -/
def errAllocatePqn (s : State) (d qid : ℕ) (pdd : Pdd) : State :=
  { s.setPdd d pdd.unregisterIfEmpty with queue_slot_bitmap := s.queue_slot_bitmap.erase qid }

/-- `pqm_create_queue`; the node and the queue get the addresses `node` and `args.ptr`. -/
def pqmCreateQueue (s : State) (active : MqdActive) (out : Outcome) (mem : Memory) (d node : ℕ)
    (args : CreateArgs) : Option Errno × State :=
  match s.pdds d with
  | none => (some .eperm, s)
  | some pdd =>
    if pdd.qpd.queue_count ≥ pdd.maxQueues args.type then (some .enospc, s)
    else
      match findAvailableQueueSlot s.queue_slot_bitmap with
      | none => (some .enomem, s)
      | some qid =>
        let s := { s with queue_slot_bitmap := insert qid s.queue_slot_bitmap }
        let pdd := pdd.registerIfEmpty mem.process_node
        if !mem.node then (some .enomem, s.errAllocatePqn d qid pdd)
        else
          match pdd.createByType active out mem { args with queue_id := qid } with
          | (some e, pdd) => (some e, s.errAllocatePqn d qid pdd)
          | (none, pdd) =>
            let queue := if args.type = .diq then .kernel ⟨args.ptr, .diq⟩ else .user args.ptr
            (none, { s.setPdd d pdd with
              queues := ⟨node, qid, d, queue⟩ :: s.queues
              alive := insert node (insert args.ptr s.alive) })

/-- The end of `pqm_destroy_queue`: the queue and its node are freed. -/
def finishDestroy (s : State) (pqn : Node) (pdd : Pdd) : State :=
  { s.setPdd pqn.device pdd.unregisterIfEmpty with
    queues := s.queues.eraseP (·.ptr = pqn.ptr)
    queue_slot_bitmap := s.queue_slot_bitmap.erase pqn.queue_id
    alive := (s.alive.erase pqn.queue.ptr).erase pqn.ptr }

/-- `pqm_destroy_queue`, of a queue that is on the list of its device; another one has been taken
off it already, and nothing is said of what `list_del` does to it. -/
def pqmDestroyQueue (s : State) (out : Outcome) (qid : ℕ) : Option (Option Errno × State) :=
  match getQueueByQid s.queues qid with
  | none => some (some .einval, s)
  | some pqn =>
    match s.pdds pqn.device with
    | none => some (some .eperm, s)
    | some pdd =>
      match pqn.queue with
      | .kernel kq =>
        let (dqm, qpd) := destroyKernelQueueCpsch out.fw pdd.dqm pdd.qpd kq
        some (none, s.finishDestroy pqn { pdd with dqm, qpd })
      | .user ptr =>
        (pdd.qpd.find ptr).map fun q =>
          let (retval, dqm, qpd) := destroyQueue pdd.dev out pdd.dqm pdd.qpd q
          if retval.isNone || retval = some .etime then
            (retval, s.finishDestroy pqn { pdd with dqm, qpd })
          else (retval, s.setPdd pqn.device { pdd with dqm, qpd })

/-- `pqm_update_queue`, of a user queue on the list of its device: it has no `q` to write to in the
node of a kernel queue. -/
def pqmUpdateQueue (s : State) (active : MqdActive) (out : Outcome)
    (qid queue_address queue_size queue_percent priority : ℕ) : Option (Option Errno × State) :=
  match getQueueByQid s.queues qid with
  | none => some (some .efault, s)
  | some pqn =>
    match s.pdds pqn.device, pqn.queue with
    | some pdd, .user ptr =>
      let qpd := pdd.qpd.modify ptr
        (Queue.setProperties queue_address queue_size queue_percent priority)
      (qpd.find ptr).map fun q =>
        let (retval, dqm, qpd) := updateQueue active out pdd.dqm qpd q
        (retval, s.setPdd pqn.device { pdd with dqm, qpd })
    | _, _ => none

end State

/-! ### Steps -/

/-- A call, or anything else. -/
inductive Op where
  | create (active : MqdActive) (out : Outcome) (mem : Memory) (d node : ℕ) (args : CreateArgs)
  | update (active : MqdActive) (out : Outcome)
      (qid queue_address queue_size queue_percent priority : ℕ)
  | destroy (out : Outcome) (qid : ℕ)
  /-- What other processes and the rest of the driver do to a device. -/
  | other (d : ℕ) (pdd : Pdd)

/-- The registrations of the process with the device's queue manager. -/
def Pdd.registrations (pdd : Pdd) : ℕ := pdd.dqm.queues.count pdd.qpd.pasid

/-- The process has the same queues on the device and is registered as often. -/
structure Pdd.Alike (pdd pdd' : Pdd) : Prop where
  queues_list : pdd'.qpd.queues_list.map Queue.ptr = pdd.qpd.queues_list.map Queue.ptr
  priv_queue_list : pdd'.qpd.priv_queue_list = pdd.qpd.priv_queue_list
  registrations : pdd'.registrations = pdd.registrations

namespace State

/-- A call and what it returns.  `kzalloc` gives addresses that are free; a debug kernel queue is
made with the scheduler only. -/
inductive Call (s : State) : Op → Option Errno → State → Prop
  | create {active : MqdActive} {out : Outcome} {mem : Memory} {d node : ℕ} {args : CreateArgs} :
      node ∉ s.alive → args.ptr ∉ s.alive → node ≠ args.ptr →
      (args.type = .diq → ∀ pdd, s.pdds d = some pdd → pdd.dqm.sched_policy ≠ .noHws) →
      Call s (.create active out mem d node args)
        (s.pqmCreateQueue active out mem d node args).1
        (s.pqmCreateQueue active out mem d node args).2
  | update {active : MqdActive} {out : Outcome}
      {qid queue_address queue_size queue_percent priority : ℕ} {retval : Option Errno}
      {t : State} :
      s.pqmUpdateQueue active out qid queue_address queue_size queue_percent priority =
        some (retval, t) →
      Call s (.update active out qid queue_address queue_size queue_percent priority) retval t
  | destroy {out : Outcome} {qid : ℕ} {retval : Option Errno} {t : State} :
      s.pqmDestroyQueue out qid = some (retval, t) → Call s (.destroy out qid) retval t
  | other {d : ℕ} {pdd pdd' : Pdd} : s.pdds d = some pdd → pdd.Alike pdd' →
      Call s (.other d pdd') none (s.setPdd d pdd')

/-- One step. -/
def Step (s : State) (op : Op) (t : State) : Prop := ∃ retval, s.Call op retval t

/-- A process without queues. -/
structure Initial (s : State) : Prop where
  queues : s.queues = []
  queue_slot_bitmap : s.queue_slot_bitmap = ∅
  pdds : ∀ d pdd, s.pdds d = some pdd →
    pdd.qpd.queues_list = [] ∧ pdd.qpd.priv_queue_list = [] ∧ pdd.registrations = 0

end State

/-! ### What is promised -/

/-- The user queue of a node on this device. -/
def Node.userOn (d : ℕ) (pqn : Node) : Option ℕ :=
  match pqn.queue with
  | .user ptr => if pqn.device = d then some ptr else none
  | .kernel _ => none

/-- The kernel queue of a node on this device. -/
def Node.kernelOn (d : ℕ) (pqn : Node) : Option KernelQueue :=
  match pqn.queue with
  | .user _ => none
  | .kernel kq => if pqn.device = d then some kq else none

/-- **What is promised of the list, the ids and the registrations.** -/
structure State.Promise (s : State) : Prop where
  slots : ∀ b, b ∈ s.queue_slot_bitmap ↔ ∃ pqn ∈ s.queues, pqn.queue_id = b
  unique : (s.queues.map Node.queue_id).Nodup
  found : ∀ pqn ∈ s.queues, getQueueByQid s.queues pqn.queue_id = some pqn
  registered : ∀ d pdd, s.pdds d = some pdd →
    pdd.registrations = if s.queues.any (·.device = d) then 1 else 0
  /-- The lists of a device are the queues listed here: what is used or freed is there. -/
  users : ∀ d pdd, s.pdds d = some pdd →
    pdd.qpd.queues_list.map Queue.ptr = s.queues.filterMap (Node.userOn d)
  kernels : ∀ d pdd, s.pdds d = some pdd →
    pdd.qpd.priv_queue_list = s.queues.filterMap (Node.kernelOn d)
  /-- Nothing is freed while it is listed. -/
  alive : ∀ pqn ∈ s.queues, pqn.ptr ∈ s.alive ∧ pqn.queue.ptr ∈ s.alive

/-- **The list, the ids and the registrations are as they were.** -/
structure State.Unchanged (s t : State) : Prop where
  queues : t.queues = s.queues
  queue_slot_bitmap : t.queue_slot_bitmap = s.queue_slot_bitmap
  alive : t.alive = s.alive
  pdds : ∀ d, Option.Rel Pdd.Alike (s.pdds d) (t.pdds d)

/-- The timeout that a destruction goes on after. -/
def Op.Tolerates (e : Errno) : Op → Prop
  | .destroy _ _ => e = .etime
  | _ => False

/-- `destroy_queue` takes the queue off its list exactly if it returns 0 or `-ETIME`: without the
scheduler, this is running and the queue is destroyed or does not answer in time; with it, either
the process is debugged, or the queue is not active, or the other queues are mapped again or do not
answer in time. -/
def DestroyOk (out : Outcome) (dqm : Manager) (qpd : Qpd) (q : Queue) : Prop :=
  if dqm.sched_policy = .noHws then
    dqm.sched_running = true ∧ (out.destroy_mqd q = none ∨ out.destroy_mqd q = some .etime)
  else qpd.is_debug = true ∨ q.properties.is_active = false ∨
    (executeQueuesCpsch out.fw (decrementQueueCount dqm q.properties.type)).1 = none ∨
    (executeQueuesCpsch out.fw (decrementQueueCount dqm q.properties.type)).1 = some .etime

/-- The calls that go well: a process that gets its first queue on a device is registered there, and
a queue is destroyed as it should be. -/
def State.StepOk (s : State) : Op → Prop
  | .create active out mem d _ args => ∀ pdd qid, s.pdds d = some pdd →
      findAvailableQueueSlot s.queue_slot_bitmap = some qid → pdd.listsEmpty = true →
      mem.node = true →
      (pdd.createByType active out mem { args with queue_id := qid }).1 = none →
        mem.process_node = true
  | .destroy out qid => ∀ pqn pdd ptr q, getQueueByQid s.queues qid = some pqn →
      s.pdds pqn.device = some pdd → pqn.queue = .user ptr → pdd.qpd.find ptr = some q →
        DestroyOk out pdd.dqm pdd.qpd q
  | _ => True

end Codrive.Pqm
