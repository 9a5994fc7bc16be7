/-
# User queues

`src/src/device/QueueMgr.cpp`, `CreateQueue` and `DestroyQueue`, and `src/src/device/Doorbells.cpp`,
`map_doorbell`.  A queue is a `struct queue` in memory of its own, with a buffer for the end of the
pipe and an area for saved contexts, and a queue of the driver.  The doorbells of a node are mapped
when its first queue is created.

| here | source |
|---|---|
| `memory` | what `allocate_exec_aligned_memory` gave: addresses with their sizes |
| `queues a` | the `struct queue` at the address `a` |
| `driver id` | the driver's queue `id`, with the arguments it was created with |
| `doorbells n`, `mapped n` | `doorbells_[n]`, and the offset the driver mapped it at |
| `Answers` | what the allocations and the driver's requests answer during one call |
| `none` | a null or wild pointer read, a division by zero, memory freed that is not allocated |

`use_ats` is always true, so memory comes from `mmap` and goes with `munmap`.  `alignUp`, of
`util/intmath.h`, is not in the repository and rounds up.  The driver's requests are not either, or
only as emulations.  `get_device_info_by_dev_id` calls `find_device` and has no `return`: it is read
as if it returned what it found.  The mask of compute units, which nothing here reads, is left out.
-/

import Codrive.Basis.Machine
import Mathlib.Data.Finset.Basic
import Mathlib.Logic.Function.Basic

namespace Codrive.QueueMgr

open Codrive.Basis

/-! ### Nodes -/

/-- `device_status_t`, as far as the functions return it. -/
inductive Status where
  | success | error | invalidParameter | noMemory
  deriving DecidableEq, Repr

/-- `HSA_QUEUE_TYPE`. -/
inductive QueueType where
  | compute | sdma | multimediaDecode | multimediaEncode | sdmaXgmi | computeOs | sdmaOs
  | multimediaDecodeOs | multimediaEncodeOs | computeAql | dmaAql | dmaAqlXgmi
  deriving DecidableEq, Repr

/-- `struct device_info`, as the functions read it. -/
structure DeviceInfo where
  device_id : ℕ
  eop_buffer_size : ℕ
  doorbell_size : ℕ
  deriving DecidableEq, Repr

/-- `DOORBELL_SIZE`. -/
def doorbellSize : ℕ := 8

/-- `DeviceInfo::device_table_`. -/
def deviceTable : List DeviceInfo := [
  { device_id := 0xccdd, eop_buffer_size := 4096, doorbell_size := doorbellSize },
  { device_id := 0xccee, eop_buffer_size := 4096, doorbell_size := doorbellSize }]

/-- `DeviceInfo::find_device`. -/
def findDevice (device_id : ℕ) : Option DeviceInfo :=
  deviceTable.find? fun dev => dev.device_id == device_id

/-- `node_props_t`, as the functions read it. -/
structure Node where
  gpu_id : ℕ
  device_id : ℕ
  numFComputeCores : ℕ
  numSIMDPerCU : ℕ
  deriving DecidableEq, Repr

/-- `Device`: the nodes of the topology, and `is_dgpu()`. -/
structure Device where
  nodes : List Node
  is_dgpu : Bool
  deriving DecidableEq, Repr

/-- `mm_->PAGE_SIZE`. -/
def pageSize : ℕ := 4096

/-- `alignUp`, to pages. -/
def alignUp (x : ℕ) : ℕ := (x + (pageSize - 1)) / pageSize * pageSize

/-! ### The state -/

/-- `struct queue`; a null pointer is `none`. -/
structure Queue where
  queue_id : ℕ
  eop_buffer : Option ℕ
  ctx_save_restore : Option ℕ
  ctx_save_restore_size : ℕ
  ctl_stack_size : ℕ
  dev_info : Option DeviceInfo
  deriving DecidableEq, Repr

/-- A `struct queue` that is all zeros but for the device. -/
def blankQueue (dev_info : Option DeviceInfo) : Queue where
  queue_id := 0
  eop_buffer := none
  ctx_save_restore := none
  ctx_save_restore_size := 0
  ctl_stack_size := 0
  dev_info := dev_info

/-- `sizeof(struct queue)`. -/
def sizeofQueue : ℕ := 64

/-- `struct ioctl_create_queue_args`, as the request is made. -/
structure CreateQueueArgs where
  ring_base_address : ℕ := 0
  write_pointer_address : ℕ := 0
  read_pointer_address : ℕ := 0
  ring_size : ℕ := 0
  gpu_id : ℕ := 0
  queue_type : ℕ := 0
  queue_percentage : ℕ := 0
  eop_buffer_address : ℕ := 0
  eop_buffer_size : ℕ := 0
  ctx_save_restore_address : ℕ := 0
  ctx_save_restore_size : ℕ := 0
  ctl_stack_size : ℕ := 0
  deriving DecidableEq, Repr

/-- `class process_doorbells`. -/
structure ProcessDoorbells where
  use_gpuvm : Bool
  size : ℕ
  mapping : ℕ
  deriving DecidableEq, Repr

/-- What the process has, and what the driver has for it. -/
structure State where
  memory : Finset (ℕ × ℕ)
  queues : ℕ → Option Queue
  driver : ℕ → Option CreateQueueArgs
  doorbells : ℕ → ProcessDoorbells
  mapped : ℕ → Option ℕ

/-- After `init_process_doorbells`, before the first queue. -/
def start : State where
  memory := ∅
  queues _ := none
  driver _ := none
  doorbells _ := { use_gpuvm := false, size := 0, mapping := 0 }
  mapped _ := none

/-- What `cmd_create_queue` returns, and what it leaves in the arguments. -/
structure CreateAnswer where
  err : ℤ
  queue_id : ℕ
  doorbell_offset : ℕ
  deriving DecidableEq, Repr

/-- What `cmd_mmap` leaves in `start`, and whether anything was mapped. -/
structure MmapAnswer where
  start : ℕ
  made : Bool
  deriving DecidableEq, Repr

/-- What one call of `CreateQueue` is answered: by `allocate_exec_aligned_memory` for the
`struct queue`, the end of pipe buffer and the context area, by the driver's requests to create a
queue and to map doorbells, by `mm_allocate_doorbell` and `mm_map_to_gpu` (whether it succeeds), and
by the request to destroy a queue. -/
structure Answers where
  queueMemory : Option ℕ
  eopMemory : Option ℕ
  ctxMemory : Option ℕ
  create : CreateAnswer
  doorbell : Option ℕ
  mapToGpu : Bool
  mmap : MmapAnswer
  destroyErr : ℤ
  deriving DecidableEq, Repr

/-- The arguments of `CreateQueue`, with the two addresses it reads from the `QueueResource`. -/
structure CreateCall where
  nodeId : ℕ
  type : QueueType
  queuePercentage : ℕ
  priority : ℤ
  queueAddress : ℕ
  queueSizeInBytes : ℕ
  queueRptrValue : ℕ
  queueWptrValue : ℕ
  deriving DecidableEq, Repr

/-- What `CreateQueue` leaves in the `QueueResource`. -/
structure QueueResource where
  queueId : ℕ
  queue_DoorBell : ℕ
  deriving DecidableEq, Repr

/-- `allocate_exec_aligned_memory`, when it gave `addr`. -/
def State.allocate (s : State) (addr size : ℕ) : State :=
  { s with memory := insert (addr, size) s.memory }

/-- `free_exec_aligned_memory`. -/
def State.free (s : State) (addr size : ℕ) : Option State :=
  if (addr, size) ∈ s.memory then some { s with memory := s.memory.erase (addr, size) } else none

/-- The `struct queue` at `a` is written. -/
def State.write (s : State) (a : ℕ) (q : Queue) : State :=
  { s with queues := Function.update s.queues a (some q) }

/-- `doorbells_[n]` is written. -/
def State.setDoorbells (s : State) (n : ℕ) (db : ProcessDoorbells) : State :=
  { s with doorbells := Function.update s.doorbells n db }

/-- `cmd_create_queue`, with its answer. -/
def State.cmdCreateQueue (s : State) (args : CreateQueueArgs) (answer : CreateAnswer) : State :=
  if answer.err = 0 then
    { s with driver := Function.update s.driver answer.queue_id (some args) }
  else s

/-- `cmd_destroy_queue`, with its answer. -/
def State.cmdDestroyQueue (s : State) (queue_id : ℕ) (err : ℤ) : State :=
  if err = 0 then { s with driver := Function.update s.driver queue_id none } else s

/-! ### Doorbells -/

/-- `DOORBELLS_PAGE_SIZE`, in an `unsigned int`. -/
def doorbellsPageSize (ds : ℕ) : ℕ := wrap 32 (1024 * ds)

/-- `MAP_FAILED`. -/
def mapFailed : ℕ := 2 ^ 64 - 1

/-- The doorbells of a node are mapped at an offset. -/
def State.mapDoorbells (s : State) (n offset mapping : ℕ) : State :=
  { s with
    doorbells := Function.update s.doorbells n { s.doorbells n with mapping }
    mapped := Function.update s.mapped n (some offset) }

/-- `Doorbells::get_doorbell_map_info`. -/
def getDoorbellMapInfo (d : Device) (s : State) (n : ℕ) (dev : DeviceInfo) : State :=
  s.setDoorbells n
    { s.doorbells n with use_gpuvm := d.is_dgpu, size := doorbellsPageSize dev.doorbell_size }

/-- `Doorbells::map_doorbell_apu`: whether anything was mapped is not asked. -/
def mapDoorbellApu (s : State) (n doorbell_mmap_offset : ℕ) (answer : MmapAnswer) :
    Status × State :=
  if answer.start = mapFailed then (.error, s)
  else if answer.made then (.success, s.mapDoorbells n doorbell_mmap_offset answer.start)
  else (.success, s.setDoorbells n { s.doorbells n with mapping := answer.start })

/-- `Doorbells::map_doorbell_dgpu`. -/
def mapDoorbellDgpu (s : State) (n doorbell_mmap_offset : ℕ) (a : Answers) : Status × State :=
  match a.doorbell with
  | none => (.error, s)
  | some ptr =>
    if a.mapToGpu then (.success, s.mapDoorbells n doorbell_mmap_offset ptr) else (.error, s)

/-- `Doorbells::map_doorbell`, after the information about the device. -/
def mapDoorbellBy (s : State) (n gpu_id doorbell_mmap_offset : ℕ) (a : Answers) : Status × State :=
  if gpu_id ≠ 0 ∧ (s.doorbells n).use_gpuvm = true then
    let (status, s) := mapDoorbellDgpu s n doorbell_mmap_offset a
    if status ≠ .success then
      let s := s.setDoorbells n { s.doorbells n with use_gpuvm := false }
      mapDoorbellApu s n doorbell_mmap_offset a.mmap
    else (status, s)
  else mapDoorbellApu s n doorbell_mmap_offset a.mmap

/-- `Doorbells::map_doorbell`. -/
def mapDoorbell (d : Device) (s : State) (n : ℕ) (node : Node) (doorbell_mmap_offset : ℕ)
    (a : Answers) : Option (Status × State) :=
  if (s.doorbells n).size ≠ 0 then some (.success, s)
  else do
    let dev ← findDevice node.device_id
    let (status, s) :=
      mapDoorbellBy (getDoorbellMapInfo d s n dev) n node.gpu_id doorbell_mmap_offset a
    if status ≠ .success then
      return (status, s.setDoorbells n { s.doorbells n with size := 0 })
    return (status, s)

/-! ### Creating and destroying -/

/-- `WAVES_PER_CU`. -/
def wavesPerCu : ℕ := 32

/-- `CNTL_STACK_BYTES_PER_WAVE`. -/
def cntlStackBytesPerWave : ℕ := 12

/-- `WG_CONTEXT_DATA_SIZE_PER_CU`: vector registers, scalar registers, local memory and hardware
registers. -/
def wgContextDataSizePerCu : ℕ := 0x80000 + 0x4000 + 0x10000 + 0x1000

/-- `sizeof(HsaUserContextSaveAreaHeader)`. -/
def sizeofSaveAreaHeader : ℕ := 16

/-- `QueueMgr::update_ctx_save_restore_size`: the queue with its sizes, if it needs an area. -/
def updateCtxSaveRestoreSize (node : Node) (q : Queue) : Option Queue :=
  if node.numFComputeCores ≠ 0 ∧ node.numSIMDPerCU ≠ 0 then
    let cu_num := node.numFComputeCores / node.numSIMDPerCU
    let ctl_stack_size := wrap 32 (cu_num * wavesPerCu * cntlStackBytesPerWave + 8)
    let wg_data_size := wrap 32 (cu_num * wgContextDataSizePerCu)
    let ctl_stack_size := wrap 32 (alignUp (ctl_stack_size + sizeofSaveAreaHeader))
    some { q with
      ctl_stack_size
      ctx_save_restore_size := wrap 32 (ctl_stack_size + alignUp wg_data_size) }
  else none

/-- `QueueMgr::free_queue`, the end of pipe buffer. -/
def freeEop (s : State) (q : Queue) : Option State :=
  match q.eop_buffer with
  | none => some s
  | some eop => q.dev_info.bind fun dev => s.free eop dev.eop_buffer_size

/-- `QueueMgr::free_queue`, the area for contexts. -/
def freeCtx (s : State) (q : Queue) : Option State :=
  match q.ctx_save_restore with
  | none => some s
  | some ctx => s.free ctx q.ctx_save_restore_size

/-- `QueueMgr::free_queue`, of the `struct queue` at `a`. -/
def freeQueue (s : State) (a : ℕ) : Option State := do
  let q ← s.queues a
  let s ← freeEop s q
  let s ← freeCtx s q
  let s ← s.free a sizeofQueue
  return { s with queues := Function.update s.queues a none }

/-- `QueueMgr::handle_concrete_asic`, the area for contexts. -/
def handleCtxSaveRestore (node : Node) (s : State) (q : Queue) (args : CreateQueueArgs)
    (a : Answers) : Status × State × Queue × CreateQueueArgs :=
  match updateCtxSaveRestoreSize node q with
  | none => (.success, s, q, args)
  | some q =>
    let args := { args with
      ctx_save_restore_size := q.ctx_save_restore_size
      ctl_stack_size := q.ctl_stack_size }
    match a.ctxMemory with
    | none => (.noMemory, s, q, args)
    | some ctx =>
      (.success, s.allocate ctx q.ctx_save_restore_size, { q with ctx_save_restore := some ctx },
        { args with ctx_save_restore_address := ctx })

/-- `QueueMgr::handle_concrete_asic`. -/
def handleConcreteAsic (node : Node) (s : State) (q : Queue) (args : CreateQueueArgs)
    (a : Answers) : Status × State × Queue × CreateQueueArgs :=
  match q.dev_info with
  | none => (.success, s, q, args)
  | some dev =>
    if dev.eop_buffer_size > 0 then
      match a.eopMemory with
      | none => (.noMemory, s, q, args)
      | some eop =>
        handleCtxSaveRestore node (s.allocate eop dev.eop_buffer_size)
          { q with eop_buffer := some eop }
          { args with eop_buffer_address := eop, eop_buffer_size := dev.eop_buffer_size } a
    else handleCtxSaveRestore node s q args a

/-- `QueueMgr::DestroyQueue`, with the answer of `cmd_destroy_queue`. -/
def destroyQueue (s : State) (queueId : ℕ) (err : ℤ) : Option (Status × State) :=
  if queueId = 0 then some (.invalidParameter, s)
  else do
    let q ← s.queues queueId
    let s := s.cmdDestroyQueue q.queue_id err
    if err = -1 then return (.error, s)
    let s ← freeQueue s queueId
    return (.success, s)

/-- `QueueMgr::CreateQueue`, from the driver's request on; the `struct queue` is at `q`. -/
def submitQueue (d : Device) (s : State) (c : CreateCall) (node : Node) (q : ℕ) (queue : Queue)
    (args : CreateQueueArgs) (a : Answers) : Option (Except Status QueueResource × State) :=
  let s := s.cmdCreateQueue args a.create
  if a.create.err = -1 then do
    let s ← freeQueue s q
    return (.error .error, s)
  else do
    let s := s.write q { queue with queue_id := a.create.queue_id }
    -- the size is 0 before the first mapping, and then all 32 bits are masked
    let mask := wrap 32 ((s.doorbells c.nodeId).size + (2 ^ 32 - 1))
    let doorbell_mmap_offset := a.create.doorbell_offset &&& (2 ^ 64 - 1 - mask)
    let doorbell_offset := a.create.doorbell_offset &&& mask
    let (status, s) ← mapDoorbell d s c.nodeId node doorbell_mmap_offset a
    if status ≠ .success then
      -- the id of the driver's queue is passed where a pointer is expected
      let (_, s) ← destroyQueue s a.create.queue_id a.destroyErr
      let s ← freeQueue s q
      return (.error .error, s)
    let queue_DoorBell := (s.doorbells c.nodeId).mapping + doorbell_offset
    return (.ok { queueId := q, queue_DoorBell }, s)

/-- `QueueMgr::CreateQueue`, once the `struct queue` is allocated at `q`. -/
def buildQueue (d : Device) (s : State) (c : CreateCall) (node : Node) (q : ℕ) (a : Answers) :
    Option (Except Status QueueResource × State) :=
  let queue := blankQueue (findDevice node.device_id)
  if node.numSIMDPerCU = 0 then none
  else if c.type ≠ .compute then some (.error .invalidParameter, s.write q queue)
  else
    let (status, s, queue, args) := handleConcreteAsic node s queue { gpu_id := node.gpu_id } a
    let s := s.write q queue
    if status ≠ .success then do
      let s ← freeQueue s q
      return (.error .error, s)
    else
      submitQueue d s c node q queue { args with
        read_pointer_address := c.queueRptrValue
        write_pointer_address := c.queueWptrValue
        ring_base_address := c.queueAddress
        ring_size := wrap 32 c.queueSizeInBytes
        queue_percentage := c.queuePercentage } a

/-- `QueueMgr::CreateQueue`. -/
def createQueue (d : Device) (s : State) (c : CreateCall) (a : Answers) :
    Option (Except Status QueueResource × State) :=
  if c.priority < -3 ∨ 3 < c.priority then some (.error .invalidParameter, s)
  else
    match d.nodes[c.nodeId]? with
    | none => some (.error .error, s)
    | some node =>
      match a.queueMemory with
      | none => some (.error .noMemory, s)
      | some q => buildQueue d (s.allocate q sizeofQueue) c node q a

end Codrive.QueueMgr
