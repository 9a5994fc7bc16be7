/-
# The GPUs a memory object is mapped on

`add_device_ids_to_mapped_array` and `remove_device_ids_from_mapped_array` of
`src/src/device/MemObj.cpp`, `mm_map_to_gpu` and `mm_unmap_from_gpu` of `src/src/device/Vma.cpp`,
and `mm_map_to_gpu`, `mm_unmap_from_gpu` and `mm_map_to_gpu_nodes` of `src/src/device/MemMgr.cpp`,
from the memory object they find on.

An object records the GPUs it is mapped on in an array of words.  Whoever reads the record takes
its size for a number of bytes, and so do the callers that hand arrays over; `id_in_array`, `add_…`
and `remove_…` take the sizes they get for numbers of words.  A pointer is therefore the words that
lie from it on: those of an array, and after them what lies behind it, which differs from call to
call.

| here | source |
|---|---|
| `Words` | what lies from a pointer on, word by word |
| `mapped_device_id_array` | the first `mapped_device_id_array_size` words of the array |
| `[]` | a null pointer |
| `DriverAnswer` | `n_success` and the code the driver returns |
| `mapped_on` | the GPUs that the driver has the object mapped on |
| `balance` | the maps that succeeded, less the unmaps that did |

The handle, the address the GPU uses and the locks play no part in the record and are left out.
-/

import Mathlib.Data.Finset.Basic
import Mathlib.Data.Stream.Init

namespace Codrive.Mapping

/-- The words from a pointer on. -/
abbrev Words := Stream' ℕ

/-- `DEVICE_STATUS_SUCCESS`. -/
def deviceStatusSuccess : ℤ := 0

/-- `DEVICE_STATUS_ERROR`. -/
def deviceStatusError : ℤ := 1

/-- `DEVICE_STATUS_INVALID_PARAMETER`. -/
def deviceStatusInvalidParameter : ℤ := 3

/-- `id_in_array`: among the first so many words. -/
def idInArray (id : ℕ) (ids_array : Words) (ids_array_size : ℕ) : Bool :=
  decide (id ∈ ids_array.take ids_array_size)

theorem idInArray_eq_true {id n : ℕ} {ids : Words} :
    idInArray id ids n = true ↔ id ∈ ids.take n := by
  unfold idInArray
  exact decide_eq_true_iff

/-! ### The object -/

/-- `MemObj`. -/
structure MemObj where
  userptr : Bool := false
  mapping_count : ℕ := 0
  registered_device_id_array : List ℕ := []
  registered_device_id_array_size : ℕ := 0
  mapped_device_id_array : List ℕ := []
  mapped_node_id_array : Option (List ℕ) := none
  deriving DecidableEq

namespace MemObj

/-- `mapped_device_id_array_size`. -/
def mappedDeviceIdArraySize (object : MemObj) : ℕ := object.mapped_device_id_array.length

/-- The recorded GPUs, of a size in bytes. -/
def mappedDeviceIds (object : MemObj) : List ℕ :=
  object.mapped_device_id_array.take (object.mappedDeviceIdArraySize / 4)

/-- `remove_device_ids_from_mapped_array`; no `ids_array` is the array of the object. -/
def removeDeviceIdsFromMappedArray (object : MemObj) (ids_array : Option Words)
    (ids_array_size : ℕ) : MemObj where
  __ := object
  mapped_device_id_array :=
    match ids_array with
    -- The loop over the array is not entered, and `j` is still zero.
    | none => []
    | some ids => object.mapped_device_id_array.filter fun id => !idInArray id ids ids_array_size

/-- `add_device_ids_to_mapped_array`. -/
def addDeviceIdsToMappedArray (object : MemObj) (ids_array : Words) (ids_array_size : ℕ) :
    MemObj :=
  let object := object.removeDeviceIdsFromMappedArray (some ids_array) ids_array_size
  { object with
    mapped_device_id_array :=
      object.mapped_device_id_array ++ ids_array.take ids_array_size }

/-- A change of the mapping ends the life of `mapped_node_id_array`. -/
def setMappingCount (object : MemObj) (count : ℕ) : MemObj :=
  { object with mapping_count := count, mapped_node_id_array := none }

end MemObj

/-! ### The driver -/

/-- How many devices from the start of the array the driver gets through, and what it returns. -/
structure DriverAnswer where
  n_success : ℕ
  ret : ℤ

/-- The driver gets no further than the devices it is asked for. -/
def DriverAnswer.nSuccess (answer : DriverAnswer) (n_devices : ℕ) : ℕ :=
  min answer.n_success n_devices

/-- The device, and the aperture that holds the object. -/
structure Aperture where
  all_gpu_id_array : List ℕ
  all_gpu_id_array_size : ℕ
  /-- The aperture is `cpuvm_aperture`. -/
  cpuvm : Bool := false
  is_cpu_accessible_ : Bool := true

/-- The object, and what the driver has of it. -/
structure State where
  object : MemObj
  mapped_on : Finset ℕ := ∅
  balance : ℤ := 0

namespace State

/-! ### Mapping and unmapping -/

/-- The array `mm_map_to_gpu` hands to the driver, and its `n_devices`. -/
def idsToMap (aperture : Aperture) (object : MemObj) (nodes_to_map : Option (Words × ℕ))
    (behind : Words) : Words × ℕ :=
  match nodes_to_map with
  | some nodes => nodes
  | none =>
    if 0 < object.registered_device_id_array_size then
      (object.registered_device_id_array ++ₛ behind, object.registered_device_id_array_size)
    else (aperture.all_gpu_id_array ++ₛ behind, aperture.all_gpu_id_array_size)

/-- `Vma::mm_map_to_gpu`. -/
def vmaMapToGpu (aperture : Aperture) (s : State) (nodes_to_map : Option (Words × ℕ))
    (behind : Words) (answer : DriverAnswer) : State × ℤ :=
  -- The mapping of user memory does not change: it is only counted.
  if s.object.userptr ∧ s.object.mapping_count ≠ 0 then
    ({ s with
        object := { s.object with mapping_count := s.object.mapping_count + 1 }
        balance := s.balance + 1 }, 0)
  else
    let args := idsToMap aperture s.object nodes_to_map behind
    let n_success := answer.nSuccess args.2
    ({ object := (s.object.addDeviceIdsToMappedArray args.1 (4 * n_success)).setMappingCount 1
       mapped_on := s.mapped_on ∪ (args.1.take n_success).toFinset
       balance := if answer.ret = 0 then s.balance + 1 else s.balance }, answer.ret)

/-- `Vma::mm_unmap_from_gpu`; the list comes with its size in bytes. -/
def vmaUnmapFromGpu (s : State) (device_ids_array : Option (Words × ℕ))
    (answer : DriverAnswer) : State × ℤ :=
  if s.object.userptr ∧ 1 < s.object.mapping_count then
    ({ s with
        object := { s.object with mapping_count := s.object.mapping_count - 1 }
        balance := s.balance - 1 }, 0)
  else
    let balance := if answer.ret = 0 then s.balance - 1 else s.balance
    match device_ids_array.filter fun ids => 0 < ids.2 with
    | some (ids, size) =>
      let n_success := answer.nSuccess (size / 4)
      ({ object :=
          (s.object.removeDeviceIdsFromMappedArray (some ids) (4 * n_success)).setMappingCount 0
         mapped_on := s.mapped_on \ (ids.take n_success).toFinset
         balance }, answer.ret)
    | none =>
      if 0 < s.object.mappedDeviceIdArraySize then
        let n_success := answer.nSuccess (s.object.mappedDeviceIdArraySize / 4)
        ({ object :=
            (s.object.removeDeviceIdsFromMappedArray none (4 * n_success)).setMappingCount 0
           mapped_on := s.mapped_on \ (s.object.mapped_device_id_array.take n_success).toFinset
           balance }, answer.ret)
      else (s, 0)

/-- `MemMgr::mm_map_to_gpu` of the object; user memory takes the way of `mm_map_to_gpu_userptr`,
which is the same. -/
def mmMapToGpu (aperture : Aperture) (s : State) (behind : Words) (answer : DriverAnswer) :
    State × ℤ :=
  if aperture.cpuvm then (s, 0) else s.vmaMapToGpu aperture none behind answer

/-- `MemMgr::mm_unmap_from_gpu` of the object. -/
def mmUnmapFromGpu (aperture : Aperture) (s : State) (answer : DriverAnswer) : State × ℤ :=
  if aperture.cpuvm then (s, 0) else s.vmaUnmapFromGpu none answer

/-! ### Mapping a list -/

/-- What lies behind the arrays that `mm_map_to_gpu_nodes` and the functions it calls read. -/
structure Behind where
  nodes_to_map : Words
  registered : Words
  temp_node_id_array : Words
  map_node_id_array : Words

/-- `registered_node_id_array`, with its size. -/
def registeredNodeIdArray (aperture : Aperture) (object : MemObj) : List ℕ × ℕ :=
  if 0 < object.registered_device_id_array_size ∧ object.registered_device_id_array ≠ [] then
    (object.registered_device_id_array, object.registered_device_id_array_size)
  else (aperture.all_gpu_id_array, aperture.all_gpu_id_array_size)

/-- All nodes to map are registered, as `mm_map_to_gpu_nodes` verifies it. -/
def allRegistered (aperture : Aperture) (object : MemObj) (nodes : List ℕ) (behind : Behind) :
    Bool :=
  let registered := registeredNodeIdArray aperture object
  nodes.all fun node => idInArray node (registered.1 ++ₛ behind.registered) registered.2

/-- `temp_node_id_array`: the mapped nodes that are not among the nodes to map. -/
def tempNodeIdArray (object : MemObj) (nodes : List ℕ) (behind : Behind) : List ℕ :=
  object.mappedDeviceIds.filter fun id =>
    !idInArray id (nodes ++ₛ behind.nodes_to_map) (4 * nodes.length)

/-- `map_node_id_array`: the nodes to map that are not mapped already. -/
def mapNodeIdArray (mapped_device_id_array : List ℕ) (nodes : List ℕ) : List ℕ :=
  nodes.filter fun node => node ∉ mapped_device_id_array

/-- The end of `mm_map_to_gpu_nodes`: the nodes that are not mapped yet are. -/
def mapRest (aperture : Aperture) (s : State) (nodes : List ℕ) (behind : Behind)
    (answer : DriverAnswer) : State × ℤ :=
  let map := mapNodeIdArray s.object.mapped_device_id_array nodes
  if map = [] then (s, deviceStatusSuccess)
  else
    let r := s.vmaMapToGpu aperture (some (map ++ₛ behind.map_node_id_array, 4 * map.length))
      behind.registered answer
    (r.1, if r.2 ≠ 0 then deviceStatusError else deviceStatusSuccess)

/-- `MemMgr::mm_map_to_gpu_nodes` of the object. -/
def mmMapToGpuNodes (aperture : Aperture) (s : State) (nodes : List ℕ) (behind : Behind)
    (unmapAnswer mapAnswer : DriverAnswer) : State × ℤ :=
  if nodes = [] then (s, deviceStatusInvalidParameter)
  else if aperture.cpuvm ∨ !aperture.is_cpu_accessible_ then (s, deviceStatusError)
  else if s.object.userptr then
    let r := s.vmaMapToGpu aperture none behind.registered mapAnswer
    (r.1, if r.2 ≠ 0 then deviceStatusError else deviceStatusSuccess)
  else if !allRegistered aperture s.object nodes behind then (s, deviceStatusError)
  else
    let temp := tempNodeIdArray s.object nodes behind
    if temp = [] then s.mapRest aperture nodes behind mapAnswer
    else
      let r := s.vmaUnmapFromGpu (some (temp ++ₛ behind.temp_node_id_array, 4 * temp.length))
        unmapAnswer
      if r.2 ≠ deviceStatusSuccess then r
      else r.1.mapRest aperture nodes behind mapAnswer

/-! ### The calls -/

/-- A call, with what lies behind the arrays it reads and what the driver answers. -/
inductive Call
  | mapToGpu (behind : Words) (answer : DriverAnswer)
  | unmapFromGpu (answer : DriverAnswer)
  | mapToGpuNodes (nodes : List ℕ) (behind : Behind) (unmapAnswer mapAnswer : DriverAnswer)

/-- A call leads to this state, and returns this. -/
def call (aperture : Aperture) (s : State) : Call → State × ℤ
  | .mapToGpu behind answer => s.mmMapToGpu aperture behind answer
  | .unmapFromGpu answer => s.mmUnmapFromGpu aperture answer
  | .mapToGpuNodes nodes behind unmapAnswer mapAnswer =>
    s.mmMapToGpuNodes aperture nodes behind unmapAnswer mapAnswer

/-- The step of a call. -/
def Step (aperture : Aperture) (s : State) (c : Call) (t : State) : Prop :=
  t = (s.call aperture c).1

end State

end Codrive.Mapping
