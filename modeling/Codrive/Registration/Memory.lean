/-
# Registering memory

`mm_register_memory` and `mm_deregister_memory` of `src/src/device/MemMgr.cpp`, and their callers
`RegisterMemory`, `RegisterMemoryToNodes` and `DeregisterMemory` of `src/src/device/Device.cpp`.

A caller that registers memory to nodes allocates an array of node ids, hands it over, and frees it
itself when the registration fails.  Besides the objects, the state keeps the books: which arrays
were handed over and how often each was freed, how many registrations of an object succeeded more
than deregistrations did, and whether a lock was ever released that its path had not acquired.

| here | source |
|---|---|
| a number as an object, an array, a lock | its address; the lock of an aperture is named after it |
| `none` as an object | one that was freed |
| `Lookup` | what `vm_find_object` finds, and the apertures it locks while it looks |
| `UserMemory` | whether `mm_register_user_memory` makes an object, and how often it holds the lock |
| `released` | whether the driver frees the memory of the object in `release` |

`vm_find_object` and the helpers lock an aperture for a block.  `release` frees the object with
`free`, which does not run `~MemObj`: what the object points to stays.
-/

import Mathlib.Data.Int.Notation
import Mathlib.Data.Nat.Notation
import Mathlib.Logic.Function.Basic

namespace Codrive.Registration

/-- A `gpu_id_array`, with its bytes. -/
structure NodeArray where
  id : ℕ
  bytes : List ℕ
  deriving DecidableEq

/-- `MemObj`. -/
structure MemObj where
  aperture : ℕ
  userptr : Bool := false
  metadata : Bool := false
  is_imported_kfd_bo : Bool := false
  registration_count : ℕ := 0
  registered_device_id_array : Option NodeArray := none
  registered_device_id_array_size : ℕ := 0
  /-- `registered_node_id_array` is there. -/
  registered_node_id_array : Bool := false
  deriving DecidableEq

/-- `device_status_t`, as far as it is returned here. -/
inductive DeviceStatus
  | success
  | error
  | invalidParameter
  | memoryAlreadyRegistered
  | memoryNotRegistered
  deriving DecidableEq

/-! ### Locks -/

/-- What a path does to the locks. -/
inductive LockEvent
  | acquire (lock : ℕ)
  | release (lock : ℕ)
  deriving DecidableEq

/-- The locks that are held after a path, unless it releases one that it does not hold. -/
def locked : List ℕ → List LockEvent → Option (List ℕ)
  | held, [] => some held
  | held, .acquire lock :: path => locked (lock :: held) path
  | held, .release lock :: path => if lock ∈ held then locked (held.erase lock) path else none

/-- Each lock is released exactly as often as it was acquired, and after that. -/
def Balanced (path : List LockEvent) : Prop := locked [] path = some []

instance (path : List LockEvent) : Decidable (Balanced path) :=
  inferInstanceAs (Decidable (_ = _))

/-- `ScopedAcquire`, once for each of these locks. -/
def scopedAcquire (locks : List ℕ) : List LockEvent :=
  locks.flatMap fun lock => [.acquire lock, .release lock]

/-! ### The process -/

/-- What `vm_find_object` does. -/
structure Lookup where
  object : Option ℕ := none
  apertures : List ℕ := []

/-- What `mm_register_user_memory` does. -/
structure UserMemory where
  created : Bool
  locks : ℕ

/-- What does not change. -/
structure System where
  is_dgpu : Bool
  dgpu_aperture : ℕ
  cpuvm_aperture : ℕ

/-- The objects, and the books. -/
structure State where
  objects : ℕ → Option MemObj
  next : ℕ
  /-- How many arrays were handed over. -/
  handed : ℕ := 0
  /-- How often an array was freed. -/
  freed : ℕ → ℕ := fun _ => 0
  /-- Registrations of an object that succeeded, less deregistrations that did. -/
  balance : ℕ → ℤ := fun _ => 0
  /-- The object is, or was, a user pointer. -/
  userptrs : ℕ → Bool
  /-- A deregistration has brought the balance of the object to zero. -/
  returned : ℕ → Bool := fun _ => false
  /-- Every path so far was balanced. -/
  locksOk : Bool := true

namespace State

/-- `free` of an array. -/
def freeArray (s : State) (array : Option NodeArray) : State :=
  match array with
  | none => s
  | some a => { s with freed := Function.update s.freed a.id (s.freed a.id + 1) }

/-- The object has become this one. -/
def setObject (s : State) (k : ℕ) (object : MemObj) : State :=
  { s with objects := Function.update s.objects k (some object) }

/-- `memcmp(a, b, size)` finds a difference. -/
def differ (a : Option NodeArray) (b : Option NodeArray) (size : ℕ) : Bool :=
  ((a.map NodeArray.bytes).getD []).take size ≠ ((b.map NodeArray.bytes).getD []).take size

/-- `mm_register_memory` from where the object is there, which it takes for locked. -/
def registerFound (s : State) (k : ℕ) (object : MemObj) (gpu_id_array : Option NodeArray)
    (gpu_id_array_size : ℕ) : DeviceStatus × State × List LockEvent :=
  if 0 < object.registered_device_id_array_size then
    -- Multiple registration is allowed, but not changing nodes.
    if gpu_id_array_size ≠ object.registered_device_id_array_size ∨
        differ object.registered_device_id_array gpu_id_array gpu_id_array_size then
      (.memoryAlreadyRegistered, s, [.release object.aperture])
    else
      -- The new array is deleted, the existing one kept.
      (.memoryAlreadyRegistered, s.freeArray gpu_id_array, [.release object.aperture])
  else if 0 < gpu_id_array_size then
    (.success, s.setObject k
      { object with
        registered_device_id_array := gpu_id_array
        registered_device_id_array_size := gpu_id_array_size
        registered_node_id_array := false }, [.release object.aperture])
  else (.success, s, [.release object.aperture])

/-- `mm_register_user_memory`: the object it makes is registered once. -/
def newUserMemory (sys : System) (s : State) : State :=
  { s with
    objects := Function.update s.objects s.next
      (some { aperture := sys.dgpu_aperture, userptr := true, registration_count := 1 })
    next := s.next + 1
    userptrs := Function.update s.userptrs s.next true }

/-- `mm_register_memory`; the object that was registered comes with the result. -/
def mmRegisterMemory (sys : System) (s : State) (found : Lookup)
    (gpu_id_array : Option NodeArray) (gpu_id_array_size : ℕ) (user : UserMemory) :
    DeviceStatus × Option ℕ × State × List LockEvent :=
  if 0 < gpu_id_array_size ∧ gpu_id_array = none then (.invalidParameter, none, s, [])
  else
    let locks := scopedAcquire found.apertures
    match found.object.bind fun k => (s.objects k).map fun object => (k, object) with
    | none =>
      if !sys.is_dgpu then (.success, none, s, locks)
      else
        let locks := locks ++ scopedAcquire (List.replicate user.locks sys.dgpu_aperture)
        if !user.created then (.error, none, s, locks)
        else
          let k := s.next
          let t := s.newUserMemory sys
          if gpu_id_array_size = 0 then (.success, some k, t, locks)
          else
            let object : MemObj :=
              { aperture := sys.dgpu_aperture, userptr := true, registration_count := 1 }
            let (status, t, path) := t.registerFound k object gpu_id_array gpu_id_array_size
            (status, some k, t, locks ++ .acquire sys.dgpu_aperture :: path)
    | some (k, object) =>
      let object :=
        if object.userptr then { object with registration_count := object.registration_count + 1 }
        else object
      let (status, t, path) :=
        (s.setObject k object).registerFound k object gpu_id_array gpu_id_array_size
      (status, some k, t, locks ++ path)

/-- `Vma::release` of the object. -/
def release (s : State) (k : ℕ) (object : MemObj) (released : Bool) : State × List LockEvent :=
  (if released then { s with objects := Function.update s.objects k none } else s,
    scopedAcquire [object.aperture])

/-- `mm_deregister_memory`; the object that was deregistered comes with the result. -/
def mmDeregisterMemory (sys : System) (s : State) (found : Lookup) (released : Bool) :
    DeviceStatus × Option ℕ × State × List LockEvent :=
  let locks := scopedAcquire found.apertures
  match found.object.bind fun k => (s.objects k).map fun object => (k, object) with
  | none => (if sys.is_dgpu then .memoryNotRegistered else .success, none, s, locks)
  | some (k, object) =>
    if object.aperture = sys.cpuvm_aperture then (.success, none, s, locks)
    else if 1 < object.registration_count then
      (.success, some k,
        s.setObject k { object with registration_count := object.registration_count - 1 }, locks)
    else if object.metadata ∨ object.userptr ∨ object.is_imported_kfd_bo then
      let (t, path) := s.release k object released
      (.success, some k, t, locks ++ path)
    else if object.registered_device_id_array = none ∨
        object.registered_device_id_array_size = 0 then
      (.memoryNotRegistered, none, s, locks)
    else
      (.success, some k,
        (s.freeArray object.registered_device_id_array).setObject k
          { object with
            registered_device_id_array := none
            registered_device_id_array_size := 0
            registered_node_id_array := false
            registration_count := 0 }, locks)

/-! ### The calls -/

/-- A call, with what its steps do. -/
inductive Call
  /-- The bytes of the array that is handed over, if there is one. -/
  | register (found : Lookup) (gpu_id_array : Option (List ℕ)) (gpu_id_array_size : ℕ)
      (user : UserMemory)
  | deregister (found : Lookup) (released : Bool)

/-- The books say whether the path was balanced. -/
def book (s : State) (path : List LockEvent) : State :=
  { s with locksOk := s.locksOk && decide (Balanced path) }

/-- One more registration of the object succeeded. -/
def registered (s : State) (k : ℕ) : State :=
  { s with balance := Function.update s.balance k (s.balance k + 1) }

/-- One more deregistration of the object succeeded. -/
def deregistered (s : State) (k : ℕ) : State :=
  { s with
    balance := Function.update s.balance k (s.balance k - 1)
    returned := Function.update s.returned k (s.returned k || decide (s.balance k = 1)) }

/-- `RegisterMemory` and `RegisterMemoryToNodes`: the caller frees the array of a registration that
fails. -/
def register (sys : System) (s : State) (found : Lookup) (gpu_id_array : Option (List ℕ))
    (gpu_id_array_size : ℕ) (user : UserMemory) : State :=
  let array := gpu_id_array.map (NodeArray.mk s.handed)
  let s := { s with handed := s.handed + array.toList.length }
  let r := s.mmRegisterMemory sys found array gpu_id_array_size user
  let t := r.2.2.1.book r.2.2.2
  if r.1 = .success then
    match r.2.1 with
    | some k => t.registered k
    | none => t
  else t.freeArray array

/-- `DeregisterMemory`. -/
def deregister (sys : System) (s : State) (found : Lookup) (released : Bool) : State :=
  let r := s.mmDeregisterMemory sys found released
  let t := r.2.2.1.book r.2.2.2
  if r.1 = .success then
    match r.2.1 with
    | some k => t.deregistered k
    | none => t
  else t

/-- A call leads to this state. -/
def call (sys : System) (s : State) : Call → State
  | .register found gpu_id_array gpu_id_array_size user =>
    s.register sys found gpu_id_array gpu_id_array_size user
  | .deregister found released => s.deregister sys found released

/-- The step of a call. -/
def Step (sys : System) (s : State) (c : Call) (t : State) : Prop := t = s.call sys c

end State

end Codrive.Registration
