/-
# The allocation map of the runtime

`AllocateMemory`, `FreeMemory`, `RegisterReleaseNotifier`, `DeregisterReleaseNotifier` and `PtrInfo`
of `src/src/drive/Runtime.cpp`.

| here | source |
|---|---|
| `AllocationMap` | `allocation_map_`; `floor?` is the entry before `upper_bound` |
| a number | a pointer, a region or a callback |
| `Answer` | what `region->Allocate` returns, and what it writes to `*address` and `size` |
| `HsaPointerInfo` | what `QueryPointerInfo` writes; `Node` and the lists of nodes are left out |
| `ndebug` | assertions are compiled out; `none` as a result is a failed one |

`FreeMemory` lets go of the lock while it calls the notifiers, which may call the runtime again, as
other threads may.  A call that has come that far is a `FreeCall`, and each notifier it calls is a
step.  Each other call is one step, since it holds the lock.  The owner and the agents that
`PtrInfo` lists are left out; the caller sees as much of its answer as `info->size` says.
-/

import Codrive.Basis.Machine
import Codrive.Basis.OrderedMap
import Codrive.Basis.SwapRemove
import Mathlib.Algebra.Order.Group.Multiset

namespace Codrive.Runtime

open Codrive.Basis

/-- `status_t`. -/
inductive Status
  | success
  | error
  | invalidArgument
  | invalidAllocation
  | outOfResources
  deriving DecidableEq

/-- `AllocationRegion::notifier_t`. -/
structure Notifier where
  ptr : ℕ
  callback : ℕ
  user_data : ℕ
  deriving DecidableEq

/-- `AllocationRegion`. -/
structure AllocationRegion where
  region : Option ℕ
  size : ℕ
  user_ptr : ℕ := 0
  notifiers : Option (List Notifier) := none

abbrev AllocationMap := OrderedMap ℕ AllocationRegion

/-- What a region answers to `Allocate`. -/
structure Answer where
  status : Status
  address : ℕ
  size : ℕ

/-- The pointer is in the entry. -/
def inRange (ptr : ℕ) (mem : ℕ × AllocationRegion) : Bool :=
  mem.1 ≤ ptr && ptr < u64 (mem.1 + mem.2.size)

variable (ndebug : Bool) (m : AllocationMap)

/-- `AllocateMemory`. -/
def allocateMemory (region : ℕ) (answer : Answer) : Status × AllocationMap :=
  if answer.status = .success then
    (answer.status, m.set answer.address { region := some region, size := answer.size })
  else (answer.status, m)

/-- What the locked part of `FreeMemory` comes to. -/
inductive Locked
  /-- It returns. -/
  | returns (status : Status)
  /-- The allocation has left the map. -/
  | frees (region size : ℕ) (notifiers : Option (List Notifier))

/-- `FreeMemory`, as long as it holds the lock. -/
def freeMemory (ptr : ℕ) : Option (Locked × AllocationMap) :=
  if ptr = 0 then some (.returns .success, m)
  else
    match m.find? ptr with
    | none => (assert ndebug false).map fun _ => (.returns .invalidAllocation, m)
    | some it =>
      match it.region with
      | none => (assert ndebug false).map fun _ => (.returns .invalidArgument, m)
      | some region => some (.frees region it.size it.notifiers, m.erase ptr)

/-- `RegisterReleaseNotifier`. -/
def registerReleaseNotifier (ptr callback user_data : ℕ) : Status × AllocationMap :=
  match m.floor? ptr with
  | none => (.invalidAllocation, m)
  | some mem =>
    match mem.2.region with
    | none => (.invalidAllocation, m)
    | some _ =>
      if inRange ptr mem then
        let notifiers := mem.2.notifiers.getD []
        (.success, m.set mem.1
          { mem.2 with notifiers := some (notifiers ++ [⟨ptr, callback, user_data⟩]) })
      else (.invalidAllocation, m)

/-- The notifier is the one of this pointer and callback. -/
def Notifier.matches (ptr callback : ℕ) (n : Notifier) : Bool :=
  n.ptr = ptr && n.callback = callback

/-- `DeregisterReleaseNotifier`. -/
def deregisterReleaseNotifier (ptr callback : ℕ) : Status × AllocationMap :=
  match m.floor? ptr with
  | none => (.invalidArgument, m)
  | some mem =>
    if inRange ptr mem then
      match mem.2.notifiers with
      | none => (.invalidArgument, m)
      | some notifiers =>
        let r := removeWhere (Notifier.matches ptr callback) notifiers.length 0 notifiers false
        (if r.2 then .success else .invalidArgument,
          m.set mem.1 { mem.2 with notifiers := some r.1 })
    else (.invalidArgument, m)

/-! ### Queries -/

/-- `HSA_POINTER_TYPE`, which is `hsa_amd_pointer_type_t` as well. -/
inductive PointerType
  | unknown
  | allocated
  | registeredUser
  | registeredGraphics
  | registeredShared
  deriving DecidableEq

/-- `HsaPointerInfo`. -/
structure HsaPointerInfo where
  type : PointerType
  CPUAddress : ℕ
  GPUAddress : ℕ
  SizeInBytes : ℕ
  UserData : ℕ

/-- `hsa_amd_pointer_info_t`. -/
structure PointerInfo where
  type : PointerType
  agentBaseAddress : ℕ
  hostBaseAddress : ℕ
  sizeInBytes : ℕ
  userData : ℕ

/-- `PtrInfoBlockData`. -/
structure PtrInfoBlockData where
  base : ℕ
  length : ℕ

/-- `PtrInfo`: the information, and the block it is from.  `err` says whether `QueryPointerInfo`
failed. -/
def ptrInfo (ptr size : ℕ) (err : Bool) (thunkInfo : HsaPointerInfo) (block_info : Bool) :
    Option (Status × Option (PointerInfo × PtrInfoBlockData)) :=
  if size = 0 then some (.invalidArgument, none)
  else do
    assert ndebug (!err || thunkInfo.type = .unknown)
    let retInfo : PointerInfo :=
      { type := thunkInfo.type
        agentBaseAddress := thunkInfo.GPUAddress
        hostBaseAddress := thunkInfo.CPUAddress
        sizeInBytes := thunkInfo.SizeInBytes
        userData := thunkInfo.UserData }
    assert ndebug (!block_info || retInfo.hostBaseAddress ≠ 0 || retInfo.agentBaseAddress ≠ 0)
    let block : PtrInfoBlockData :=
      { base :=
          if retInfo.hostBaseAddress ≠ 0 then retInfo.hostBaseAddress
          else retInfo.agentBaseAddress
        length := retInfo.sizeInBytes }
    let retInfo :=
      match m.floor? ptr with
      | none => retInfo
      | some fragment =>
        if inRange ptr fragment then
          { retInfo with
            agentBaseAddress := fragment.1
            hostBaseAddress := fragment.1
            sizeInBytes := fragment.2.size
            userData := fragment.2.user_ptr }
        else retInfo
    return (.success, some (retInfo, block))

/-! ### Calls, step by step -/

/-- Memory that a region has handed out. -/
structure Block where
  region : ℕ
  address : ℕ
  size : ℕ
  deriving DecidableEq

/-- What regions may answer, when so much is handed out: to a region, a size and flags. -/
abbrev Regions := Multiset Block → ℕ → ℕ → ℕ → Answer → Prop

/-- Where a call to `FreeMemory` is, that has taken an allocation out of the map. -/
inductive Phase
  | notifying
  /-- A notifier has thrown, and the call is over. -/
  | thrown
  /-- The region has the memory back. -/
  | released
  deriving DecidableEq

/-- A call to `FreeMemory` that has taken an allocation out of the map. -/
structure FreeCall where
  ptr : ℕ
  region : ℕ
  size : ℕ
  notifiers : List Notifier
  /-- The notifiers it has called. -/
  called : List Notifier := []
  phase : Phase

/-- The memory that the call frees. -/
def FreeCall.block (f : FreeCall) : Block := ⟨f.region, f.ptr, f.size⟩

/-- A notifier is called. -/
def FreeCall.call (f : FreeCall) (n : Notifier) (throws : Bool) : FreeCall :=
  { f with called := f.called ++ [n], phase := if throws then .thrown else .notifying }

/-- The region gets the memory back. -/
def FreeCall.release (f : FreeCall) : FreeCall := { f with phase := .released }

/-- The runtime, and what the regions have handed out and got back. -/
structure State where
  allocation_map : AllocationMap := .empty
  frees : List FreeCall := []
  handed : Multiset Block := 0
  returned : Multiset Block := 0

/-- What the regions have handed out and not got back. -/
def State.held (s : State) : Multiset Block := s.handed - s.returned

/-- A call, or a part of one. -/
inductive Op
  | allocate (region size flags : ℕ) (answer : Answer)
  /-- `FreeMemory` until it returns or calls a notifier; `answer` is what `region->Free` returns. -/
  | free (ptr : ℕ) (answer : Status)
  /-- The call number `i` calls its next notifier. -/
  | notify (i : ℕ) (throws : Bool)
  /-- The call number `i` comes to its end. -/
  | release (i : ℕ) (answer : Status)
  | register (ptr callback user_data : ℕ)
  | deregister (ptr callback : ℕ)
  | query (ptr size : ℕ) (err : Bool) (thunkInfo : HsaPointerInfo) (block_info : Bool)

/-- What a call, or a part of one, comes to. -/
inductive Result
  | status (status : Status)
  /-- `FreeMemory` calls notifiers. -/
  | notifying
  | called (n : Notifier)
  | info (status : Status) (info : Option PointerInfo)

/-- The memory a region answers with. -/
def Answer.handed (region : ℕ) (answer : Answer) : Multiset Block :=
  if answer.status = .success then {⟨region, answer.address, answer.size⟩} else 0

/-- **The steps of the runtime.** -/
inductive Step (R : Regions) (ndebug : Bool) : State → Op × Result → State → Prop
  | allocate {s region size flags answer} (h : R s.held region size flags answer) :
    Step R ndebug s (.allocate region size flags answer,
        .status (allocateMemory s.allocation_map region answer).1)
      { s with
        allocation_map := (allocateMemory s.allocation_map region answer).2
        handed := s.handed + answer.handed region }
  | returns {s ptr answer status m}
      (h : freeMemory ndebug s.allocation_map ptr = some (.returns status, m)) :
    Step R ndebug s (.free ptr answer, .status status) { s with allocation_map := m }
  | free {s ptr answer region size m}
      (h : freeMemory ndebug s.allocation_map ptr = some (.frees region size none, m)) :
    Step R ndebug s (.free ptr answer, .status answer)
      { s with
        allocation_map := m
        frees := s.frees ++ [{ ptr, region, size, notifiers := [], phase := .released }]
        returned := ⟨region, ptr, size⟩ ::ₘ s.returned }
  | freeNotifying {s ptr answer region size notifiers m}
      (h : freeMemory ndebug s.allocation_map ptr =
        some (.frees region size (some notifiers), m)) :
    Step R ndebug s (.free ptr answer, .notifying)
      { s with
        allocation_map := m
        frees := s.frees ++ [{ ptr, region, size, notifiers, phase := .notifying }] }
  | notify {s i throws f n} (h : s.frees[i]? = some f) (hf : f.phase = .notifying)
      (hn : f.notifiers[f.called.length]? = some n) :
    Step R ndebug s (.notify i throws, .called n)
      { s with frees := s.frees.set i (f.call n throws) }
  | release {s i answer f} (h : s.frees[i]? = some f) (hf : f.phase = .notifying)
      (hn : f.notifiers[f.called.length]? = none) :
    Step R ndebug s (.release i answer, .status answer)
      { s with
        frees := s.frees.set i f.release
        returned := f.block ::ₘ s.returned }
  | register {s ptr callback user_data} :
    Step R ndebug s (.register ptr callback user_data,
        .status (registerReleaseNotifier s.allocation_map ptr callback user_data).1)
      { s with
        allocation_map := (registerReleaseNotifier s.allocation_map ptr callback user_data).2 }
  | deregister {s ptr callback} :
    Step R ndebug s (.deregister ptr callback,
        .status (deregisterReleaseNotifier s.allocation_map ptr callback).1)
      { s with allocation_map := (deregisterReleaseNotifier s.allocation_map ptr callback).2 }
  | query {s ptr size err thunkInfo block_info status info}
      (h : ptrInfo ndebug s.allocation_map ptr size err thunkInfo block_info =
        some (status, info)) :
    Step R ndebug s (.query ptr size err thunkInfo block_info,
      .info status (info.map Prod.fst)) s

end Codrive.Runtime
