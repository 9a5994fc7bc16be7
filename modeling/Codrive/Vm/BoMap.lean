/-
# Mappings of buffers in a VM

`opu_vm_bo_map` and `opu_vm_bo_unmap` (`src/src/cmdio/linux/opu_vm_mgr.c`, under the prefix
`amdgpu_`), and the callers of `src/src/cmdio/linux/opu_bo.c`, for the buffers of a device and the
VM of one file.

| here | source |
|---|---|
| `State.mem` | the records `struct opu_bo_va`, by number; each one embeds its mapping |
| `State.lists` | `obo->bo_va` of each buffer |
| `State.va` | the records whose mapping is linked into `vm->va` |
| `Result` | what a call returns; nothing where it does not, or breaks the tree |
| `alloc : Bool` | whether `kvzalloc` has memory |

Two lines of `opu_bo.c` compile and do not do what they are there for: `bo_va->vm - &fpriv->vm;`
where the record is made, and `mutex_lock(&obo->lock);` a second time where the lock should be given
back.  `Reading` says how they are read: `Reading.asWritten`, or as they are meant.

`opu_vm_add_freed_mapping` has no body in the repository; it takes a record out of use.  The update
of the page tables and its flag `cleared` are left out.
-/

import Codrive.Basis.Machine
import Mathlib.Logic.Function.Basic

namespace Codrive.Vm

open Codrive.Basis

/-- The error numbers here. -/
inductive Errno where
  | enoent | enomem | einval
  deriving DecidableEq, Repr

/-- `INVALID_ADDR`. -/
abbrev INVALID_ADDR : ℕ := 0xFFFFFFFFFFFFFFFF

/-- `OPU_PAGE4K_SIZE`. -/
abbrev OPU_PAGE4K_SIZE : ℕ := 1 <<< 12

/-- `OPU_PAGE4K_MASK`. -/
abbrev OPU_PAGE4K_MASK : ℕ := OPU_PAGE4K_SIZE - 1

/-- `struct opu_bo_va_mapping`, in pages. -/
structure Mapping where
  start : ℕ := 0
  last : ℕ := 0
  offset : ℕ := 0
  flags : ℕ := 0
  deriving DecidableEq, Repr

/-- `struct opu_bo_va`; `vm` is whether it points to the VM. -/
structure BoVa where
  bo : ℕ
  vm : Bool
  bo_va_mapping : Mapping
  deriving DecidableEq, Repr

/-- `struct opu_bo`, without its list. -/
structure Obo where
  size : ℕ
  size_lt : size < 2 ^ 64
  is_physical : Bool

/-- `vm_caps` of the device. -/
structure Caps where
  support_vm_pt : Bool
  vmid0_only : Bool

/-- A device with its buffers. -/
structure Device where
  caps : Caps
  obos : ℕ → Obo

/-- How two lines are read: `bo_va->vm` is assigned, and the lock is given back. -/
structure Reading where
  assigns : Bool
  unlocks : Bool

/-- The two lines as they stand. -/
def Reading.asWritten : Reading := ⟨false, false⟩

/-- The records, the lists and the tree; `next` is the number of the next record. -/
structure State where
  mem : ℕ → BoVa := fun _ => ⟨0, false, {}⟩
  next : ℕ := 0
  lists : ℕ → List ℕ := fun _ => []
  va : List ℕ := []

/-- What a call returns, and the state after it. -/
abbrev Result := Option (Option Errno × State)

/-- The mapping of a record. -/
def State.mapping (s : State) (id : ℕ) : Mapping := (s.mem id).bo_va_mapping

/-- What is asked of `opu_vm_bo_map`, in bytes. -/
structure Request where
  saddr : ℕ
  offset : ℕ
  size : ℕ
  saddr_lt : saddr < 2 ^ 64
  offset_lt : offset < 2 ^ 64
  size_lt : size < 2 ^ 64

/-- `amdgpu_vm_it_iter_first` finds a node. -/
def State.vmItIterFirst (s : State) (start last : ℕ) : Option ℕ :=
  s.va.find? fun id => decide ((s.mapping id).start ≤ last ∧ start ≤ (s.mapping id).last)

/-- `opu_vm_bo_map`.  A record that is linked is not linked again: the tree would be broken. -/
def opuVmBoMap (dev : Device) (s : State) (id : ℕ) (r : Request) (flags : ℕ) : Result :=
  let bo := dev.obos (s.mem id).bo
  if r.saddr &&& OPU_PAGE4K_MASK ≠ 0 ∨ r.offset &&& OPU_PAGE4K_MASK ≠ 0 ∨ r.size = 0 ∨
      r.size &&& OPU_PAGE4K_MASK ≠ 0 then some (some .einval, s)
  else
    let eaddr := u64 (r.saddr + r.size - 1)
    if r.saddr ≥ eaddr ∨ u64 (r.offset + r.size) > bo.size then some (some .einval, s)
    else
      let saddr := r.saddr / OPU_PAGE4K_SIZE
      let eaddr := eaddr / OPU_PAGE4K_SIZE
      if (s.vmItIterFirst saddr eaddr).isSome then some (some .einval, s)
      else if id ∈ s.va then none
      else some (none, { s with
        mem := Function.update s.mem id
          { s.mem id with bo_va_mapping := ⟨saddr, eaddr, r.offset, flags⟩ }
        va := id :: s.va })

/-- `opu_vm_bo_unmap`.  A record that is not linked is not taken out: the tree would be broken. -/
def opuVmBoUnmap (s : State) (id : ℕ) : Result :=
  if id ∈ s.va then some (none, { s with va := s.va.erase id }) else none

/-- The loop that looks for the record of the VM in a buffer's list. -/
def State.findBoVa (s : State) (o : ℕ) : Option ℕ := (s.lists o).find? fun id => (s.mem id).vm

/-- The request of a buffer at an address, from its start to its end. -/
def Device.request (dev : Device) (o : ℕ) (va : Fin (2 ^ 64)) : Request :=
  ⟨va, 0, (dev.obos o).size, va.isLt, by decide, (dev.obos o).size_lt⟩

/-- `opu_bo_add_mapping`; `flags` are the `pte_flags` made of its flags. -/
def opuBoAddMapping (reading : Reading) (dev : Device) (s : State) (o : ℕ) (va : Fin (2 ^ 64))
    (flags : ℕ) : Result :=
  if !dev.caps.support_vm_pt then some (none, s)
  else if !reading.unlocks then none
  else
    match s.findBoVa o with
    | none => some (some .enoent, s)
    | some id => opuVmBoMap dev s id (dev.request o va) flags

/-- `opu_bo_remove_mapping`. -/
def opuBoRemoveMapping (dev : Device) (s : State) (o : ℕ) : Result :=
  if !dev.caps.support_vm_pt then some (none, s)
  else
    match s.findBoVa o with
    | none => some (some .enoent, s)
    | some id => opuVmBoUnmap s id

/-- The buffer has records in the VM. -/
def Device.mapped (dev : Device) (o : ℕ) : Bool :=
  dev.caps.support_vm_pt && !dev.caps.vmid0_only && !(dev.obos o).is_physical

/-- `opu_bo_gem_open_object`. -/
def opuBoGemOpenObject (reading : Reading) (dev : Device) (alloc : Bool) (s : State) (o : ℕ) :
    Result :=
  if dev.mapped o then
    if !alloc then some (some .enomem, s)
    else some (none, { s with
      mem := Function.update s.mem s.next ⟨o, reading.assigns, { start := INVALID_ADDR }⟩
      next := s.next + 1
      lists := Function.update s.lists o (s.next :: s.lists o) })
  else some (none, s)

/-- The loop of `opu_bo_gem_close_object`. -/
def closeLoop (dev : Device) (o : ℕ) : List ℕ → State → Option State
  | [], s => some s
  | id :: ids, s =>
    if (s.mem id).vm then
      let removed :=
        if (s.mapping id).start ≠ INVALID_ADDR then (opuBoRemoveMapping dev s o).map (·.2)
        else some s
      match removed with
      | none => none
      | some s => closeLoop dev o ids
          { s with lists := Function.update s.lists o ((s.lists o).erase id) }
    else closeLoop dev o ids s

/-- `opu_bo_gem_close_object`. -/
def opuBoGemCloseObject (dev : Device) (s : State) (o : ℕ) : Result :=
  if dev.mapped o then (closeLoop dev o (s.lists o) s).map (none, ·) else some (none, s)

end Codrive.Vm
