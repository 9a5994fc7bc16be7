/-
# Allocating and releasing the objects of an aperture

`mm_allocate_device`, `mm_allocate_memory_object`, `release` and `vm_remove_object` of
`src/src/device/Vma.cpp`.  An object takes an area of the aperture, a handle of the driver and an
entry of the pool.

| here | source |
|---|---|
| `handles` | the handles of the driver, with the buffer each of them is for |
| `none` as an answer of the driver | an error |
| `some` of `errno` as an answer to `cmd_free_memory` | an error |

The address and the flags the driver is told decide nothing here.  What follows the `return` of
`mm_allocate_memory_object` is never reached.
-/

import Codrive.Aperture.AreaSpec

namespace Codrive.Aperture

open Codrive.Basis Codrive.Device

/-- An aperture, and the handles of the driver. -/
structure Space where
  vma : Vma
  handles : ℕ → Option ℕ

/-- `EINVAL`. -/
def einval : ℤ := 22

namespace Space

/-- `vm_remove_object`. -/
def vmRemoveObject (s : Space) (obj : MemObj) : Space :=
  { s with vma := { s.vma with mem_objs := s.vma.mem_objs.erase obj } }

/-- `cmd_free_memory`. -/
def cmdFreeMemory (s : Space) (handle : ℕ) (answer : Option ℕ) : Space :=
  match answer with
  | some _ => s
  | none => { s with handles := Function.update s.handles handle none }

/-- `release_area`. -/
def releaseArea (ndebug : Bool) (s : Space) (address size : ℕ) : Option Space :=
  (s.vma.releaseArea ndebug address size).map fun vma => { s with vma }

/-- `Vma::release`. -/
def release (ndebug : Bool) (s : Space) (object : Option MemObj) (free : Option ℕ) :
    Option (ℤ × Space) :=
  match object with
  | none => some (-einval, s)
  | some obj =>
    match free with
    | some errno => some (-errno, s)
    | none => do
      let s ← (s.cmdFreeMemory obj.handle none).releaseArea ndebug obj.start obj.size
      return (0, s.vmRemoveObject obj)

/-! ### What an error leaves -/

/-- The reserved areas, the pool and the handles are as before. -/
structure Unchanged (s t : Space) : Prop where
  areas : s.vma.SameAreas t.vma
  pool : t.vma.mem_objs = s.vma.mem_objs
  handles : t.handles = s.handles

variable {ndebug : Bool} {s : Space} {mem size address flags : ℕ} {mmap_offset os : Option ℕ}
  {driver : Option AllocAnswer}

theorem Unchanged.refl (s : Space) : Unchanged s s := ⟨.refl _, rfl, rfl⟩

end Space

end Codrive.Aperture
