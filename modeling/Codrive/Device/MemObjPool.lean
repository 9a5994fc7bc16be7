/-
# The pool of memory objects

`AddrRange`, `AddrRangeCmp`, `MemObj` and `MemObjPool` of `src/src/device/inc/MemObj.h`: two maps
from address ranges to objects, by the address on the device and by the user pointer.

The comparator puts one range before another when it ends, one past its last byte, before the other
starts.  Ranges that touch are the same key.  Pointers are numbers, and `start + size` does not
wrap: the address after a range is one.

| here | source |
|---|---|
| `MemObj` | an object, of which the pool reads the ranges |
| a number | a position of an iterator of `address_set` |
| `none` | a null pointer |
-/

import Codrive.Basis.ComparatorMap

namespace Codrive.Device

open Codrive.Basis

/-- `AddrRange`. -/
structure AddrRange where
  start : ℕ
  size : ℕ
  deriving DecidableEq, Repr

/-- `AddrRangeCmp`. -/
def AddrRangeCmp (lhs rhs : AddrRange) : Prop := lhs.start + lhs.size < rhs.start

instance : DecidableRel AddrRangeCmp := fun lhs rhs =>
  inferInstanceAs (Decidable (lhs.start + lhs.size < rhs.start))

instance : IsStrictOrder AddrRange AddrRangeCmp where
  irrefl a h := by
    unfold AddrRangeCmp at h
    omega
  trans a b c h h' := by
    unfold AddrRangeCmp at h h' ⊢
    omega

/-- `MemObj`. -/
structure MemObj where
  start : ℕ
  size : ℕ
  handle : ℕ
  userptr : ℕ := 0
  userptr_size : ℕ := if userptr ≠ 0 then size else 0
  deriving DecidableEq, Repr

/-- `MemObj::range`. -/
def MemObj.range (obj : MemObj) : AddrRange := ⟨obj.start, obj.size⟩

/-- `MemObj::userptr_range`. -/
def MemObj.userptrRange (obj : MemObj) : AddrRange := ⟨obj.userptr, obj.userptr_size⟩

/-- `MemObjPool`. -/
structure MemObjPool where
  address_set : List (AddrRange × MemObj) := []
  userptr_set : List (AddrRange × MemObj) := []

namespace MemObjPool

open ComparatorMap

/-- `MemObjPool::insert`. -/
def insert (pool : MemObjPool) (obj : MemObj) : MemObjPool where
  address_set := ComparatorMap.insert AddrRangeCmp obj.range obj pool.address_set
  userptr_set :=
    if obj.userptr ≠ 0 then
      ComparatorMap.insert AddrRangeCmp obj.userptrRange obj pool.userptr_set
    else pool.userptr_set

/-- `MemObjPool::erase`. -/
def erase (pool : MemObjPool) (obj : MemObj) : MemObjPool where
  address_set := ComparatorMap.erase AddrRangeCmp obj.range pool.address_set
  userptr_set :=
    if obj.userptr ≠ 0 then ComparatorMap.erase AddrRangeCmp obj.userptrRange pool.userptr_set
    else pool.userptr_set

/-- `MemObjPool::find` of a range. -/
def findRange (pool : MemObjPool) (range : AddrRange) (is_userptr : Bool) : Option MemObj :=
  (find? AddrRangeCmp range (if is_userptr then pool.userptr_set else pool.address_set)).map (·.2)

/-- `MemObjPool::find` of an address. -/
def find (pool : MemObjPool) (address : ℕ) (is_userptr : Bool) : Option MemObj :=
  pool.findRange ⟨address, 0⟩ is_userptr

/-- `MemObjPool::begin`. -/
def begin (_pool : MemObjPool) : ℕ := 0

/-- `MemObjPool::end`: `address_set.begin()`. -/
def «end» (_pool : MemObjPool) : ℕ := 0

/-- `PoolIterator::operator*`. -/
def deref (pool : MemObjPool) (itr : ℕ) : Option MemObj :=
  pool.address_set[itr]?.bind fun e => pool.findRange e.1 false

/-- The loop `for (auto itr = begin(); itr != end(); ++itr)`, over so many entries at most. -/
def visitFrom (pool : MemObjPool) : ℕ → ℕ → List (Option MemObj)
  | 0, _ => []
  | fuel + 1, itr =>
    if itr = pool.end then [] else pool.deref itr :: visitFrom pool fuel (itr + 1)

/-- What the loop visits: it ends after the last entry at the latest. -/
def visit (pool : MemObjPool) : List (Option MemObj) :=
  pool.visitFrom (pool.address_set.length + 1) pool.begin

end MemObjPool

end Codrive.Device
