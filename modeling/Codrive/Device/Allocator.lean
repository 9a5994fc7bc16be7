/-
# The aperture allocator

`Allocator` of `src/src/device/MemObj.cpp` and `src/src/device/inc/MemObj.h`: a sorted map
from addresses to nodes between two guard nodes at `0` and `2^64 - 1`, with a doubly linked
list threaded through the free nodes.

| here | source |
|---|---|
| `Option ℕ` as a link | `iterator_t`, `none` for `memory.end()` |
| `none` as a result | a failed `assert`, or a dereferenced `end()` |
| `ndebug` | whether the build compiles assertions out |

A node is used when its `next` is `memory.begin()`; there is no other flag.
-/

import Codrive.Basis.OrderedMap
import Codrive.Basis.Machine
import Mathlib.Data.Finset.Basic

namespace Codrive.Device

open Codrive.Basis

/-- `Allocator::Node`. -/
structure Node where
  /-- `len`. -/
  len : ℕ := 0
  /-- `next`, `none` for `memory.end()`. -/
  next : Option ℕ := none
  /-- `prior`, `none` for `memory.end()`. -/
  prior : Option ℕ := none
  deriving DecidableEq, Repr

/-- `Allocator::memory_t`. -/
abbrev Memory := OrderedMap ℕ Node

/-- `(void*)0xFFFFFFFFFFFFFFFFull`, the key of the end guard. -/
def guardKey : ℕ := 2 ^ 64 - 1

/-- `Allocator`. -/
structure Allocator where
  /-- `pool`, the arena's base. -/
  pool : ℕ
  /-- `length`, the arena's length. -/
  length : ℕ
  /-- `total_free`. -/
  total_free : ℕ
  /-- `memory`. -/
  memory : Memory
  /-- `high`, the addresses `alloc_high` returned. -/
  high : Finset ℕ

/-- `isfree`. -/
def isfree (m : Memory) (n : Node) : Bool := n.next ≠ m.first?

/-- `islastfree`. -/
def islastfree (n : Node) : Bool := n.next = none

/-- `isfirstfree`. -/
def isfirstfree (n : Node) : Bool := n.prior = none

/-- The assertions of `Allocator(void* base, size_t length)`. -/
def poolBoundsOk (pool length : ℕ) : Bool :=
  pool ≠ 0 && pool ≠ guardKey && u64 (pool + length) ≠ guardKey

/-- `Allocator(void* base, size_t length)`, past its assertions. -/
def Allocator.create (pool length : ℕ) : Allocator :=
  let memory : Memory := OrderedMap.empty
  -- memory.find(pool), memory.begin() and --memory.end() once the three keys are in
  let memory := memory.set 0 { len := 0, next := some pool, prior := none }
  let memory := memory.set pool { len := length, next := some guardKey, prior := some 0 }
  let memory := memory.set guardKey { len := 0, next := none, prior := some pool }
  { pool, length, total_free := length, memory, high := {guardKey} }

/-- `insertafter`: links `node` into the free list after `place`. -/
def insertafter (ndebug : Bool) (m : Memory) (place node : ℕ) : Option Memory := do
  assert ndebug (place < node)
  let p ← m.find? place
  assert ndebug (isfree m p)
  let m ← m.update? node fun n => { n with next := p.next, prior := some place }
  let m ← m.update? place fun n => { n with next := some node }
  let next ← p.next
  m.update? next fun n => { n with prior := some node }

/-- `remove`: unlinks a node and marks it used. -/
def remove (ndebug : Bool) (m : Memory) (node : ℕ) : Option Memory := do
  let n ← m.find? node
  assert ndebug (isfree m n)
  let prior ← n.prior
  let m ← m.update? prior fun p => { p with next := n.next }
  let next ← (← m.find? node).next
  let m ← m.update? next fun q => { q with prior := n.prior }
  m.update? node fun n => { n with next := m.first? }

/-- `merge`: joins `high` to `low` when `low` ends where `high` starts. -/
def merge (ndebug : Bool) (m : Memory) (low high : ℕ) : Option (ℕ × Memory) := do
  let l ← m.find? low
  let h ← m.find? high
  assert ndebug (isfree m l)
  assert ndebug (isfree m h)
  if u64 (low + l.len) ≠ high then return (high, m)
  assert ndebug (!islastfree h)
  let m ← m.update? low fun n => { n with len := u64 (n.len + h.len), next := h.next }
  let next ← h.next
  let m ← m.update? next fun n => { n with prior := some low }
  return (low, m.erase high)

/-- The walk `before--; while (!isfree(before->second)) before--;` of `free`. -/
def freeBefore (m : Memory) (it : ℕ) : Option ℕ :=
  ((m.below it).find? fun e => isfree m e.2).map Prod.fst

/-- The split `memory[at]` of a node: `at` gets what is past the first `len` bytes and
goes into the free list after `it`. -/
def splitNode (ndebug : Bool) (m : Memory) (it : ℕ) (n : Node) (split len : ℕ) :
    Option Memory := do
  let m := m.touch split {}
  let m ← m.update? split fun r => { r with len := sub64 n.len len }
  let m ← m.update? it fun l => { l with len := len }
  insertafter ndebug m it split

/-- `Allocator::free`. -/
def Allocator.free (ndebug : Bool) (a : Allocator) (ptr bytes : ℕ) :
    Option (Bool × Allocator) :=
  match a.memory.find? ptr with
  | none => do
    assert ndebug false
    return (false, a)
  | some n => do
    -- `find` answers the node that starts at `ptr`, so the split that `free` makes when
    -- the node starts below `ptr` is never reached
    assert ndebug (!isfree a.memory n)
    let (total_free, m) ←
      if n.len = bytes then
        pure (u64 (a.total_free + n.len), a.memory)
      else if n.len > bytes then do
        let m ← splitNode ndebug a.memory ptr n (u64 (ptr + bytes)) bytes
        pure (a.total_free, m)
      else
        -- the branch that would refuse this repeats the test above
        pure (a.total_free, a.memory)
    let before ← freeBefore m ptr
    let b ← m.find? before
    assert ndebug (b.next.any (· > ptr))
    let m ← insertafter ndebug m before ptr
    let (it, m) ← merge ndebug m before ptr
    let next ← (← m.find? it).next
    let (_, m) ← merge ndebug m it next
    return (true, { a with total_free, memory := m, high := a.high.erase ptr })

/-- The first-fit walk of `alloc` along `next`: `some none` when no free node from
`current` on has `bytes` bytes. -/
def firstFit (ndebug : Bool) (m : Memory) (bytes : ℕ) : ℕ → ℕ → Option (Option ℕ)
  | 0, _ => none
  | fuel + 1, current => do
    let n ← m.find? current
    if islastfree n then
      assert ndebug (n.len = 0)
      return none
    else if bytes ≤ n.len then
      return some current
    else
      firstFit ndebug m bytes fuel (← n.next)

/-- The walk of `alloc_high` along `prior`. -/
def lastFit (ndebug : Bool) (m : Memory) (bytes : ℕ) : ℕ → ℕ → Option (Option ℕ)
  | 0, _ => none
  | fuel + 1, current => do
    let n ← m.find? current
    if isfirstfree n then
      assert ndebug (n.len = 0)
      return none
    else if bytes ≤ n.len then
      return some current
    else
      lastFit ndebug m bytes fuel (← n.prior)

/-- The search of `alloc` for the node that holds a fixed address. -/
def nodeAt (m : Memory) (address : ℕ) : Option (ℕ × Node) :=
  m.entries.find? fun e => e.1 ≤ address && u64 (e.1 + e.2.len) > address

/-- `alloc` once a node is chosen: the low `bytes` bytes of it become used. -/
def takeLow (ndebug : Bool) (m : Memory) (current bytes : ℕ) : Option Memory := do
  let n ← m.find? current
  let m ←
    if bytes ≠ n.len then splitNode ndebug m current n (u64 (current + bytes)) bytes
    else pure m
  remove ndebug m current

/-- Where `alloc` starts to look: at the node that holds a fixed address above the base
(nowhere, when there is no such node or it is used), else at `firstfree()`. -/
def Allocator.allocStart (a : Allocator) (address : ℕ) (fix_address : Bool) :
    Option (Option ℕ) := do
  if fix_address && address > a.pool then
    match nodeAt a.memory address with
    | none => return none
    | some (k, n) => return if isfree a.memory n then some k else none
  else
    let first ← a.memory.first?
    let n ← a.memory.find? first
    return some (← n.next)

/-- `Allocator::alloc`. -/
def Allocator.alloc (ndebug : Bool) (a : Allocator) (address bytes : ℕ) (fix_address : Bool) :
    Option (Option ℕ × Allocator) := do
  if bytes > a.total_free || bytes = 0 then return (none, a)
  match ← a.allocStart address fix_address with
  | none => return (none, a)
  | some current =>
    match ← firstFit ndebug a.memory bytes a.memory.entries.length current with
    | none => return (none, a)
    | some current =>
      let m ← takeLow ndebug a.memory current bytes
      return (some current, { a with total_free := sub64 a.total_free bytes, memory := m })

/-- `alloc_high` once a node is chosen: the high `bytes` bytes of it become used. -/
def takeHigh (ndebug : Bool) (m : Memory) (current bytes : ℕ) : Option (ℕ × Memory) := do
  let n ← m.find? current
  if bytes ≠ n.len then
    let alloc := sub64 (u64 (current + n.len)) bytes
    let m ← m.update? current fun n => { n with len := sub64 n.len bytes }
    let m := m.touch alloc {}
    let m ← m.update? alloc fun r => { r with len := bytes, next := m.first? }
    return (alloc, m)
  else
    return (current, ← remove ndebug m current)

/-- `Allocator::alloc_high`. -/
def Allocator.alloc_high (ndebug : Bool) (a : Allocator) (bytes : ℕ) :
    Option (Option ℕ × Allocator) := do
  if bytes > a.total_free || bytes = 0 then return (none, a)
  let (_, last) ← a.memory.last?
  let current ← last.prior
  match ← lastFit ndebug a.memory bytes a.memory.entries.length current with
  | none => return (none, a)
  | some current =>
    let (alloc, m) ← takeHigh ndebug a.memory current bytes
    return (some alloc, { a with
      total_free := sub64 a.total_free bytes, memory := m, high := insert alloc a.high })

end Codrive.Device
