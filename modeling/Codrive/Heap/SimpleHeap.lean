/-
# The best-fit fragment heap

`SimpleHeap` of `src/src/common/simple_heap.h`: blocks taken from a block allocator, cut
into fragments.

| here | source |
|---|---|
| `free_list : List (ℕ × ℕ)` | `std::multimap<size_t, uintptr_t>`, sizes increasing |
| `free_list_entry : Option (ℕ × ℕ)` | its iterator, `none` for `free_list_.end()` |
| `block_list` | `std::map<uintptr_t, std::map<uintptr_t, Fragment_T>>` |
| `block_cache` | `std::deque<Block>`, front first |
| `none` as a result | a failed `assert`, or a dereferenced `end()` |

The block allocator is outside: a call of `alloc` is given what it would answer, and the
blocks a call takes from it or gives back to it are part of the call's result.
-/

import Codrive.Basis.Machine
import Codrive.Basis.OrderedMap
import Mathlib.Data.List.Sort

namespace Codrive.Heap

open Codrive.Basis

/-- `Fragment_T`. -/
structure Fragment where
  /-- `free_list_entry_`. -/
  free_list_entry : Option (ℕ × ℕ) := none
  /-- `size : 62`. -/
  size : ℕ
  /-- `discard : 1`. -/
  discard : Bool := false
  /-- `free : 1`. -/
  free : Bool
  deriving DecidableEq, Repr

/-- The fragments of a block by address. -/
abbrev FragMap := OrderedMap ℕ Fragment

/-- `SimpleHeap`. -/
structure SimpleHeap where
  /-- `free_list_`: sizes and addresses. -/
  free_list : List (ℕ × ℕ) := []
  /-- `block_list_`. -/
  block_list : OrderedMap ℕ FragMap := OrderedMap.empty
  /-- `block_cache_`: addresses and lengths. -/
  block_cache : List (ℕ × ℕ) := []
  /-- `in_use_size_`. -/
  in_use_size : ℕ := 0
  /-- `cache_size_`. -/
  cache_size : ℕ := 0

/-- A value stored in the 62 bits of `Fragment_T::size`. -/
def size62 (x : ℕ) : ℕ := wrap 62 x

/-- `makeFragment(Len)`: a used fragment. -/
def makeUsed (len : ℕ) : Fragment := { size := size62 len, free := false }

/-- `makeFragment(Iterator, Len)`: a free fragment. -/
def makeFree (entry : ℕ × ℕ) (len : ℕ) : Fragment :=
  { free_list_entry := some entry, size := size62 len, free := true }

/-- `free_list_.insert`: after the entries of the same size. -/
def insertFree (l : List (ℕ × ℕ)) (e : ℕ × ℕ) : List (ℕ × ℕ) :=
  l.orderedInsert (fun a b => a.1 < b.1) e

/-- `free_list_.lower_bound(bytes)`. -/
def lowerBound (l : List (ℕ × ℕ)) (bytes : ℕ) : Option (ℕ × ℕ) :=
  l.find? fun e => bytes ≤ e.1

/-- The erasure in `removeFreeListEntry`. -/
def removeFreeListEntry (l : List (ℕ × ℕ)) (f : Fragment) : List (ℕ × ℕ) :=
  match f.free_list_entry with
  | some e => l.erase e
  | none => l

/-- `block_list_[base][addr] = frag`. -/
def putFragment (blocks : OrderedMap ℕ FragMap) (base addr : ℕ) (frag : Fragment) :
    OrderedMap ℕ FragMap :=
  blocks.set base (((blocks.find? base).getD OrderedMap.empty).set addr frag)

/-- The part of `alloc` that takes a fragment off the free list. -/
def SimpleHeap.allocFragment (ndebug : Bool) (h : SimpleHeap) (bytes size base : ℕ) :
    Option SimpleHeap := do
  let free_list := h.free_list.erase (size, base)
  assert ndebug (size ≥ bytes)
  let (block, frag_map) ← h.block_list.floor? base
  let fragment ← frag_map.find? base
  assert ndebug (size = fragment.size)
  let used := { fragment with size := size62 bytes, free := false, free_list_entry := none }
  let frag_map := frag_map.set base used
  if size > bytes then
    let entry := (size - bytes, u64 (base + bytes))
    let frag_map := frag_map.set (u64 (base + bytes)) (makeFree entry (size - bytes))
    return { h with
      free_list := insertFree free_list entry
      block_list := h.block_list.set block frag_map }
  else
    return { h with free_list, block_list := h.block_list.set block frag_map }

/-- The part of `alloc` that cuts the first fragment from a block of its own. -/
def SimpleHeap.allocBlock (ndebug : Bool) (h : SimpleHeap) (bytes base size : ℕ) :
    Option SimpleHeap := do
  let in_use_size := u64 (h.in_use_size + size)
  assert ndebug (size ≥ bytes)
  if size > bytes then
    let entry := (size - bytes, u64 (base + bytes))
    let blocks := putFragment h.block_list base (u64 (base + bytes))
      (makeFree entry (size - bytes))
    return { h with
      free_list := insertFree h.free_list entry
      block_list := putFragment blocks base base (makeUsed bytes)
      in_use_size }
  else
    return { h with
      block_list := putFragment h.block_list base base (makeUsed bytes), in_use_size }

/-- `SimpleHeap::alloc`.  `block?` is what the block allocator answers when it is asked:
`none` when it throws.  The result is the address (`none` when the call throws), the heap
and the block taken. -/
def SimpleHeap.alloc (ndebug : Bool) (max_alloc : ℕ) (h : SimpleHeap) (bytes : ℕ)
    (block? : Option (ℕ × ℕ)) : Option (Option ℕ × SimpleHeap × List (ℕ × ℕ)) := do
  if bytes > max_alloc then
    assert ndebug false
    return (none, h, [])
  match lowerBound h.free_list bytes with
  | some (size, base) =>
    return (some base, ← h.allocFragment ndebug bytes size base, [])
  | none =>
    match h.block_cache.getLast? with
    | some (base, size) =>
      let h := { h with
        block_cache := h.block_cache.dropLast, cache_size := sub64 h.cache_size size }
      return (some base, ← h.allocBlock ndebug bytes base size, [])
    | none =>
      match block? with
      | none => return (none, h, [])
      | some (base, size) =>
        assert ndebug (base ≠ 0)
        return (some base, ← h.allocBlock ndebug bytes base size, [(base, size)])

/-- The loop of `free` that releases the oldest cached blocks while the cache is more than
twice what is in use; the blocks it gives back come last. -/
def releaseOld (in_use_size : ℕ) : List (ℕ × ℕ) → ℕ → List (ℕ × ℕ) × ℕ × List (ℕ × ℕ)
  | b :: c :: cache, cache_size =>
    if cache_size > u64 (in_use_size * 2) then
      let (cache', cache_size', given) :=
        releaseOld in_use_size (c :: cache) (sub64 cache_size b.2)
      (cache', cache_size', b :: given)
    else
      (b :: c :: cache, cache_size, [])
  | cache, cache_size => (cache, cache_size, [])

/-- "Merge lower": the free list, the fragments, and the address and contents of the
fragment that holds the freed bytes. -/
def mergeLower (free_list : List (ℕ × ℕ)) (frag_map : FragMap) (addr : ℕ) (fragment : Fragment) :
    List (ℕ × ℕ) × FragMap × ℕ × Fragment :=
  match (frag_map.below addr).head? with
  | some (low, lower) =>
    if lower.free then
      let merged := { lower with
        free_list_entry := none, size := size62 (lower.size + fragment.size) }
      (removeFreeListEntry free_list lower, (frag_map.set low merged).erase addr, low, merged)
    else (free_list, frag_map, addr, fragment)
  | none => (free_list, frag_map, addr, fragment)

/-- "Merge upper". -/
def mergeUpper (free_list : List (ℕ × ℕ)) (frag_map : FragMap) (addr : ℕ) (fragment : Fragment) :
    List (ℕ × ℕ) × FragMap × Fragment :=
  match frag_map.above? addr with
  | some (up, upper) =>
    if upper.free then
      let merged := { fragment with size := size62 (fragment.size + upper.size) }
      (removeFreeListEntry free_list upper, (frag_map.set addr merged).erase up, merged)
    else (free_list, frag_map, fragment)
  | none => (free_list, frag_map, fragment)

/-- `SimpleHeap::free`: the answer, the heap and the blocks given back. -/
def SimpleHeap.free (h : SimpleHeap) (ptr : ℕ) : Bool × SimpleHeap × List (ℕ × ℕ) :=
  if ptr = 0 then (true, h, []) else
  match h.block_list.floor? ptr with
  | none => (false, h, [])
  | some (block, frag_map) =>
    match frag_map.find? ptr with
    | none => (false, h, [])
    | some fragment =>
      if fragment.free then (false, h, []) else
      let discard := fragment.discard
      let (free_list, frag_map, addr, fragment) := mergeLower h.free_list frag_map ptr fragment
      let (free_list, frag_map, fragment) := mergeUpper free_list frag_map addr fragment
      if frag_map.entries.length = 1 then
        let in_use_size := sub64 h.in_use_size fragment.size
        let block_list := h.block_list.erase block
        let (block_cache, cache_size, given) :=
          if discard then (h.block_cache, h.cache_size, [(addr, fragment.size)])
          else (h.block_cache ++ [(addr, fragment.size)], u64 (h.cache_size + fragment.size), [])
        let (block_cache, cache_size, old) := releaseOld in_use_size block_cache cache_size
        (true, { free_list, block_list, block_cache, in_use_size, cache_size }, given ++ old)
      else if discard then
        (true, { h with free_list, block_list := h.block_list.set block frag_map }, [])
      else
        let entry := (fragment.size, addr)
        let freed := { fragment with free := true, free_list_entry := some entry }
        (true, { h with
          free_list := insertFree free_list entry
          block_list := h.block_list.set block (frag_map.set addr freed) }, [])

/-- `SimpleHeap::trim`: the heap and the blocks given back. -/
def SimpleHeap.trim (h : SimpleHeap) : SimpleHeap × List (ℕ × ℕ) :=
  ({ h with block_cache := [], cache_size := 0 }, h.block_cache)

/-- `discard` of a fragment, its free list entry apart. -/
def Fragment.discarded (f : Fragment) : Fragment :=
  { f with free_list_entry := none, discard := true }

/-- `SimpleHeap::discardBlock`. -/
def SimpleHeap.discardBlock (h : SimpleHeap) (ptr : ℕ) : Option (Bool × SimpleHeap) := do
  if ptr = 0 then return (true, h)
  match h.block_list.floor? ptr with
  | none => return (false, h)
  | some (block, frag_map) =>
    let first ← frag_map.first?
    let (last, tail) ← frag_map.last?
    if ptr < first || u64 (last + tail.size) ≤ ptr then return (false, h)
    return (true, { h with
      free_list := frag_map.entries.foldl (fun l e => removeFreeListEntry l e.2) h.free_list
      block_list := h.block_list.set block (frag_map.mapValues Fragment.discarded) })

end Codrive.Heap
