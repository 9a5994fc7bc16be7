/-
# Dependencies of a command submission

`src/src/cmdio/linux/opu_deps.c`: a hash table with one fence for each fence context.

| here | source |
|---|---|
| `Deps.fences` | the entries of `deps->fences`, bucket after bucket |
| `Deps.refs` | the references on each fence that were taken for the table and not given up |
| `Deps.added`, `Deps.handed` | history: the fences added to the table and handed out by it |
| `bucket` | the hash of a context |
| `signaled : Fence → Bool` | what `dma_fence_is_signaled` answers in the call |
| `allocs : List Bool` | whether `kmem_cache_alloc` has memory, entry after entry; success after that |

Three lines of the file are read as they are meant: `*keep & dma_fence_is_later(..)` as `&&`, the
block of `opu_deps_get_fence` that is not closed as `{ return f; }`, and the parentheses of
`kzalloc` around both of its arguments.
-/

import Codrive.Basis.Records
import Mathlib.Data.List.Sort
import Mathlib.Logic.Function.Basic

namespace Codrive.Sync

open Codrive.Basis

/-- The error numbers here; `oops` is a fault on a null pointer. -/
inductive Errno where
  | enomem | erestartsys | oops
  deriving DecidableEq, Repr

/-- `struct dma_fence`: a fence is known by its context and its number in it. -/
structure Fence where
  context : ℕ
  seqno : ℕ
  deriving DecidableEq, Repr

/-- `dma_fence_is_later`. -/
def isLater (f₁ f₂ : Fence) : Bool := f₁.context == f₂.context && decide (f₁.seqno > f₂.seqno)

/-- `struct opu_deps_entry`. -/
structure Entry where
  fence : Fence
  explicit : Bool
  deriving DecidableEq, Repr

/-- References owned on each fence. -/
abbrev Refs := Fence → ℤ

/-- `dma_fence_get`. -/
def Refs.get (refs : Refs) (f : Fence) : Refs := Function.update refs f (refs f + 1)

/-- `dma_fence_put`, and handing a reference on. -/
def Refs.put (refs : Refs) (f : Fence) : Refs := Function.update refs f (refs f - 1)

/-- `struct opu_deps`. -/
structure Deps where
  fences : List Entry := []
  refs : Refs := fun _ => 0
  added : List Fence := []
  handed : List Fence := []

/-- `hash_add`: at the head of its bucket. -/
def hashAdd (bucket : ℕ → ℕ) (e : Entry) (fences : List Entry) : List Entry :=
  fences.orderedInsert (fun a b => bucket a.fence.context ≤ bucket b.fence.context) e

/-- `opu_deps_keep_later`: what `*keep` is afterwards. -/
def opuDepsKeepLater (refs : Refs) (keep fence : Fence) : Fence × Refs :=
  if isLater keep fence then (keep, refs) else (fence, (refs.put keep).get fence)

/-- `opu_deps_add_later`.  The line `e->explicit != explicit;` compares and does nothing. -/
def opuDepsAddLater (deps : Deps) (f : Fence) (_explicit : Bool) : Bool × Deps :=
  match deps.fences.find? (·.fence.context = f.context) with
  | none => (false, deps)
  | some e =>
    let (keep, refs) := opuDepsKeepLater deps.refs e.fence f
    (true, { deps with
      fences := updateFirst (·.fence.context = f.context) (fun e => { e with fence := keep })
        deps.fences
      refs := refs })

/-- `opu_deps_add_fence`. -/
def opuDepsAddFence (bucket : ℕ → ℕ) (alloc : Bool) (deps : Deps) (f : Option Fence)
    (explicit : Bool) : Option Errno × Deps :=
  match f with
  | none => (none, deps)
  | some f =>
    match opuDepsAddLater deps f explicit with
    | (true, deps) => (none, { deps with added := f :: deps.added })
    | (false, deps) =>
      if !alloc then (some .enomem, deps)
      else
        (none, { deps with
          fences := hashAdd bucket ⟨f, explicit⟩ deps.fences
          refs := deps.refs.get f
          added := f :: deps.added })

/-- The loop of `opu_deps_peek_fence`. -/
def peekLoop (signaled : Fence → Bool) : Refs → List Entry → Option Fence × List Entry × Refs
  | refs, [] => (none, [], refs)
  | refs, e :: fences =>
    if signaled e.fence then peekLoop signaled (refs.put e.fence) fences
    else (some e.fence, e :: fences, refs)

/-- `opu_deps_peek_fence`. -/
def opuDepsPeekFence (signaled : Fence → Bool) (deps : Deps) : Option Fence × Deps :=
  let (r, fences, refs) := peekLoop signaled deps.refs deps.fences
  (r, { deps with fences := fences, refs := refs })

/-- The loop of `opu_deps_get_fence`; the reference of the entry goes to the caller. -/
def getLoop (signaled : Fence → Bool) :
    Refs → List Entry → Option (Fence × Bool) × List Entry × Refs
  | refs, [] => (none, [], refs)
  | refs, e :: fences =>
    if !signaled e.fence then (some (e.fence, e.explicit), fences, refs.put e.fence)
    else getLoop signaled (refs.put e.fence) fences

/-- `opu_deps_get_fence`: the fence and `*explicit`. -/
def opuDepsGetFence (signaled : Fence → Bool) (deps : Deps) : Option (Fence × Bool) × Deps :=
  let (r, fences, refs) := getLoop signaled deps.refs deps.fences
  (r, { deps with
    fences := fences, refs := refs, handed := (r.map Prod.fst).toList ++ deps.handed })

/-- The loop of `opu_deps_to_array_fence`: whether there were too many fences, and those it
collected. -/
def toArrayLoop (signaled : Fence → Bool) (max_fence_count : ℕ) :
    Refs → List Fence → List Entry → (Bool × List Fence) × List Entry × Refs
  | refs, array, [] => ((false, array), [], refs)
  | refs, array, e :: fences =>
    if !signaled e.fence then
      if array.length < max_fence_count then
        let (r, fences, refs) :=
          toArrayLoop signaled max_fence_count refs (array ++ [e.fence]) fences
        (r, e :: fences, refs)
      else ((true, array), e :: fences, refs)
    else toArrayLoop signaled max_fence_count (refs.put e.fence) array fences

/-- `cleanup` of `opu_deps_to_array_fence`. -/
def toArrayCleanup (deps : Deps) (array : List Fence) : Deps :=
  array.foldl (fun deps f => (opuDepsAddLater deps f false).2) deps

/-- `opu_deps_to_array_fence`: the array fence it built, if any.  The array is not checked for
null; `create` is whether `dma_fence_array_create` has memory. -/
def opuDepsToArrayFence (signaled : Fence → Bool) (kzalloc create : Bool) (source : Deps)
    (max_fence_count : ℕ) : Except Errno (Option (List Fence)) × Deps :=
  let ((overflow, array), fences, refs) :=
    toArrayLoop signaled max_fence_count source.refs [] source.fences
  let source := { source with fences := fences, refs := refs }
  if !kzalloc && !array.isEmpty then (.error .oops, source)
  else if overflow then (.ok none, toArrayCleanup source array)
  else if array.isEmpty then (.ok none, source)
  else if !create then (.ok none, toArrayCleanup source array)
  else (.ok (some array), source)

/-- The loop of `opu_deps_clone`. -/
def cloneLoop (bucket : ℕ → ℕ) (signaled : Fence → Bool) :
    List Bool → Refs → List Entry → Deps → Option Errno × (List Entry × Refs) × Deps
  | _, refs, [], clone => (none, ([], refs), clone)
  | allocs, refs, e :: fences, clone =>
    if !signaled e.fence then
      match opuDepsAddFence bucket (allocs.headD true) clone (some e.fence) e.explicit with
      | (some r, clone) => (some r, (e :: fences, refs), clone)
      | (none, clone) =>
        let (r, (fences, refs), clone) := cloneLoop bucket signaled allocs.tail refs fences clone
        (r, (e :: fences, refs), clone)
    else cloneLoop bucket signaled allocs.tail (refs.put e.fence) fences clone

/-- The loop of `opu_deps_clone` of a table into itself, over the entries that are still to come:
an entry is taken out of the table that it is also added to. -/
def cloneSelfLoop (bucket : ℕ → ℕ) (signaled : Fence → Bool) :
    List Bool → List Entry → Deps → Option Errno × Deps
  | _, [], deps => (none, deps)
  | allocs, e :: fences, deps =>
    if !signaled e.fence then
      match opuDepsAddFence bucket (allocs.headD true) deps (some e.fence) e.explicit with
      | (some r, deps) => (some r, deps)
      | (none, deps) => cloneSelfLoop bucket signaled allocs.tail fences deps
    else
      cloneSelfLoop bucket signaled allocs.tail fences
        { deps with fences := deps.fences.erase e, refs := deps.refs.put e.fence }

/-- `opu_deps_clone` of one table into another: what becomes of the one and of the other. -/
def opuDepsClone (bucket : ℕ → ℕ) (signaled : Fence → Bool) (allocs : List Bool)
    (source clone : Deps) : Option Errno × Deps × Deps :=
  let (r, (fences, refs), clone) := cloneLoop bucket signaled allocs source.refs source.fences clone
  (r, { source with fences := fences, refs := refs }, clone)

/-- The loop of `opu_deps_wait`; `waits` is what the calls of `dma_fence_wait` return. -/
def waitLoop (waits : Fence → Option Errno) : Refs → List Entry → Option Errno × List Entry × Refs
  | refs, [] => (none, [], refs)
  | refs, e :: fences =>
    match waits e.fence with
    | some r => (some r, e :: fences, refs)
    | none => waitLoop waits (refs.put e.fence) fences

/-- `opu_deps_wait`. -/
def opuDepsWait (waits : Fence → Option Errno) (deps : Deps) : Option Errno × Deps :=
  let (r, fences, refs) := waitLoop waits deps.refs deps.fences
  (r, { deps with fences := fences, refs := refs })

/-- `opu_deps_free`; the history of the table ends. -/
def opuDepsFree (deps : Deps) : Deps where
  fences := []
  refs := deps.fences.foldl (fun refs e => refs.put e.fence) deps.refs
  added := []
  handed := []

end Codrive.Sync
