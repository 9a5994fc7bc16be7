/-
# Unmapping pages of a range

What `src/src/cmdio/linux/opu_svm.c` does when the CPU unmaps pages of a range: the notifier
callback parts the range, and the parts it was parted into before, at the ends of what is unmapped,
and says what is to become of each; the deferred work then links the new parts and takes away what
is unmapped.  The callback cannot do that itself, since it must not take the lock of the list.

| here | source |
|---|---|
| `SvmRange.child_list`, `SvmRange.op` | `child_list`, `work_item.op` |
| `Svms.deferred_range_list` | `svms->deferred_range_list` |
| `none` | a null pointer is read: a split has failed, and its result is used all the same |

What unmaps pages from GPUs or waits for their faults changes no interval and is left out.
-/

import Codrive.Svm.Granularity
import Codrive.Svm.Transaction

namespace Codrive.Svm

open Codrive.Basis

variable (p : OpuProcess)

/-- `svm_range_unmap_split`. -/
def svmRangeUnmapSplit (m : Mem) (parent prange start last : ℕ) : Option Mem :=
  let r := m.ranges prange
  if r.op = .unmapRange then some m
  else if start > r.last ∨ last < r.start then some m
  else
    match (if start > r.start then svmRangeSplit p prange r.start (start - 1) m
      else (.ok prange, m)) with
    | (.error _, _) => none
    | (.ok tail, m) =>
      let t := m.ranges tail
      match (if last < t.last then svmRangeSplit p tail (last + 1) t.last m
        else (.ok prange, m)) with
      | (.error _, _) => none
      | (.ok head, m) =>
        if head ≠ prange ∧ tail ≠ prange then
          some (svmRangeAddChild parent tail .addRange (svmRangeAddChild parent head .unmapRange m))
        else if tail ≠ prange then some (svmRangeAddChild parent tail .unmapRange m)
        else if head ≠ prange then some (svmRangeAddChild parent head .unmapRange m)
        else if parent ≠ prange then some (m.setRange prange fun r => { r with op := .unmapRange })
        else some m

/-- The loop of `svm_range_unmap_from_cpu` over the children of a range, from the `k`-th on.  It
comes to the children that it adds, too. -/
def unmapChildren (prange start last : ℕ) : ℕ → ℕ → Mem → Option Mem
  | 0, _, _ => none
  | turns + 1, k, m =>
    match (m.ranges prange).child_list[k]? with
    | none => some m
    | some pchild =>
      (svmRangeUnmapSplit p m prange pchild start last).bind
        (unmapChildren prange start last turns (k + 1))

/-- `svm_range_add_list_work`. -/
def svmRangeAddListWork (s : Svms) (prange : ℕ) (op : WorkOp) : Svms :=
  if prange ∈ s.deferred_range_list then
    if op ≠ .null ∧ (s.mem.ranges prange).op ≠ .unmapRange then
      { s with mem := s.mem.setRange prange fun r => { r with op } }
    else s
  else
    { s with
      mem := s.mem.setRange prange fun r => { r with op }
      deferred_range_list := s.deferred_range_list ++ [prange] }

/-- **`svm_range_unmap_from_cpu`.**  A child gives rise to two more at most, and these to none. -/
def svmRangeUnmapFromCpu (s : Svms) (prange start last : ℕ) : Option Svms :=
  let r := s.mem.ranges prange
  let unmap_parent := start ≤ r.start ∧ last ≥ r.last
  (unmapChildren p prange start last (3 * r.child_list.length + 1) 0 s.mem).bind fun m =>
    (svmRangeUnmapSplit p m prange prange start last).bind fun m =>
      some (svmRangeAddListWork { s with mem := m } prange
        (if unmap_parent then .unmapRange else .updateRangeNotifier))

/-- A notification that pages of a range are unmapped, as the callback of its notifier passes it on:
clipped to the interval of the notifier. -/
structure UnmapEvent where
  start : ℕ
  last : ℕ
  deriving DecidableEq, Repr

/-- One notification after the other. -/
def unmapAll (prange : ℕ) : List UnmapEvent → Svms → Option Svms
  | [], s => some s
  | q :: qs, s => (svmRangeUnmapFromCpu p s prange q.start q.last).bind (unmapAll prange qs)

/-! ### The deferred work -/

/-- `svm_range_update_notifier_and_interval_tree`.  A node that was not taken out of the tree is
written where it is, and linked once more. -/
def svmRangeUpdateNotifierAndIntervalTree (s : Svms) (prange : ℕ) : Svms :=
  let r := s.mem.ranges prange
  let start := r.notifier_start >>> PAGE_SHIFT
  let last := r.notifier_last >>> PAGE_SHIFT
  if r.start = start ∧ r.last = last then s
  else
    let s := if start ≠ 0 ∧ last ≠ 0 then
        svmRangeRemoveNotifier { s with objects := intervalTreeRemove prange s.objects } prange
      else s
    let node : ItNode := ⟨r.start, r.last, prange⟩
    let objects := s.objects.map fun n => if n.prange = prange then node else n
    svmRangeAddNotifierLocked
      { s with
        mem := s.mem.setRange prange fun r => { r with it_start := r.start, it_last := r.last }
        objects := intervalTreeInsert node objects } prange

/-- `svm_range_handle_list_op`. -/
def svmRangeHandleListOp (s : Svms) (prange : ℕ) : Svms :=
  match (s.mem.ranges prange).op with
  | .null => s
  | .unmapRange => removeOld p s prange
  | .updateRangeNotifier | .updateRangeNotifierAndMap =>
    svmRangeUpdateNotifierAndIntervalTree s prange
  | .addRange | .addRangeAndMap => svmRangeAddNotifierLocked (svmRangeAddToSvms s prange) prange

/-- The children of a range, the first one first; each is taken off the list before. -/
def handleChildren (prange : ℕ) : List ℕ → Svms → Svms
  | [], s => s
  | pchild :: child_list, s =>
    handleChildren prange child_list (svmRangeHandleListOp p
      { s with mem := s.mem.setRange prange fun r => { r with child_list } } pchild)

/-- The ranges on the list, the first one first; each is taken off the list before. -/
def handleRanges : List ℕ → Svms → Svms
  | [], s => s
  | prange :: deferred_range_list, s =>
    handleRanges deferred_range_list (svmRangeHandleListOp p
      (handleChildren p prange (s.mem.ranges prange).child_list { s with deferred_range_list })
      prange)

/-- **`svm_range_deferred_list_work`.** -/
def svmRangeDeferredListWork (s : Svms) : Svms := handleRanges p s.deferred_range_list s

end Codrive.Svm
