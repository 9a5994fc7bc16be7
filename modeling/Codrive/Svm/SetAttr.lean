/-
# Setting the attributes of an address range

The attribute functions of `src/src/cmdio/linux/opu_svm.c` and `svm_range_set_attr` up to the
end of its transaction, where the memory map is unlocked for writing.  What follows there, the
migration and the mapping on the GPUs, changes neither the intervals nor the attributes.

| here | source |
|---|---|
| `Svms.list` | `svms->list` |
| `Svms.objects` | the nodes of the interval tree `svms->objects`, in tree order |
| `Svms.notifiers` | the ranges whose MMU interval notifier is installed |
| `List ℕ` in `Overlap` | `update_list`, `insert_list`, `remove_list`, first element first |
-/

import Codrive.Svm.Range
import Mathlib.Data.Finset.Erase
import Mathlib.Data.List.Sort

namespace Codrive.Svm

open Codrive.Basis

/-- The attribute types of a request; `other` is every value the switch statements have no case
for. -/
inductive AttrType where
  | preferredLoc | prefetchLoc | access | accessInPlace | noAccess | setFlags | clrFlags
  | granularity | other
  deriving DecidableEq, Repr

/-- `struct opu_ioctl_svm_attribute`. -/
structure SvmAttribute where
  type : AttrType
  value : BitVec 32
  deriving DecidableEq

/-- `opu_process_gpuidx_from_gpuid`; `none` is `-EINVAL`. -/
def gpuidxFromGpuid (p : OpuProcess) (gpu_id : BitVec 32) : Option ℕ :=
  p.pdds.findIdx? (· = some gpu_id)

/-- The `gpuidx` the switch of `svm_range_check_attr` computes: `some MAX_GPU_INSTANCE` when the
attribute names no GPU, `none` when there is no such GPU. -/
def checkedGpuidx (p : OpuProcess) (a : SvmAttribute) : Option ℕ :=
  match a.type with
  | .preferredLoc =>
    if a.value ≠ p.uapi.LOCATION_SYSMEM ∧ a.value ≠ p.uapi.LOCATION_UNDEFINED then
      gpuidxFromGpuid p a.value
    else some MAX_GPU_INSTANCE
  | .prefetchLoc =>
    if a.value ≠ p.uapi.LOCATION_SYSMEM then gpuidxFromGpuid p a.value
    else some MAX_GPU_INSTANCE
  | .access | .accessInPlace | .noAccess => gpuidxFromGpuid p a.value
  | .setFlags | .clrFlags | .granularity => some MAX_GPU_INSTANCE
  | .other => none

/-- `svm_range_check_attr`. -/
def svmRangeCheckAttr (p : OpuProcess) : List SvmAttribute → Option Errno
  | [] => none
  | a :: attrs =>
    match checkedGpuidx p a with
    | none => some .einval
    | some gpuidx =>
      if gpuidx < MAX_GPU_INSTANCE ∧ gpuidx ∉ p.bitmap_supported then some .einval
      else svmRangeCheckAttr p attrs

/-- One round of `svm_range_apply_attrs`.  `svm_range_check_attr` was called before, so the GPU
is there and the type is known. -/
def applyAttr (p : OpuProcess) (r : SvmAttrs) (a : SvmAttribute) : SvmAttrs :=
  match a.type with
  | .preferredLoc => { r with preferred_loc := a.value }
  | .prefetchLoc => { r with prefetch_loc := a.value }
  | .noAccess =>
    match gpuidxFromGpuid p a.value with
    | none => r
    | some i =>
      { r with bitmap_access := r.bitmap_access.erase i, bitmap_aip := r.bitmap_aip.erase i }
  | .access =>
    match gpuidxFromGpuid p a.value with
    | none => r
    | some i =>
      { r with bitmap_access := insert i r.bitmap_access, bitmap_aip := r.bitmap_aip.erase i }
  | .accessInPlace =>
    match gpuidxFromGpuid p a.value with
    | none => r
    | some i =>
      { r with bitmap_access := r.bitmap_access.erase i, bitmap_aip := insert i r.bitmap_aip }
  | .setFlags => { r with flags := r.flags ||| a.value }
  | .clrFlags => { r with flags := r.flags &&& ~~~a.value }
  | .granularity => { r with granularity := a.value.setWidth 8 }
  | .other => r

/-- `svm_range_apply_attrs`. -/
def svmRangeApplyAttrs (p : OpuProcess) (attrs : List SvmAttribute) (r : SvmAttrs) : SvmAttrs :=
  attrs.foldl (applyAttr p) r

/-- `svm_range_is_same_attrs`. -/
def svmRangeIsSameAttrs (old new : SvmAttrs) : Bool :=
  old.prefetch_loc == new.prefetch_loc && old.flags == new.flags &&
    old.granularity == new.granularity

/-! ### The registered ranges -/

/-- `struct interval_tree_node` and the range it is part of. -/
structure ItNode where
  start : ℕ
  last : ℕ
  prange : ℕ
  deriving DecidableEq, Repr

/-- `struct svm_range_list`, the ranges' memory included. -/
structure Svms where
  mem : Mem
  list : List ℕ := []
  objects : List ItNode := []
  notifiers : List ℕ := []
  deferred_range_list : List ℕ := []

/-- `interval_tree_insert`: behind the nodes that start no later. -/
def intervalTreeInsert (node : ItNode) (objects : List ItNode) : List ItNode :=
  objects.orderedInsert (fun a b => a.start < b.start) node

/-- `interval_tree_remove`. -/
def intervalTreeRemove (prange : ℕ) (objects : List ItNode) : List ItNode :=
  objects.eraseP (·.prange = prange)

/-- `svm_range_add_to_svms`. -/
def svmRangeAddToSvms (s : Svms) (prange : ℕ) : Svms :=
  let r := s.mem.ranges prange
  { s with
    mem := s.mem.setRange prange fun r => { r with it_start := r.start, it_last := r.last }
    list := s.list ++ [prange]
    objects := intervalTreeInsert ⟨r.start, r.last, prange⟩ s.objects }

/-- `svm_range_add_notifier_locked`.  `mmu_interval_notifier_insert_locked` writes the interval
and refuses one that is empty or leaves the address space. -/
def svmRangeAddNotifierLocked (s : Svms) (prange : ℕ) : Svms :=
  let r := s.mem.ranges prange
  let start := u64 (r.start <<< PAGE_SHIFT)
  let length := u64 (r.npages <<< PAGE_SHIFT)
  if length = 0 then
    { s with mem := s.mem.setRange prange fun r => { r with notifier_start := start } }
  else
    { s with
      mem := s.mem.setRange prange fun r =>
        { r with notifier_start := start, notifier_last := u64 (start + (length - 1)) }
      notifiers := if start + (length - 1) < 2 ^ 64 then prange :: s.notifiers else s.notifiers }

/-- `svm_range_remove_notifier`. -/
def svmRangeRemoveNotifier (s : Svms) (prange : ℕ) : Svms :=
  let r := s.mem.ranges prange
  if r.notifier_start ≠ 0 ∧ r.notifier_last ≠ 0 then
    { s with notifiers := s.notifiers.erase prange }
  else s

/-- `svm_range_unlink`. -/
def svmRangeUnlink (s : Svms) (prange : ℕ) : Svms :=
  let r := s.mem.ranges prange
  let mem := match r.svm_bo with
    | none => s.mem
    | some b => s.mem.setBo b fun bo => { bo with range_list := bo.range_list.erase prange }
  { s with
    mem := mem
    list := s.list.erase prange
    objects := if r.it_start ≠ 0 ∧ r.it_last ≠ 0 then intervalTreeRemove prange s.objects
      else s.objects }

/-! ### Overlap -/

/-- What `svm_range_handle_overlap` works on: the memory and its three output lists. -/
structure Overlap where
  mem : Mem
  update_list : List ℕ := []
  insert_list : List ℕ := []
  remove_list : List ℕ := []

/-- `svm_range_split_tail`. -/
def svmRangeSplitTail (p : OpuProcess) (prange new_last : ℕ) (o : Overlap) :
    Option Errno × Overlap :=
  match svmRangeSplit p prange (o.mem.ranges prange).start new_last o.mem with
  | (.error e, m) => (some e, { o with mem := m })
  | (.ok tail, m) => (none, { o with mem := m, insert_list := tail :: o.insert_list })

/-- `svm_range_split_head`. -/
def svmRangeSplitHead (p : OpuProcess) (prange new_start : ℕ) (o : Overlap) :
    Option Errno × Overlap :=
  match svmRangeSplit p prange new_start (o.mem.ranges prange).last o.mem with
  | (.error e, m) => (some e, { o with mem := m })
  | (.ok head, m) => (none, { o with mem := m, insert_list := head :: o.insert_list })

/-- The node intersects the updated range: clone and split it. -/
def cloneAndSplit (p : OpuProcess) (start last : ℕ) (node : ItNode) (o : Overlap) :
    Except Errno ℕ × Overlap :=
  match svmRangeClone p node.prange o.mem with
  | (none, m) => (.error .enomem, { o with mem := m })
  | (some prange, m) =>
    let o := { o with
      mem := m, remove_list := node.prange :: o.remove_list,
      insert_list := prange :: o.insert_list }
    match (if node.start < start then svmRangeSplitHead p prange start o else (none, o)) with
    | (some e, o) => (.error e, o)
    | (none, o) =>
      match (if node.last > last then svmRangeSplitTail p prange last o else (none, o)) with
      | (some e, o) => (.error e, o)
      | (none, o) => (.ok prange, o)

/-- The range of the node that lies in the request: its clone, or itself when the node is
contained in `[start, last]`. -/
def innerRange (p : OpuProcess) (start last : ℕ) (node : ItNode) (o : Overlap) :
    Except Errno ℕ × Overlap :=
  if node.start < start ∨ node.last > last then cloneAndSplit p start last node o
  else (.ok node.prange, o)

/-- Insert a new node if needed: the pages between `start` and the node. -/
def fillGap (p : OpuProcess) (start : ℕ) (node : ItNode) (o : Overlap) : Option Errno × Overlap :=
  if node.start > start then
    match svmRangeNew p start (node.start - 1) o.mem with
    | (none, m) => (some .enomem, { o with mem := m })
    | (some prange, m) =>
      (none, { o with
        mem := m, insert_list := prange :: o.insert_list,
        update_list := prange :: o.update_list })
  else (none, o)

/-- A range with other attributes than `new` goes on the update list. -/
def addToUpdateList (new : SvmAttrs) (prange : ℕ) (o : Overlap) : Overlap :=
  if svmRangeIsSameAttrs (o.mem.ranges prange).toSvmAttrs new then o
  else { o with update_list := prange :: o.update_list }

/-- One round of `svm_range_handle_overlap`. -/
def overlapNode (p : OpuProcess) (new : SvmAttrs) (start last : ℕ) (node : ItNode) (o : Overlap) :
    Option Errno × Overlap :=
  match innerRange p start last node o with
  | (.error e, o) => (some e, o)
  | (.ok prange, o) => fillGap p start node (addToUpdateList new prange o)

/-- The loop of `svm_range_handle_overlap` over the nodes of the tree that are left.  `seek` is the
`start` that `interval_tree_iter_first` or `interval_tree_iter_next` looks for the next node
with, `start` the one its round will see. -/
def overlapLoop (p : OpuProcess) (new : SvmAttrs) (last : ℕ) :
    ℕ → ℕ → List ItNode → Overlap → Option Errno × ℕ × Overlap
  | _, start, [], o => (none, start, o)
  | seek, start, node :: nodes, o =>
    if node.start ≤ last ∧ seek ≤ node.last then
      match overlapNode p new start last node o with
      | (some e, o) => (some e, start, o)
      | (none, o) => overlapLoop p new last start (min node.last last + 1) nodes o
    else overlapLoop p new last seek start nodes o

/-- `svm_range_handle_overlap`: the last component is `*left`. -/
def svmRangeHandleOverlap (p : OpuProcess) (s : Svms) (new : SvmAttrs) (start last : ℕ) :
    Option Errno × Overlap × ℕ :=
  match overlapLoop p new last start start s.objects { mem := s.mem } with
  | (some e, _, o) => (some e, { o with mem := o.insert_list.foldl (svmRangeFree p) o.mem }, 0)
  | (none, start, o) => (none, o, if start ≤ last then last - start + 1 else 0)

/-- `svm_range_add`. -/
def svmRangeAdd (p : OpuProcess) (s : Svms) (start size : ℕ) (attrs : List SvmAttribute) :
    Option Errno × Overlap :=
  let last := start + size - 1
  let new := svmRangeApplyAttrs p attrs {}
  match svmRangeHandleOverlap p s new start last with
  | (some e, o, _) => (some e, o)
  | (none, o, left) =>
    if left ≠ 0 then
      -- `last - left + 1` of the source, where `left` may be `last + 1`
      match svmRangeNew p (last + 1 - left) last o.mem with
      | (none, m) => (some .oops, { o with mem := m })
      | (some prange, m) =>
        (none, { o with
          mem := m, insert_list := prange :: o.insert_list,
          update_list := prange :: o.update_list })
    else (none, o)

/-! ### The transaction -/

/-- `struct vm_area_struct`; `device` says that one of the flags `VM_IO`, `VM_PFNMAP`,
`VM_MIXEDMAP` is set. -/
structure Vma where
  vm_start : ℕ
  vm_end : ℕ
  device : Bool

/-- `find_vma`: the first area that ends behind `addr`; `mm` lists the areas in order. -/
def findVma (mm : List Vma) (addr : ℕ) : Option Vma := mm.find? (addr < ·.vm_end)

theorem findVma_lt {mm : List Vma} {addr : ℕ} {vma : Vma} (h : findVma mm addr = some vma) :
    addr < vma.vm_end := by
  simpa using List.find?_some h

/-- The loop of `svm_range_is_valid`. -/
def validFrom (mm : List Vma) (start fin : ℕ) : Bool :=
  match _h : findVma mm start with
  | none => false
  | some vma =>
    if start < vma.vm_start ∨ vma.device then false
    else if min fin vma.vm_end < fin then validFrom mm (min fin vma.vm_end) fin
    else true
  termination_by fin - start
  decreasing_by
    have := findVma_lt _h
    omega

/-- One area that has all of the pages is enough. -/
theorem validFrom_of_area {mm : List Vma} {start fin : ℕ} {vma : Vma}
    (h : findVma mm start = some vma) (hs : vma.vm_start ≤ start) (hd : vma.device = false)
    (he : fin ≤ vma.vm_end) : validFrom mm start fin = true := by
  rw [validFrom]
  split
  · rename_i hn
    rw [h] at hn
    cases hn
  · rename_i v hv
    obtain rfl := Option.some.inj (h.symm.trans hv)
    rw [if_neg (by rw [hd]; simp only [Bool.false_eq_true, or_false]; omega), if_neg (by omega)]

/-- `svm_range_is_valid`. -/
def svmRangeIsValid (mm : List Vma) (start size : ℕ) : Bool :=
  let start := u64 (start <<< PAGE_SHIFT)
  validFrom mm start (u64 (start + u64 (size <<< PAGE_SHIFT)))

/-- The inserts of the transaction. -/
def insertAll (s : Svms) (insert_list : List ℕ) : Svms :=
  insert_list.foldl (fun s i => svmRangeAddNotifierLocked (svmRangeAddToSvms s i) i) s

/-- The updates of the transaction. -/
def updateAll (p : OpuProcess) (attrs : List SvmAttribute) (s : Svms) (update_list : List ℕ) :
    Svms :=
  update_list.foldl (fun s i =>
    { s with mem := s.mem.setRange i fun r =>
        { r with toSvmAttrs := svmRangeApplyAttrs p attrs r.toSvmAttrs } }) s

/-- An old range is replaced: unlink it, remove its notifier, free it. -/
def removeOld (p : OpuProcess) (s : Svms) (prange : ℕ) : Svms :=
  let s := svmRangeRemoveNotifier (svmRangeUnlink s prange) prange
  { s with mem := svmRangeFree p s.mem prange }

/-- `svm_range_set_attr`, up to the end of the transaction. -/
def svmRangeSetAttr (p : OpuProcess) (mm : List Vma) (s : Svms) (start size : ℕ)
    (attrs : List SvmAttribute) : Option Errno × Svms :=
  match svmRangeCheckAttr p attrs with
  | some e => (some e, s)
  | none =>
    if !svmRangeIsValid mm start size then (some .efault, s)
    else
      match svmRangeAdd p s start size attrs with
      | (some e, o) => (some e, { s with mem := o.mem })
      | (none, o) =>
        let s := insertAll { s with mem := o.mem } o.insert_list
        let s := updateAll p attrs s o.update_list
        (none, o.remove_list.foldl (removeOld p) s)

end Codrive.Svm
