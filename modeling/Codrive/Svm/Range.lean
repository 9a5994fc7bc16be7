/-
# Shared virtual memory ranges

`struct svm_range`, `struct svm_range_bo` and the functions of
`src/src/cmdio/linux/opu_svm.c` that make, split, clone and free a range.

| here | source |
|---|---|
| an index into `Mem.ranges` | `struct svm_range *` |
| an index into `Mem.bos` | `struct svm_range_bo *` |
| `Mem.allocs` | what the next `kzalloc` and `kvmalloc_array` calls answer; success after that |
| `Mem.freed` | the ranges `kfree` was called on |
| `Finset ℕ` | the set bits of a bitmap |
| `List ℕ` | a list through one of the range's list heads, first element first |

Page numbers are addresses shifted right by `PAGE_SHIFT`, so the sums and differences of page
numbers below do not leave a 64-bit word.  Addresses do where `start << PAGE_SHIFT` drops bits,
and are reduced.
-/

import Codrive.Basis.Machine
import Mathlib.Data.Finset.Insert
import Mathlib.Logic.Function.Basic

namespace Codrive.Svm

open Codrive.Basis

/-- The error numbers the functions here return; `oops` is a fault on a null pointer. -/
inductive Errno where
  | enomem | einval | efault | oops
  deriving DecidableEq, Repr

/-- What the attributes of a request set: the fields `svm_range_apply_attrs` writes. -/
structure SvmAttrs where
  flags : BitVec 32 := 0
  preferred_loc : BitVec 32 := 0
  prefetch_loc : BitVec 32 := 0
  granularity : BitVec 8 := 0
  bitmap_access : Finset ℕ := ∅
  bitmap_aip : Finset ℕ := ∅
  deriving DecidableEq

/-- `enum svm_work_list_ops`. -/
inductive WorkOp where
  | null | unmapRange | updateRangeNotifier | updateRangeNotifierAndMap | addRange
  | addRangeAndMap
  deriving DecidableEq, Repr

/-- `struct svm_range`; `it_start`, `it_last` are its interval tree node, `notifier_start`,
`notifier_last` the interval of its MMU notifier, in bytes. -/
structure SvmRange extends SvmAttrs where
  start : ℕ := 0
  last : ℕ := 0
  npages : ℕ := 0
  it_start : ℕ := 0
  it_last : ℕ := 0
  notifier_start : ℕ := 0
  notifier_last : ℕ := 0
  actual_loc : BitVec 32 := 0
  /-- The DMA addresses of its pages on each GPU. -/
  dma_addr : ℕ → Option (List ℕ) := fun _ => none
  ttm_res : Option ℕ := none
  offset : ℕ := 0
  svm_bo : Option ℕ := none
  /-- `work_item.op`. -/
  op : WorkOp := .null
  child_list : List ℕ := []

/-- `struct svm_range_bo`. -/
structure SvmBo where
  kref : ℕ := 0
  range_list : List ℕ := []

/-- The ranges and buffers in memory, and the allocator. -/
structure Mem where
  ranges : ℕ → SvmRange
  bos : ℕ → SvmBo
  /-- The first index that was never a range. -/
  next : ℕ
  freed : List ℕ := []
  allocs : List Bool := []

/-- What `linux/opu_ioctl.h`, which is not in the repository, defines. -/
structure Uapi where
  LOCATION_SYSMEM : BitVec 32
  LOCATION_UNDEFINED : BitVec 32
  FLAG_HOST_ACCESS : BitVec 32
  FLAG_COHERENT : BitVec 32

/-- What the functions here read of `struct opu_process`. -/
structure OpuProcess where
  uapi : Uapi
  /-- `pdds[i]->dev->id` for `i < n_pdds`. -/
  pdds : List (Option (BitVec 32))
  xnack_enabled : Bool
  bitmap_supported : Finset ℕ

/-- `MAX_GPU_INSTANCE`. -/
def MAX_GPU_INSTANCE : ℕ := 16

/-- `PAGE_SHIFT`. -/
def PAGE_SHIFT : ℕ := 12

/-! ### Memory -/

/-- `*prange = f(*prange)`. -/
def Mem.setRange (m : Mem) (i : ℕ) (f : SvmRange → SvmRange) : Mem :=
  { m with ranges := Function.update m.ranges i (f (m.ranges i)) }

/-- `*svm_bo = f(*svm_bo)`. -/
def Mem.setBo (m : Mem) (b : ℕ) (f : SvmBo → SvmBo) : Mem :=
  { m with bos := Function.update m.bos b (f (m.bos b)) }

/-- Whether the next allocation succeeds, and the memory after it. -/
def Mem.kalloc (m : Mem) : Bool × Mem := (m.allocs.headD true, { m with allocs := m.allocs.tail })

@[simp] theorem Mem.kalloc_ranges (m : Mem) : m.kalloc.2.ranges = m.ranges := rfl
@[simp] theorem Mem.kalloc_next (m : Mem) : m.kalloc.2.next = m.next := rfl
@[simp] theorem Mem.setBo_ranges (m : Mem) (b : ℕ) (f : SvmBo → SvmBo) :
    (m.setBo b f).ranges = m.ranges := rfl
@[simp] theorem Mem.setBo_next (m : Mem) (b : ℕ) (f : SvmBo → SvmBo) :
    (m.setBo b f).next = m.next := rfl
@[simp] theorem Mem.setRange_next (m : Mem) (i : ℕ) (f : SvmRange → SvmRange) :
    (m.setRange i f).next = m.next := rfl
@[simp] theorem Mem.setRange_self (m : Mem) (i : ℕ) (f : SvmRange → SvmRange) :
    (m.setRange i f).ranges i = f (m.ranges i) := by
  simp [Mem.setRange]

theorem Mem.setRange_of_ne (m : Mem) {i k : ℕ} (f : SvmRange → SvmRange) (h : k ≠ i) :
    (m.setRange i f).ranges k = m.ranges k := by
  simp [Mem.setRange, h]

/-! ### Buffers -/

/-- `svm_range_bo_ref` and the `list_add` of the range that follows it. -/
def svmRangeBoRef (m : Mem) (bo : Option ℕ) (prange : ℕ) : Mem :=
  match bo with
  | none => m
  | some b =>
    m.setBo b fun bo => { bo with kref := bo.kref + 1, range_list := prange :: bo.range_list }

/-- `svm_range_bo_release`: every range of the list loses the buffer. -/
def svmRangeBoRelease (m : Mem) (b : ℕ) : Mem :=
  ((m.bos b).range_list.foldl
    (fun m i => m.setRange i fun r => { r with svm_bo := none }) m).setBo b
    fun bo => { bo with range_list := [] }

/-- `svm_range_bo_unref`. -/
def svmRangeBoUnref (m : Mem) : Option ℕ → Mem
  | none => m
  | some b =>
    let m := m.setBo b fun bo => { bo with kref := bo.kref - 1 }
    if (m.bos b).kref = 0 then svmRangeBoRelease m b else m

/-! ### Making and freeing a range -/

/-- `svm_range_set_default_attributes` and the access bitmap `svm_range_new` sets. -/
def defaultAttrs (p : OpuProcess) : SvmAttrs where
  preferred_loc := p.uapi.LOCATION_UNDEFINED
  prefetch_loc := p.uapi.LOCATION_UNDEFINED
  granularity := 9
  flags := p.uapi.FLAG_HOST_ACCESS ||| p.uapi.FLAG_COHERENT
  bitmap_access := if p.xnack_enabled then p.bitmap_supported else ∅
  bitmap_aip := ∅

/-- `svm_range_new`. -/
def svmRangeNew (p : OpuProcess) (start last : ℕ) (m : Mem) : Option ℕ × Mem :=
  match m.kalloc with
  | (false, m) => (none, m)
  | (true, m) =>
    (some m.next,
      { m.setRange m.next fun _ =>
          { defaultAttrs p with start := start, last := last, npages := last - start + 1 } with
        next := m.next + 1 })

/-- `svm_range_vram_node_free`. -/
def svmRangeVramNodeFree (m : Mem) (prange : ℕ) : Mem :=
  (svmRangeBoUnref m (m.ranges prange).svm_bo).setRange prange fun r => { r with ttm_res := none }

/-- `svm_range_free_dma_mappings`: the arrays of the GPUs the process has. -/
def svmRangeFreeDmaMappings (p : OpuProcess) (m : Mem) (prange : ℕ) : Mem :=
  m.setRange prange fun r =>
    { r with dma_addr := fun i => if (p.pdds.getD i none).isSome then none else r.dma_addr i }

/-- `svm_range_free`. -/
def svmRangeFree (p : OpuProcess) (m : Mem) (prange : ℕ) : Mem :=
  let m := svmRangeFreeDmaMappings p (svmRangeVramNodeFree m prange) prange
  { m with freed := prange :: m.freed }

/-! ### Splitting a range -/

/-- `svm_range_split_array` for one GPU: what is left to `old` and what `new` gets.  The sizes of
the elements divide out. -/
def svmRangeSplitArray (ppold : Option (List ℕ)) (old_start old_n new_start new_n : ℕ) (m : Mem) :
    Except Errno (Option (List ℕ) × Option (List ℕ)) × Mem :=
  match ppold with
  | none => (.ok (none, none), m)
  | some pold =>
    match m.kalloc with
    | (false, m) => (.error .enomem, m)
    | (true, m) =>
      let new := (pold.drop (new_start - old_start)).take new_n
      match m.kalloc with
      | (false, m) => (.error .enomem, m)
      | (true, m) =>
        let d := if new_start = old_start then new_n else 0
        (.ok (some ((pold.drop d).take old_n), some new), m)

/-- The loop of `svm_range_split_pages` over the GPUs `gpus`. -/
def splitPagesLoop (new old npages : ℕ) : List ℕ → Mem → Option Errno × Mem
  | [], m => (none, m)
  | i :: gpus, m =>
    let o := m.ranges old
    let n := m.ranges new
    match svmRangeSplitArray (o.dma_addr i) o.start npages n.start n.npages m with
    | (.error e, m) => (some e, m)
    | (.ok (aold, anew), m) =>
      let m := match aold with
        | none => m
        | some _ =>
          (m.setRange old fun r =>
            { r with dma_addr := Function.update r.dma_addr i aold }).setRange
            new fun r => { r with dma_addr := Function.update r.dma_addr i anew }
      splitPagesLoop new old npages gpus m

/-- `svm_range_split_pages`. -/
def svmRangeSplitPages (new old start last : ℕ) (m : Mem) : Option Errno × Mem :=
  splitPagesLoop new old (last - start + 1) (List.range MAX_GPU_INSTANCE) m

/-- `svm_range_split_nodes`; it always succeeds. -/
def svmRangeSplitNodes (new old start last : ℕ) (m : Mem) : Mem :=
  let o := m.ranges old
  let n := m.ranges new
  let m :=
    if n.start = o.start then
      (m.setRange new fun r => { r with offset := o.offset }).setRange old fun r =>
        { r with offset := r.offset + n.npages }
    else m.setRange new fun r => { r with offset := o.offset + (last - start + 1) }
  let m := m.setRange new fun r => { r with svm_bo := o.svm_bo, ttm_res := o.ttm_res }
  svmRangeBoRef m o.svm_bo new

/-- What `svm_range_split_adjust` does once pages and nodes are split: `old` is cut down to
`[start, last]`, `new` takes over its attributes. -/
def splitFields (new old start last : ℕ) (m : Mem) : Mem :=
  let m := m.setRange old fun r =>
    { r with npages := last - start + 1, start := start, last := last }
  let o := m.ranges old
  m.setRange new fun r => { r with toSvmAttrs := o.toSvmAttrs, actual_loc := o.actual_loc }

/-- `svm_range_split_adjust`. -/
def svmRangeSplitAdjust (new old start last : ℕ) (m : Mem) : Option Errno × Mem :=
  if (m.ranges new).start < (m.ranges old).start ∨ (m.ranges new).last > (m.ranges old).last then
    (some .einval, m)
  else
    match svmRangeSplitPages new old start last m with
    | (some e, m) => (some e, m)
    | (none, m) =>
      let o := m.ranges old
      let m := if o.actual_loc ≠ 0 ∧ o.ttm_res.isSome then svmRangeSplitNodes new old start last m
        else m
      (none, splitFields new old start last m)

/-- `svm_range_split`: `prange` is cut down to `[start, last]`; the new range is what it lost. -/
def svmRangeSplit (p : OpuProcess) (prange start last : ℕ) (m : Mem) : Except Errno ℕ × Mem :=
  let old_start := (m.ranges prange).start
  let old_last := (m.ranges prange).last
  if old_start ≠ start ∧ old_last ≠ last then (.error .einval, m)
  else if start < old_start ∨ last > old_last then (.error .einval, m)
  else
    match (if old_start = start then svmRangeNew p (last + 1) old_last m
      else svmRangeNew p old_start (start - 1) m) with
    | (none, m) => (.error .enomem, m)
    | (some new, m) =>
      match svmRangeSplitAdjust new prange start last m with
      | (some e, m) => (.error e, svmRangeFree p m new)
      | (none, m) => (.ok new, m)

/-- The clone `new` of `o` shares its buffer, if it has one. -/
def cloneBo (o : SvmRange) (new : ℕ) (m : Mem) : Mem :=
  match o.svm_bo with
  | none => m
  | some b =>
    svmRangeBoRef (m.setRange new fun r =>
      { r with ttm_res := o.ttm_res, offset := o.offset, svm_bo := some b }) (some b) new

/-- `svm_range_clone`. -/
def svmRangeClone (p : OpuProcess) (old : ℕ) (m : Mem) : Option ℕ × Mem :=
  let o := m.ranges old
  match svmRangeNew p o.start o.last m with
  | (none, m) => (none, m)
  | (some new, m) =>
    (some new, (cloneBo o new m).setRange new fun r =>
      { r with toSvmAttrs := o.toSvmAttrs, actual_loc := o.actual_loc })

end Codrive.Svm
