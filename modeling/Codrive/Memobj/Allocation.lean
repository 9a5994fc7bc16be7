/-
# Allocating the nodes of a memory object

`opu_mm_alloc_memobj` and `opu_mm_remove_memobj` of `src/src/cmdio/linux/opu_mo_mgr.c`, and how
`opu_bo_create` of `opu_bo.c` rounds the size of an object.

The size is split into a first node up to the next huge page, nodes of a huge page, and the rest.
Pages are counted in 32 bits, and their bytes too: `<< PAGE_SHIFT` is a shift of a `uint32_t`.

| here | source |
|---|---|
| `none` | the kernel faults: a division by zero, a write behind `mm_node_array` |
| `Domain` | the `opu_mm` of a heap and its `used_size` |
| `mm` | the nodes that are allocated in the `drm_mm` |
| `Env.hole` | `drm_mm_insert_node_in_range`: where it finds a hole for the node of this index, if it does |
| `Env.array` | `kvmalloc_array` finds memory |

`drm_mm_insert_node_in_range` refuses a size of zero.  The function tests `ret` after the first
node, a name it does not have: it is `err`, as everywhere else.
-/

import Codrive.Basis.Machine
import Mathlib.Data.Nat.Notation
import Mathlib.Data.List.Basic

namespace Codrive.Memobj

open Codrive.Basis

abbrev PAGE_SHIFT : ℕ := 12

abbrev INVALID_ADDR : ℕ := 0xFFFFFFFFFFFFFFFF

/-! ### Rounding -/

/-- `IS_ALIGNED(x, a)` of 64 bits. -/
def IS_ALIGNED (x a : ℕ) : Bool := x &&& sub64 a 1 = 0

/-- `round_up(x, y)` of 64 bits, with the mask of a 32-bit `y`. -/
def round_up (x y : ℕ) : ℕ := u64 ((sub64 x 1 ||| wrap 32 (y + (2 ^ 32 - 1))) + 1)

/-- `DIV_ROUND_UP(n, d)` of 32 bits; dividing by zero faults. -/
def DIV_ROUND_UP (n d : ℕ) : Option ℕ :=
  if d = 0 then none else some (wrap 32 (n + d + (2 ^ 32 - 1)) / d)

/-- `roundup(x, y)` of 64 bits; dividing by zero faults. -/
def roundup (x y : ℕ) : Option ℕ :=
  if y = 0 then none else some (u64 (u64 (x + sub64 y 1) / y * y))

/-! ### The size of an object -/

/-- `vm_mgr`. -/
structure VmMgr where
  support_vm_pt : Bool
  vmid0_only : Bool
  va_align : ℕ
  huge_page_size : ℕ

def OPU_PAGE4K_SIZE : ℕ := 4096

/-- `opu_vm_bo_check_align`. -/
def opuVmBoCheckAlign (mgr : VmMgr) (align size : ℕ) : Bool :=
  let valid_align := if mgr.support_vm_pt then mgr.va_align else OPU_PAGE4K_SIZE
  IS_ALIGNED align valid_align && IS_ALIGNED size valid_align

/-- The size that `opu_bo_create` gives the object, where it accepts it. -/
def opuBoCreateSize (mgr : VmMgr) (is_unified : Bool) (size align : ℕ) : Option ℕ :=
  if size = 0 ∨ align = 0 then none
  else do
    let size ← if is_unified then roundup size align else some size
    if mgr.support_vm_pt && !mgr.vmid0_only then
      if opuVmBoCheckAlign mgr align size then some size else none
    else roundup size align

/-! ### How a request is split -/

/-- What `opu_mm_alloc_memobj` is asked for. -/
structure Request where
  size : ℕ
  size_lt : size < 2 ^ 64 := by decide
  align : ℕ
  is_contiguous : Bool := false
  use_external_addr : Bool := false
  va : ℕ := INVALID_ADDR
  va_lt : va < 2 ^ 64 := by decide
  base : ℕ := 0
  bound : ℕ := INVALID_ADDR

namespace Request

variable (mgr : VmMgr) (r : Request)

/-- `page_count`. -/
def pageCount : ℕ := wrap 32 (r.size >>> PAGE_SHIFT)

/-- One node for everything. -/
def oneNode : Bool := r.is_contiguous || r.use_external_addr

/-- The object is not mapped from a huge page on. -/
def misaligned : Bool := r.va ≠ INVALID_ADDR ∧ ¬IS_ALIGNED r.va mgr.huge_page_size

/-- `page_count_first_node`. -/
def pageCountFirstNode : ℕ :=
  if r.oneNode then 0
  else if r.misaligned mgr then
    min (wrap 32 (sub64 (round_up r.va mgr.huge_page_size) r.va >>> PAGE_SHIFT)) r.pageCount
  else 0

/-- `page_count_per_node`. -/
def pageCountPerNode : ℕ :=
  if r.oneNode then r.pageCount
  else wrap 32 (max mgr.huge_page_size r.align >>> PAGE_SHIFT)

/-- `node_count`. -/
def nodeCount : Option ℕ :=
  if r.oneNode then some 1
  else do
    let n ← DIV_ROUND_UP (r.pageCount - r.pageCountFirstNode mgr) (r.pageCountPerNode mgr)
    return wrap 32 ((if r.misaligned mgr then 1 else 0) + n)

end Request

/-! ### The domain -/

/-- `drm_mm_node`. -/
structure DrmMmNode where
  start : ℕ
  size : ℕ
  allocated : Bool
  deriving DecidableEq

/-- What the `drm_mm` is asked for. -/
structure DrmRequest where
  size : ℕ
  alignment : ℕ
  start : ℕ
  bound : ℕ

/-- What the kernel answers. -/
structure Env where
  array : Bool
  hole : ℕ → DrmRequest → Option ℕ

/-- `opu_mm` and `used_size`. -/
structure Domain where
  mm : List DrmMmNode := []
  used_size : ℕ := 0
  deriving DecidableEq

/-- `mm_node` and `mm_node_count` of an object. -/
structure MmNodes where
  mm_node : List DrmMmNode
  mm_node_count : ℕ
  deriving DecidableEq

/-- The errors. -/
inductive Errno
  | noMem
  | noSpc
  deriving DecidableEq

/-- The nodes that were inserted up to here. -/
structure Taken where
  mm : List DrmMmNode
  mm_node_array : List DrmMmNode := []
  deriving DecidableEq

section

variable (mgr : VmMgr) (r : Request) (env : Env)

/-- `opu_drm_mm_insert_node_in_range` of the next node, with this number of pages.  Says whether it
failed. -/
def insertNode (node_count : ℕ) (t : Taken) (pages : ℕ) : Option (Bool × Taken) :=
  let size := wrap 32 (pages <<< PAGE_SHIFT)
  if size = 0 then some (true, t)
  else
    match env.hole t.mm_node_array.length ⟨size, r.align, r.base, r.bound⟩ with
    | none => some (true, t)
    | some start =>
      if t.mm_node_array.length < node_count then
        let node : DrmMmNode := ⟨start, size, true⟩
        some (false, ⟨node :: t.mm, t.mm_node_array ++ [node]⟩)
      else none

/-- The loop over the huge pages, with what is left after it.  The fuel is `left_page_count`. -/
def insertHugePages (node_count : ℕ) : ℕ → ℕ → Taken → Option (Bool × ℕ × Taken)
  | 0, left_page_count, t => some (false, left_page_count, t)
  | fuel + 1, left_page_count, t =>
    if r.pageCountPerNode mgr < left_page_count then
      match insertNode r env node_count t (r.pageCountPerNode mgr) with
      | none => none
      | some (true, t) => some (true, left_page_count, t)
      | some (false, t) =>
        insertHugePages node_count fuel (left_page_count - r.pageCountPerNode mgr) t
    else some (false, left_page_count, t)

/-- `drm_mm_remove_node` of each of these nodes. -/
def removeNodes (mm nodes : List DrmMmNode) : List DrmMmNode := nodes.foldl List.erase mm

/-- The three groups of nodes. -/
def insertNodes (node_count : ℕ) (t : Taken) : Option (Bool × Taken) := do
  let first := r.pageCountFirstNode mgr
  let (err, t) ← if first ≠ 0 then insertNode r env node_count t first else some (false, t)
  if err then return (true, t)
  let left_page_count := r.pageCount - first
  let (err, left_page_count, t) ←
    insertHugePages mgr r env node_count left_page_count left_page_count t
  if err then return (true, t)
  if 0 < left_page_count then insertNode r env node_count t left_page_count
  else return (false, t)

/-- `opu_mm_alloc_memobj`. -/
def opuMmAllocMemobj (d : Domain) : Option (Except Errno MmNodes × Domain) :=
  match r.nodeCount mgr with
  | none => none
  | some node_count =>
    if !env.array then some (.error .noMem, d)
    else if r.use_external_addr then
      some (.ok ⟨[⟨INVALID_ADDR, r.size, false⟩], 1⟩,
        { d with used_size := u64 (d.used_size + r.size) })
    else
      match insertNodes mgr r env node_count ⟨d.mm, []⟩ with
      | none => none
      | some (true, t) =>
        some (.error .noSpc, { d with mm := removeNodes t.mm t.mm_node_array.reverse })
      | some (false, t) =>
        some (.ok ⟨t.mm_node_array, t.mm_node_array.length⟩,
          ⟨t.mm, u64 (d.used_size + r.size)⟩)

end

/-- `opu_mm_remove_memobj`. -/
def opuMmRemoveMemobj (d : Domain) (nodes : MmNodes) : Domain :=
  (nodes.mm_node.take nodes.mm_node_count).foldl
    (fun d node => ⟨if node.allocated then d.mm.erase node else d.mm, sub64 d.used_size node.size⟩)
    d

/-! ### Live objects -/

/-- An object that is live, with what it was requested as. -/
structure MemObj where
  request : Request
  nodes : MmNodes

/-- The domain, and the objects that are live. -/
structure State where
  domain : Domain := {}
  live : List MemObj := []

/-- A call. -/
inductive Call
  | alloc (r : Request) (env : Env)
  /-- The object at this place. -/
  | remove (k : ℕ)

namespace State

/-- A call leads to this state, unless it faults. -/
def call (mgr : VmMgr) (s : State) : Call → Option State
  | .alloc r env =>
    (opuMmAllocMemobj mgr r env s.domain).map fun
      | (.error _, d) => { s with domain := d }
      | (.ok nodes, d) => ⟨d, ⟨r, nodes⟩ :: s.live⟩
  | .remove k =>
    match s.live[k]? with
    | none => some s
    | some o => some ⟨opuMmRemoveMemobj s.domain o.nodes, s.live.eraseIdx k⟩

/-- The step of a call. -/
def Step (mgr : VmMgr) (s : State) (c : Call) (t : State) : Prop := s.call mgr c = some t

end State

end Codrive.Memobj
