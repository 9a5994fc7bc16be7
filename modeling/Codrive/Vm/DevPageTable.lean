/-
# Page tables of unified buffers

`opu_update_dev_page_table` (`src/src/cmdio/linux/opu_vm_mgr.c`), with the `opu_pages_dma_map` of
`opu_mo_mgr.c` that makes the table of chunk addresses: the memory of a unified buffer is mapped
through a copy of its memory object, whose table has an address for each page.

| here | source |
|---|---|
| `Memory` | the memory objects and tables of addresses, by the number of their block |
| `OpuMo` | `struct opu_mo`: device memory is in nodes, system memory has a table |
| `OpuBo` | `struct opu_bo` |
| `Env` | whether `kzalloc` and `kvzalloc` have memory, and what the update returns |
| `Call` | the arguments of `opu_vm_bo_update_mapping`, with the table they point to |

A call that reads or writes outside its blocks has no result, nor has a shift by 31 bits or more.
`opu_vm_bo_update_mapping` has no body in the repository; it is handed a range of pages and either a
first address or a table with an address for each page (`opu_vm_get_spe_pa`).  The fences and the
device are left out.
-/

import Codrive.Basis.Blocks
import Codrive.Vm.SharedPages
import Codrive.Vm.SplitMapping

namespace Codrive.Vm

open Codrive.Basis

/-- `dma_addr_t`. -/
abbrev DmaAddr := BitVec 64

/-- `PAGE_SIZE`. -/
abbrev PAGE_SIZE : ℕ := 4096

/-- `struct opu_pages`, without the pages themselves. -/
structure Pages where
  order : ℕ
  npages : ℕ
  deriving DecidableEq, Repr

/-- What the memory of an object is: nodes of device memory, or system pages whose chunks have
addresses in a table. -/
inductive Backing where
  | dev_mem (mm_node_array : List MmNode)
  | sys_mem (dma_addr : Option ℕ)

/-- `struct opu_mo`. -/
structure OpuMo where
  is_cpu_cached : Bool
  size : ℕ
  pages : Pages
  backing : Backing
  size_lt : size < 2 ^ 64

/-- `mo->is_dev_mem`. -/
def OpuMo.is_dev_mem (m : OpuMo) : Bool :=
  match m.backing with
  | .dev_mem _ => true
  | .sys_mem _ => false

/-- `mo->dma_addr`; device memory has none. -/
def OpuMo.dma_addr (m : OpuMo) : Option ℕ :=
  match m.backing with
  | .dev_mem _ => none
  | .sys_mem p => p

/-- `mo->dma_addr = p`, of system memory. -/
def OpuMo.setDmaAddr (m : OpuMo) (p : Option ℕ) : OpuMo := { m with backing := .sys_mem p }

/-- A block of memory. -/
inductive Block where
  | object (mo : OpuMo)
  | table (entries : List DmaAddr)

/-- The memory. -/
abbrev Memory := Blocks Block

/-- The object in a block. -/
def Memory.object (s : Memory) (p : ℕ) : Option OpuMo :=
  match s.read p with
  | some (.object m) => some m
  | _ => none

/-- The table in a block. -/
def Memory.table (s : Memory) (p : ℕ) : Option (List DmaAddr) :=
  match s.read p with
  | some (.table t) => some t
  | _ => none

/-- `kvfree`, also of no pointer. -/
def Memory.kvfree (s : Memory) : Option ℕ → Option Memory
  | none => some s
  | some p => s.free p

/-! ### The table of chunk addresses -/

/-- The loop of `opu_pages_dma_map` from chunk `i` on; `map` is `dma_map_page` of the page with this
number, `failed` is `dma_mapping_error`. -/
def mapChunks (map : ℕ → DmaAddr) (failed : DmaAddr → Bool) (order : ℕ) :
    ℕ → ℕ → List DmaAddr → Option Errno × List DmaAddr
  | 0, _, t => (none, t)
  | n + 1, i, t =>
    let addr := map (i <<< order)
    let t := t.set i addr
    if failed addr then (some .einval, t) else mapChunks map failed order n (i + 1) t

/-- `opu_pages_dma_map`: what it returns, and the table it hands out. -/
def opuPagesDmaMap (kvzalloc : Bool) (map : ℕ → DmaAddr) (failed : DmaAddr → Bool)
    (apages : Pages) : Option Errno × Option (List DmaAddr) :=
  let nallocs := wrap 32 apages.npages >>> apages.order
  if !kvzalloc then (some .enomem, none)
  else
    let (err, t) := mapChunks map failed apages.order nallocs 0 (List.replicate nallocs 0)
    -- the table is handed out also when a chunk could not be mapped
    (err, some t)

/-! ### The update -/

/-- `struct opu_bo`. -/
structure OpuBo where
  is_unified : Bool
  bo_va : List BoVa

/-- The arguments of `opu_vm_bo_update_mapping`. -/
structure Call where
  start : ℕ
  last : ℕ
  flags : ℕ
  addr : ℕ
  pages_addr : Option (List DmaAddr)
  page_order : ℕ

/-- The address that a call has for a page. -/
def Call.passed (c : Call) (v : ℕ) : Option DmaAddr :=
  if c.start ≤ v ∧ v ≤ c.last then
    let addr := u64 (c.addr + (v - c.start) * PAGE_SIZE)
    match c.pages_addr with
    | none => some (.ofNat 64 addr)
    | some t => t[addr >>> (if c.page_order ≠ 0 then 16 else 12)]?
  else none

/-- What a call of the function depends on beside its arguments. -/
structure Env where
  kzalloc : Bool
  kvzalloc : Bool
  update : Call → Option Errno

/-- What a call returns, and what it hands to the update. -/
structure Outcome where
  err : Option Errno
  call : Option Call

/-- An iteration of the loop that fills the table of the copy. -/
def fillEntry (mo tmp order : ℕ) (s : Memory) (i : ℕ) : Option Memory := do
  let m ← s.object mo
  let src ← m.dma_addr
  let chunks ← s.table src
  let base ← chunks[i >>> order]?
  let t ← s.object tmp
  let dst ← t.dma_addr
  let entries ← s.table dst
  if order < 31 ∧ i < entries.length then
    s.write dst (.table (entries.set i (base + .ofNat 64 (i % 1 <<< order * PAGE_SIZE))))
  else none

/-- The copy gets a table with an entry for each page. -/
def expand (env : Env) (s : Memory) (mo tmp : ℕ) : Option Memory := do
  let t ← s.object tmp
  let npages := t.pages.npages
  let order := t.pages.order
  let t := { t with pages.order := 0 }
  let s ← s.write tmp (.object t)
  let (dma_addr, s) :=
    if env.kvzalloc then
      let (p, s) := s.alloc (.table (List.replicate (u64 (npages * 8) / 8) 0))
      (some p, s)
    else (none, s)
  let s ← s.write tmp (.object (t.setDmaAddr dma_addr))
  (List.range npages).foldlM (fillEntry mo tmp order) s

/-- The mapping that is updated, where no check fails; each of them returns `-EINVAL`. -/
def mappingOf (obo : OpuBo) (t : OpuMo) : Option Mapping :=
  if !obo.is_unified then none
  else
    match obo.bo_va with
    | [] => none
    | bo_va :: _ =>
      let mapping := bo_va.bo_va_mapping
      if mapping.offset ≠ 0 then none
      else if !t.is_dev_mem && t.dma_addr.isNone then none
      else some mapping

/-- `flags &= ~bit`. -/
def clearFlag (flags bit : ℕ) : ℕ := flags &&& (2 ^ 64 - 1 - bit)

/-- `opu_mo_pte_flags`. -/
def opuMoPteFlags (mo : OpuMo) (access_flags : ℕ) : ℕ :=
  let flags := OPU_PTE_VALID ||| OPU_PTE_RESIDENT ||| access_flags
  let flags := if !mo.is_dev_mem then flags ||| OPU_PTE_SYSTEM else flags
  if mo.is_cpu_cached then flags ||| OPU_PTE_SNOOPED else flags

/-- The flags of the update; the access flags are a 32-bit word. -/
def pteFlags (t : OpuMo) (mapping : Mapping) (va_start va_end : ℕ) (clear : Bool) : ℕ :=
  let pte_flags := opuMoPteFlags t (wrap 32 mapping.flags)
  let pte_flags :=
    if clear then
      if va_start ≤ mapping.last ∧ mapping.start ≤ va_end then clearFlag pte_flags OPU_PTE_RESIDENT
      else clearFlag pte_flags OPU_PTE_VALID
    else pte_flags
  let pte_flags :=
    if mapping.flags &&& OPU_PTE_READABLE = 0 then clearFlag pte_flags OPU_PTE_READABLE
    else pte_flags
  if mapping.flags &&& OPU_PTE_WRITEABLE = 0 then clearFlag pte_flags OPU_PTE_WRITEABLE
  else pte_flags

/-- `addr`: where the first node of device memory starts. -/
def startAddr (t : OpuMo) : Option ℕ :=
  match t.backing with
  | .dev_mem nodes => nodes.head?.map MmNode.start
  | .sys_mem _ => some 0

/-- The table that the copy points to. -/
def tableOf (s : Memory) (t : OpuMo) : Option (Option (List DmaAddr)) :=
  match t.dma_addr with
  | none => some none
  | some p => (s.table p).map some

/-- The call of `opu_vm_bo_update_mapping`. -/
def updateCall (s : Memory) (va : ℕ) (t : OpuMo) (mapping : Mapping) (clear : Bool) :
    Option Call := do
  let va_start := va >>> PAGE_SHIFT
  let va_end := sub64 (va_start + t.size >>> PAGE_SHIFT) 1
  let addr ← startAddr t
  let pages_addr ← tableOf s t
  some ⟨va_start, va_end, pteFlags t mapping va_start va_end clear, addr, pages_addr, t.pages.order⟩

/-- What is done with the copy: the checks, the update, and the cleanup. -/
def updateThrough (env : Env) (s : Memory) (obo : OpuBo) (va mo tmp : ℕ) (clear : Bool) :
    Option (Outcome × Memory) := do
  let t ← s.object tmp
  match mappingOf obo t with
  | none => some (⟨some .einval, none⟩, s)
  | some mapping =>
    let call ← updateCall s va t mapping clear
    let err := env.update call
    let m ← s.object mo
    let s ← if !m.is_dev_mem && m.pages.order != 0 then s.kvfree t.dma_addr else some s
    let s ← s.free tmp
    some (⟨err, some call⟩, s)

/-- `opu_update_dev_page_table`, of the object in the block `mo`. -/
def opuUpdateDevPageTable (env : Env) (s : Memory) (obo : OpuBo) (va mo : ℕ) (clear : Bool) :
    Option (Outcome × Memory) :=
  if !env.kzalloc then some (⟨some .enomem, none⟩, s)
  else do
    let m ← s.object mo
    let (tmp, s) := s.alloc (.object m)
    let s ← if !m.is_dev_mem && m.pages.order != 0 then expand env s mo tmp else some s
    updateThrough env s obo va mo tmp clear

/-! ### What it is for -/

/-- The address of a page of system memory: that of its chunk, and its offset there. -/
def OpuMo.chunkAddr (s : Memory) (m : OpuMo) (i : ℕ) : Option DmaAddr := do
  let p ← m.dma_addr
  let chunks ← s.table p
  let base ← chunks[i / 2 ^ m.pages.order]?
  some (base + .ofNat 64 (i % 2 ^ m.pages.order * PAGE_SIZE))

/-- The address of a page of an object; that of device memory is as `opu_vm_bo_split_mapping` has
it. -/
def OpuMo.pageAddr (vram_base_offset : ℕ) (s : Memory) (m : OpuMo) (i : ℕ) : Option DmaAddr :=
  match m.backing with
  | .dev_mem nodes => (Vm.pageAddr vram_base_offset nodes i).map (.ofNat 64)
  | .sys_mem _ => m.chunkAddr s i

/-- **A call does what it is for**: each page of the range is passed with its own address, no block
of the caller is changed, and each block that was made is given back, which is possible only
once. -/
structure Updated (vram_base_offset : ℕ) (s : Memory) (va : ℕ) (m : OpuMo) (o : Outcome)
    (s' : Memory) : Prop where
  passed : ∀ call, o.call = some call → ∀ i < m.size / PAGE_SIZE,
    ∃ a, m.pageAddr vram_base_offset s i = some a ∧ call.passed (va / PAGE_SIZE + i) = some a
  unmodified : ∀ p < s.length, s'.read p = s.read p
  released : ∀ p, s.length ≤ p → s'.read p = none

end Codrive.Vm
