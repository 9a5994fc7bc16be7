/-
# The walk that maps a range of pages

`amdgpu_vm_update_ptes` (`src/src/cmdio/linux/opu_vm_mgr.c`), with the cursor it walks the page
tables with and the fragments it maps by.

| here | source |
|---|---|
| `VmMgr` | what the walk reads of `struct opu_vm_mgr`, for tables whose sizes fit their types |
| `Params` | what it reads of `struct opu_vm_update_params`, its flags, and if huge pages are used |
| `Tables` | which entries have a table of entries below them: `entry->entries`, by the path to it |
| `Cursor` | `struct opu_vm_pt_cursor`; `path` is the way from the root to `entry`, last first |
| `Update` | a call of `update_funcs->update` |

The file does not compile as it is.  `use_64_page` is the field `use_64k_page`, the last argument
of `amdgpu_vm_alloc_pts` is the parameter `need_spe`, and `entry->bo`, which no line sets, is no
field.  Every allocation succeeds.  Where the memory of a table is, `mo_offset` in it, and what
`amdgpu_vm_alloc_pts` writes into the entry of the parent are left out; so is
`amdgpu_vm_free_table`, which has no body in the repository: a table it frees has no entries.
-/

import Codrive.Vm.SplitMapping

namespace Codrive.Vm

open Codrive.Basis

/-- `OPU_VM_PDE`, the level of huge pages. -/
abbrev OPU_VM_PDE : ℕ := 2

/-- `OPU_VM_PTE`. -/
abbrev OPU_VM_PTE : ℕ := 3

/-- `OPU_VM_SPE`, the level of pages of 4K below one of 64K. -/
abbrev OPU_VM_SPE : ℕ := 4

/-- `MIN_FRAGMENT_SIZE`. -/
abbrev MIN_FRAGMENT_SIZE : ℕ := 3

/-- The loop of `opu_vm_level_shift`, after so many iterations from `OPU_VM_SPE` down. -/
def shiftLoop (frame_size : ℕ → ℕ) : ℕ → ℕ
  | 0 => 0
  | d + 1 => shiftLoop frame_size d + frame_size (OPU_VM_SPE - d)

/-- `opu_vm_level_shift`. -/
def opuVmLevelShift (frame_size : ℕ → ℕ) (level : ℕ) : ℕ :=
  shiftLoop frame_size (OPU_VM_SPE - level)

/-- `round_up`. -/
def roundUp (x y : ℕ) : ℕ := (x + (y - 1)) / y * y

/-- The number of entries of the root. -/
def rootEntries (frame_size : ℕ → ℕ) (root_level max_pfn : ℕ) : ℕ :=
  roundUp max_pfn (1 <<< opuVmLevelShift frame_size root_level) >>>
    opuVmLevelShift frame_size root_level

/-- The geometry of the page tables. -/
structure VmMgr where
  frame_size : ℕ → ℕ
  fragment_size : ℕ
  root_level : ℕ
  max_pfn : ℕ
  use_64k_page : Bool
  root_level_le : root_level ≤ OPU_VM_PTE
  /-- The size of a table in bytes is a `uint32_t`. -/
  frame_size_le : ∀ level, frame_size level ≤ 28
  /-- A huge page's size in bytes is computed in an `int`, as is the size of a fragment. -/
  huge_lt : frame_size OPU_VM_PTE + frame_size OPU_VM_SPE + PAGE_SHIFT < 31
  fragment_size_lt : fragment_size < 31
  /-- What is below an entry of level `OPU_VM_PTE` is the base page. -/
  spe : frame_size OPU_VM_SPE = if use_64k_page then 4 else 0
  /-- The root has the entries it needs, and every page boundary a 64-bit address. -/
  max_pfn_le : rootEntries frame_size root_level max_pfn ≤ 1 <<< frame_size root_level
  address_lt : (rootEntries frame_size root_level max_pfn <<<
    opuVmLevelShift frame_size root_level) <<< PAGE_SHIFT < 2 ^ 64
  shift_le : opuVmLevelShift frame_size root_level + frame_size root_level ≤ 52

/-- What a range is mapped with. -/
structure Params where
  /-- `params->pages_addr` is no null pointer. -/
  pages_addr : Bool
  page_order : ℕ
  /-- `opu_setting_vm_use_huge_page`. -/
  use_huge_page : Bool
  flags : ℕ

variable (m : VmMgr) (p : Params)

/-- `opu_vm_level_shift`. -/
def VmMgr.levelShift (level : ℕ) : ℕ := opuVmLevelShift m.frame_size level

/-- `opu_vm_num_entries`. -/
def opuVmNumEntries (level : ℕ) : ℕ :=
  if level = m.root_level then rootEntries m.frame_size m.root_level m.max_pfn
  else 1 <<< m.frame_size level

/-- `opu_vm_entries_mask`. -/
def opuVmEntriesMask (level : ℕ) : ℕ := 1 <<< m.frame_size level - 1

/-- `x & ~(k - 1)`, for a power of two `k`. -/
def alignDown (x k : ℕ) : ℕ := x / k * k

/-- `OPU_VM_PTE_COUNT`, in pages of 4K. -/
def hugePageCount : ℕ := 1 <<< m.frame_size OPU_VM_PTE * if m.use_64k_page then 16 else 1

/-- `need_spe`. -/
def needSpe : Bool := m.use_64k_page && p.pages_addr && p.page_order == 0

/-- `flags & OPU_PTE_SYSTEM`. -/
def Params.system : Bool := p.flags &&& 1 <<< 1 != 0

/-! ### The cursor -/

/-- Which entries have a table below them. -/
abbrev Tables : Type := List ℕ → Bool

/-- A place in the page tables. -/
structure Cursor where
  pfn : ℕ
  path : List ℕ
  level : ℕ
  deriving DecidableEq, Repr

/-- `opu_vm_pt_start`. -/
def opuVmPtStart (start : ℕ) : Cursor := ⟨start, [], m.root_level⟩

/-- `opu_vm_pt_descendant`. -/
def opuVmPtDescendant (t : Tables) (c : Cursor) : Option Cursor :=
  if t c.path then
    some ⟨c.pfn, (c.pfn >>> m.levelShift c.level &&& opuVmEntriesMask m c.level) :: c.path,
      c.level + 1⟩
  else none

/-- `amdgpu_vm_pt_sibling`. -/
def amdgpuVmPtSibling (c : Cursor) : Option Cursor :=
  match c.path with
  | [] => none
  | i :: parent =>
    let shift := m.levelShift (c.level - 1)
    if i + 1 = opuVmNumEntries m (c.level - 1) then none
    else some ⟨alignDown (u64 (c.pfn + 1 <<< shift)) (1 <<< shift), (i + 1) :: parent, c.level⟩

/-- The loop of `amdgpu_vm_pt_next`: `amdgpu_vm_pt_ancestor` while there is no sibling. -/
def climb (pfn : ℕ) : List ℕ → ℕ → Cursor
  | [], level => ⟨2 ^ 64 - 1, [], level⟩
  | i :: parent, level =>
    match amdgpuVmPtSibling m ⟨pfn, i :: parent, level⟩ with
    | some c => c
    | none => climb pfn parent (level - 1)

/-- `amdgpu_vm_pt_next`. -/
def amdgpuVmPtNext (t : Tables) (c : Cursor) : Cursor :=
  match opuVmPtDescendant m t c with
  | some c => c
  | none => climb m c.pfn c.path c.level

/-- `amdgpu_vm_alloc_pts`: the entries of a new table have none below them. -/
def amdgpuVmAllocPts (t : Tables) (c : Cursor) : Tables :=
  if (c.level < OPU_VM_PTE ∨ (c.level = OPU_VM_PTE ∧ needSpe m p)) ∧ !t c.path then
    fun path => if path = c.path then true else if c.path <:+ path then false else t path
  else t

/-- `amdgpu_vm_free_pts`: the table and all levels below it. -/
def amdgpuVmFreePts (t : Tables) (c : Cursor) : Tables :=
  fun path => if c.path <:+ path then false else t path

/-! ### Fragments -/

/-- `ffs`: the lowest bit set of an `int`, counted from one. -/
def ffs (x : ℕ) : ℕ :=
  match (List.range 32).find? fun i => x.testBit i with
  | some i => i + 1
  | none => 0

/-- `fls64`: the highest bit set, counted from one. -/
def fls64 (x : ℕ) : ℕ := if x = 0 then 0 else x.log2 + 1

/-- `amdgpu_vm_fragment`: the fragment, and where it ends. -/
def amdgpuVmFragment (start end_ : ℕ) : ℕ × ℕ :=
  if m.fragment_size = 0 ∨ p.pages_addr then (0, end_)
  else
    let start := if m.use_64k_page then u64 (start <<< 12) >>> 16 else start
    let end_ := if m.use_64k_page then u64 (end_ <<< 12) >>> 16 else end_
    let frag := min (wrap 32 (ffs start + (2 ^ 32 - 1)))
      (wrap 32 (fls64 (sub64 end_ start) + (2 ^ 32 - 1)))
    let frag := min frag m.fragment_size
    let frag_end := u64 (start + 1 <<< frag)
    (if frag < MIN_FRAGMENT_SIZE then 0 else frag,
      if m.use_64k_page then u64 (frag_end <<< 16) >>> 12 else frag_end)

/-- `OPU_PTE_FRAG`. -/
def OPU_PTE_FRAG (frag : ℕ) : ℕ := (frag &&& 0x1f) <<< 7

/-- `opu_vm_can_huge_page`. -/
def opuVmCanHugePage (start end_ : ℕ) : Bool :=
  p.use_huge_page && !p.system && hugePageCount m ≤ sub64 end_ start &&
    start &&& (hugePageCount m - 1) == 0

/-! ### The walk -/

/-- A call of `update_funcs->update`, on the table that `path` leads to. -/
structure Update where
  level : ℕ
  path : List ℕ
  pe_start : ℕ
  addr : ℕ
  count : ℕ
  incr : ℕ
  flags : ℕ
  deriving DecidableEq, Repr

/-- `amdgpu_vm_update_flags`. -/
def amdgpuVmUpdateFlags (c : Cursor) (pe_start addr count incr flags : ℕ) : Update :=
  let flags := flags ||| (c.level &&& 7) <<< 55
  let flags := if c.level = OPU_VM_PTE ∧ m.use_64k_page then flags ||| 1 <<< 54 else flags
  let flags := if c.level = OPU_VM_PDE then flags ||| 1 <<< 53 else flags
  ⟨c.level, c.path, pe_start, addr, count, incr, flags⟩

/-- What the walk has done, and where it is. -/
structure Walk where
  cursor : Cursor
  tables : Tables
  frag_start : ℕ
  frag : ℕ
  frag_end : ℕ
  dst : ℕ
  updates : List Update

/-- `incr`: the bytes an entry of a level is for. -/
def incrOf (level : ℕ) : ℕ :=
  if level = OPU_VM_PDE then hugePageCount m <<< PAGE_SHIFT
  else if m.use_64k_page then 0x10000 else 0x1000

/-- The `do` loop over the fragments of a table. -/
def updateLoop (end_ entry_end : ℕ) : ℕ → ℕ → Walk → Option Walk
  | 0, _, _ => none
  | n + 1, pe_start, w =>
    let level := w.cursor.level
    let shift := m.levelShift level
    let incr := incrOf m level
    let upd_end :=
      if level = OPU_VM_PDE then alignDown entry_end (1 <<< shift) else min entry_end w.frag_end
    let nptes := wrap 32 (sub64 upd_end w.frag_start >>> shift)
    let cur_frag := if level = OPU_VM_PTE then OPU_PTE_FRAG w.frag else 0
    let update := amdgpuVmUpdateFlags m w.cursor pe_start w.dst nptes
      (if cur_frag ≠ 0 then 0 else incr) (p.flags ||| cur_frag)
    let w := { w with
      updates := w.updates ++ [update], dst := u64 (w.dst + nptes * incr), frag_start := upd_end }
    let pe_start := u64 (pe_start + wrap 32 (nptes * 8))
    let w :=
      if w.frag_end ≤ w.frag_start ∨ level = OPU_VM_PDE then
        let (frag, frag_end) := amdgpuVmFragment m p w.frag_start end_
        { w with frag := frag, frag_end := frag_end }
      else w
    if level ≠ OPU_VM_PDE ∧ w.frag_start < entry_end then updateLoop end_ entry_end n pe_start w
    else some w

/-- The loop that frees the tables below the entries written. -/
def freeLoop : ℕ → Walk → Option Walk
  | 0, _ => none
  | n + 1, w =>
    if w.cursor.pfn < w.frag_start then
      let tables := amdgpuVmFreePts w.tables w.cursor
      freeLoop n { w with tables := tables, cursor := amdgpuVmPtNext m tables w.cursor }
    else some w

/-- An iteration of the walk.  Each inner loop moves on by a page or more. -/
def walkStep (end_ : ℕ) (w : Walk) : Option (Except Errno Walk) :=
  let w := { w with tables := amdgpuVmAllocPts m p w.tables w.cursor }
  let c := w.cursor
  if c.level < OPU_VM_PDE ∨ (c.level = OPU_VM_PDE ∧ !opuVmCanHugePage m p c.pfn end_) ∨
      (c.level = OPU_VM_PTE ∧ needSpe m p) then
    match opuVmPtDescendant m w.tables c with
    | none => some (.error .enoent)
    | some c => some (.ok { w with cursor := c })
  else
    let shift := m.levelShift c.level
    let mask := opuVmEntriesMask m c.level
    let pe_start := (c.pfn >>> shift &&& mask) * 8
    let entry_end := (mask + 1) <<< shift
    let entry_end := min (entry_end + alignDown c.pfn entry_end) end_
    match updateLoop m p end_ entry_end end_ pe_start w with
    | none => none
    | some w =>
      match opuVmPtDescendant m w.tables w.cursor with
      | some c => (freeLoop m (w.frag_start + 1) { w with cursor := c }).map .ok
      | none => some (.ok { w with cursor := amdgpuVmPtNext m w.tables w.cursor })

/-- The walk, for so many iterations. -/
def walk (end_ : ℕ) : ℕ → Walk → Option (Except Errno Walk)
  | 0, _ => none
  | n + 1, w =>
    if w.cursor.pfn < end_ then
      match walkStep m p end_ w with
      | none => none
      | some (.error e) => some (.error e)
      | some (.ok w) => walk end_ n w
    else some (.ok w)

/-- The range is not refused. -/
def Accepted (start end_ : ℕ) : Prop :=
  m.use_64k_page → start <<< PAGE_SHIFT &&& 0xFFFF = 0 ∧ end_ <<< PAGE_SHIFT &&& 0xFFFF = 0

instance (start end_ : ℕ) : Decidable (Accepted m start end_) :=
  inferInstanceAs (Decidable (_ → _))

/-- The state the walk starts in. -/
def walkStart (t : Tables) (start end_ dst : ℕ) : Walk :=
  let (frag, frag_end) := amdgpuVmFragment m p start end_
  ⟨opuVmPtStart m start, t, start, frag, frag_end, dst, []⟩

/-- `amdgpu_vm_update_ptes`, for so many iterations. -/
def amdgpuVmUpdatePtes (n : ℕ) (t : Tables) (start end_ dst : ℕ) : Option (Except Errno Walk) :=
  if Accepted m start end_ then walk m p end_ n (walkStart m p t start end_ dst)
  else some (.error .einval)

/-! ### What it is for -/

/-- The first page of a table. -/
def tableBase : List ℕ → ℕ
  | [] => 0
  | i :: path => tableBase path + i <<< m.levelShift (m.root_level + path.length)

/-- Every step of a path is to an entry of its table. -/
def InTables : List ℕ → Prop
  | [] => True
  | i :: path => i < opuVmNumEntries m (m.root_level + path.length) ∧ InTables path

namespace Update

variable (u : Update)

/-- The first page of an update. -/
def firstPage : ℕ := tableBase m u.path + (u.pe_start / 8) <<< m.levelShift u.level

/-- The entries it writes, by the pages they are for. -/
def leaves : List (ℕ × ℕ) :=
  (List.range u.count).map fun i =>
    (u.firstPage m + i <<< m.levelShift u.level, 1 <<< m.levelShift u.level)

/-- The entries it writes are entries of a table of the tree. -/
def InTree : Prop :=
  u.level = m.root_level + u.path.length ∧ u.level ≤ OPU_VM_SPE ∧ InTables m u.path ∧
    u.pe_start / 8 + u.count ≤ opuVmNumEntries m u.level

end Update

/-- No entry of the last level has a table below it. -/
def Tables.Shaped (t : Tables) : Prop :=
  ∀ path, OPU_VM_SPE ≤ m.root_level + path.length → t path = false

/-- A page is one of a leaf entry. -/
def covers (page : ℕ) (leaf : ℕ × ℕ) : Bool := leaf.1 ≤ page && page < leaf.1 + leaf.2

/-- **The range is mapped**: the walk returns, every page of the range is in one leaf entry that it
writes and every other page in none, and every update has the address of its first page. -/
def Mapped (t : Tables) (start end_ dst : ℕ) : Prop :=
  ∃ n w, amdgpuVmUpdatePtes m p n t start end_ dst = some (.ok w) ∧
    (∀ u ∈ w.updates, u.InTree m) ∧
    (∀ page, (w.updates.flatMap (Update.leaves m)).countP (covers page) =
      if start ≤ page ∧ page < end_ then 1 else 0) ∧
    ∀ u ∈ w.updates, u.addr = u64 (dst + 0x1000 * (u.firstPage m - start))

/-- The pages that the root has entries for. -/
def coverage : ℕ := opuVmNumEntries m m.root_level <<< m.levelShift m.root_level

/-- The pages at the end of a range that no huge pages are used for. -/
def rest (start end_ : ℕ) : ℕ :=
  if p.use_huge_page && !p.system && m.root_level ≤ OPU_VM_PDE && start % hugePageCount m == 0 then
    (end_ - start) % hugePageCount m
  else end_ - start

end Codrive.Vm
