/-
# The page tables of the emulated device

`ProcessVM` of `src/src/cmdio/emu/ProcessVM.h` and `src/src/cmdio/emu/ProcessVM.cpp`: `mmap` maps a
range of virtual addresses to device memory, through tables of four levels (PD0, PD1, PDE, PTE).  A
table is read from device memory into a buffer of the host, changed there, and written back; the PD0
table has a copy in the host, and only the entries of the range are written from it.

| here | source |
|---|---|
| `mem f i` | entry `i` of page `f` of device memory, as `read_mmio` and `write_mmio` see it |
| a page number as a table | `page_address >> PAGE_4KB_BIT_NUM` |
| `alloc` | `BlockAlloc(PAGE_4KB_SIZE)`: the address, 0 for a null pointer |
| `pages` | what `BlockAlloc` gave, the last one first |
| `none` as a result | the host reads or writes behind the end of `pd0_page_` |

`inc/Mmu.h`, the bits of an entry, and `util/utils.h`, `AlignUp` and `AlignDown`, are not in the
repository: a table of 4 KB has 512 entries of 8 bytes, and PD0 has two pages, as `InitVM` asserts.
`malloc_pa_` is not initialised.
-/

import Codrive.Basis.Loop
import Codrive.Basis.Machine
import Codrive.Basis.PageTree

namespace Codrive.Emu

open Codrive.Basis

/-- `PDE` and `PTE`. -/
structure PDE where
  system : ℕ := 0
  executable : ℕ := 0
  readable : ℕ := 0
  writeable : ℕ := 0
  fragment : ℕ := 0
  pte : ℕ := 0
  pagesize : ℕ := 0
  level : ℕ := 0
  address : ℕ := 0
  valid : Bool := false
  deriving DecidableEq

/-- `ProcessVM`. -/
structure ProcessVM where
  pt_base_addr_ : ℕ
  dev_va_base_ : ℕ := 0
  readable_ : ℕ := 0
  writeable_ : ℕ := 0
  executable_ : ℕ := 0
  valid_ : Bool := false
  system_ : ℕ := 0
  pd0_page_ : ℕ → PDE := fun _ => {}
  malloc_pa_ : Bool

/-- Device memory, and the heap that its pages come from. -/
structure Device (H : Type) where
  mem : ℕ → ℕ → PDE
  heap : H
  pages : List ℕ := []

/-- `PAGE_4KB_SIZE`. -/
def pageSize : ℕ := 2 ^ 12

/-- `PTE_BIT_SHIFT`. -/
def pteBitShift : ℕ := 12

/-- `PDE_BIT_SHIFT`. -/
def pdeBitShift : ℕ := 21

/-- `PD1_BIT_SHIFT`. -/
def pd1BitShift : ℕ := 30

/-- `PD0_BIT_SHIFT`. -/
def pd0BitShift : ℕ := 39

/-- `page_entry_num`. -/
def pageEntryNum : ℕ := 512

/-- The entries of the two pages of PD0. -/
def pd0EntryNum : ℕ := 1024

section Builder

variable {H : Type} (alloc : H → ℕ × H) (vm : ProcessVM)

/-- A builder of one table: the first and the last address that the table is for, those of the range
and its physical address, the page of the table, and whether it is new. -/
abbrev Builder (H : Type) := ℕ → ℕ → ℕ → ℕ → ℕ → ℕ → Bool → Device H → Device H

/-- The assignments to the fields of an entry, in any table. -/
def PDE.fill (vm : ProcessVM) (level : ℕ) (e : PDE) : PDE :=
  { e with
    system := vm.system_, executable := vm.executable_, readable := vm.readable_
    writeable := vm.writeable_, fragment := 0, pagesize := 0, level }

/-- One turn of the loop in `SetupPd0Page`, `SetupPd1Page` and `SetupPdePage`, for the entry at
`entry_in_page`: the table below it is new if the entry is not valid. -/
def setupEntry (level : ℕ) (child : Builder H) (va_base va_top va_start va_end pa_start : ℕ)
    (entry_in_page : ℕ) : (ℕ → PDE) × Device H → (ℕ → PDE) × Device H
  | (page, d) =>
    let pde := { PDE.fill vm level (page entry_in_page) with pte := 0 }
    let (pde, d, new_page) :=
      if pde.valid = false then
        let (p, heap) := alloc d.heap
        ({ pde with address := p / pageSize }, { d with heap, pages := p :: d.pages }, true)
      else (pde, d, false)
    let d := child va_base va_top va_start va_end pa_start pde.address new_page d
    (Function.update page entry_in_page { pde with valid := vm.valid_ }, d)

/-- `SetupPd1Page` and `SetupPdePage`: clip the range to the table, read the table unless it is new,
set up the entries of the range, and write the table back. -/
def setupTable (shift level : ℕ) (child : Builder H) : Builder H :=
  fun page_va_base page_va_top va_start va_end pa_start page new_page d =>
    let pa_start := if va_start < page_va_base then pa_start +
      (page_va_base - va_start) else pa_start
    let va_start := if va_start < page_va_base then page_va_base else va_start
    let va_end := if page_va_top < va_end then page_va_top else va_end
    let start := va_start / 2 ^ shift
    let stop := va_end / 2 ^ shift
    let scratch := if new_page then fun _ => {} else d.mem page
    let (scratch, d) := forTo (fun i =>
      let entry_in_page := i % pageEntryNum
      setupEntry alloc vm level child (page_va_base + entry_in_page * 2 ^ shift)
        (page_va_base + (entry_in_page + 1) * 2 ^ shift - 1) va_start va_end pa_start entry_in_page)
      start stop (scratch, d)
    { d with mem := Function.update d.mem page scratch }

/-- `SetupPtePage`. -/
def SetupPtePage : Builder H :=
  fun pte_page_va_base pte_page_va_top va_start va_end pa_start page new_page d =>
    let pa_start :=
      if va_start < pte_page_va_base then pa_start + (pte_page_va_base - va_start) else pa_start
    let va_start := if va_start < pte_page_va_base then pte_page_va_base else va_start
    let va_end := if pte_page_va_top < va_end then pte_page_va_top else va_end
    let pte_start := va_start / 2 ^ pteBitShift
    let pte_end := va_end / 2 ^ pteBitShift
    let scratch := if new_page then fun _ => {} else d.mem page
    let (scratch, d) := forTo (fun i (s : (ℕ → PDE) × Device H) =>
      let (page, d) := s
      let entry_in_page := i % pageEntryNum
      let pte := PDE.fill vm 3 (page entry_in_page)
      let (pte, d) :=
        if pte.valid = false ∧ vm.malloc_pa_ then
          let (p, heap) := alloc d.heap
          ({ pte with address := p / pageSize }, { d with heap, pages := p :: d.pages })
        else ({ pte with address := pa_start / pageSize + i - pte_start }, d)
      (Function.update page entry_in_page { pte with valid := vm.valid_ }, d))
      pte_start pte_end (scratch, d)
    { d with mem := Function.update d.mem page scratch }

/-- `SetupPdePage`. -/
def SetupPdePage : Builder H := setupTable alloc vm pdeBitShift 2 (SetupPtePage alloc vm)

/-- `SetupPd1Page`. -/
def SetupPd1Page : Builder H := setupTable alloc vm pd1BitShift 1 (SetupPdePage alloc vm)

/-- The entries of the PD0 table, as device memory has them. -/
def pd0 (vm : ProcessVM) (mem : ℕ → ℕ → PDE) (i : ℕ) : PDE :=
  mem (vm.pt_base_addr_ / pageSize + i / pageEntryNum) (i % pageEntryNum)

/-- `write_mmio` of entries of the PD0 table: `count` of them from `first` on, from the host's copy
from `source` on. -/
def writePd0 (vm : ProcessVM) (mem : ℕ → ℕ → PDE) (first source count : ℕ) : ℕ → ℕ → PDE :=
  fun f i =>
    let entry := (f - vm.pt_base_addr_ / pageSize) * pageEntryNum + i
    if vm.pt_base_addr_ / pageSize ≤ f ∧ i < pageEntryNum ∧ first ≤ entry ∧
      entry < first + count then
      vm.pd0_page_ (source + (entry - first))
    else mem f i

/-- `SetupPd0Page`.  The pointer into `pd0_page_` counts entries, and is advanced by bytes. -/
def SetupPd0Page (va_start va_end pa_start : ℕ) (d : Device H) : Option (ProcessVM × Device H) :=
  let pd0_start := va_start / 2 ^ pd0BitShift
  let pd0_end := va_end / 2 ^ pd0BitShift
  let count := pd0_end + 1 - pd0_start
  if pd0EntryNum ≤ pd0_end ∨ pd0EntryNum < pd0_start * 8 + count then none
  else
    let (pd0_page_, d) := forTo (fun i =>
      setupEntry alloc vm 0 (SetupPd1Page alloc vm) (i * 2 ^ pd0BitShift)
        ((i + 1) * 2 ^ pd0BitShift - 1) va_start va_end pa_start i) pd0_start pd0_end
      (vm.pd0_page_, d)
    let vm := { vm with pd0_page_ }
    some (vm, { d with mem := writePd0 vm d.mem pd0_start (pd0_start * 8) count })

/-- `AlignDown`, to pages. -/
def alignDown (x : ℕ) : ℕ := x / pageSize * pageSize

/-- `AlignUp`, to pages. -/
def alignUp (x : ℕ) : ℕ := alignDown (u64 (x + (pageSize - 1)))

/-- `ProcessVM::mmap`. -/
def mmap (va_base va_size pa_base readable writeable executable : ℕ) (valid : Bool) (system : ℕ)
    (d : Device H) : Option (ProcessVM × Device H) :=
  let va_start := alignDown va_base
  let va_end := sub64 (alignUp (sub64 (u64 (va_base + va_size)) 1)) 1
  let pa_start := alignDown pa_base
  let vm := { vm with
    malloc_pa_ := if pa_base = 0 then true else vm.malloc_pa_
    readable_ := readable, writeable_ := writeable, executable_ := executable
    valid_ := valid, system_ := system }
  SetupPd0Page alloc vm (sub64 va_start vm.dev_va_base_) (sub64 va_end vm.dev_va_base_) pa_start d

end Builder

/-! ### What the device sees -/

/-- The page that an entry leads to. -/
def PDE.link (e : PDE) : Option ℕ := if e.valid then some e.address else none

/-- The number of entries of a table: PTE, PDE, PD1 and PD0. -/
def fan (n : ℕ) : ℕ := if n = 3 then pd0EntryNum else pageEntryNum

/-- The page that a virtual page is mapped to: a walk of the four tables in device memory. -/
def walkPage (vm : ProcessVM) (mem : ℕ → ℕ → PDE) (v : ℕ) : Option ℕ :=
  PageTree.walk PDE.link fan 3 mem (pd0 vm mem) v

end Codrive.Emu
