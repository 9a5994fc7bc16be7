/-
# Runs of the page table builder

`ProcessVM::mmap` in any order, over a `BlockAlloc` that gives new pages.  As long as no range
starts at 2^39 or above, and none ends with the first byte of a page, the host's copy of PD0 is what
the device has (`TablesOk`), and a walk of the four tables finds what the last call mapped, and
elsewhere what was mapped before (`mmap_spec`).
-/

import Codrive.Emu.ProcessVMSpec
import Codrive.Basis.Run

namespace Codrive.Emu

open Codrive.Basis Codrive.Basis.PageTree

variable {H : Type} {alloc : H → ℕ × H} {I : H → (ℕ → Prop) → Prop} {vm : ProcessVM}

/-- The virtual pages of the device. -/
def virtualPages : ℕ := 2 ^ 37

/-- The two pages of PD0. -/
def ProcessVM.IsPd0 (vm : ProcessVM) (g : ℕ) : Prop :=
  g = vm.pt_base_addr_ / pageSize ∨ g = vm.pt_base_addr_ / pageSize + 1

/-- **The invariant of the page tables**: the host's copy of PD0 is what the device has, and no page
is used twice; `T` has all pages that are used. -/
structure TablesOk (I : H → (ℕ → Prop) → Prop) (vm : ProcessVM) (d : Device H) (T : ℕ → Prop) :
    Prop where
  base : vm.dev_va_base_ = 0
  inv : I d.heap T
  copy : ∀ i < pd0EntryNum, pd0 vm d.mem i = vm.pd0_page_ i
  tree : Tree PDE.link fan 3 d.mem vm.pd0_page_
  owns : ∀ g, Owns PDE.link fan 3 d.mem vm.pd0_page_ g → T g ∧ ¬vm.IsPd0 g
  pd0 : ∀ g, vm.IsPd0 g → T g

/-- The walk starts from the host's copy of PD0. -/
theorem TablesOk.walkPage_eq {d : Device H} {T : ℕ → Prop} (h : TablesOk I vm d T) (v : ℕ) :
    walkPage vm d.mem v = walk PDE.link fan 3 d.mem vm.pd0_page_ v := by
  have hdigit : digit fan 3 v < pd0EntryNum := Nat.mod_lt _ (by decide)
  rw [walkPage, walk, walk, h.copy _ hdigit]

/-- Where an entry of PD0 is. -/
theorem pd0_writePd0 (vm : ProcessVM) (mem : ℕ → ℕ → PDE) (count i : ℕ) :
    pd0 vm (writePd0 vm mem 0 0 count) i = if i < count then vm.pd0_page_ i else pd0 vm mem i := by
  have hsum : i / pageEntryNum * pageEntryNum + i % pageEntryNum = i := Nat.div_add_mod' ..
  have hlt : i % pageEntryNum < pageEntryNum := Nat.mod_lt _ (by decide)
  rw [pd0, writePd0, Nat.add_sub_cancel_left, hsum]
  by_cases hi : i < count
  · rw [if_pos ⟨Nat.le_add_right .., hlt, Nat.zero_le _, by omega⟩, if_pos hi, Nat.zero_add,
      Nat.sub_zero]
  · rw [if_neg (fun hand => hi (by omega)), if_neg hi, pd0]

/-- Only the two pages of PD0 are written. -/
theorem writePd0_of_not (vm : ProcessVM) (mem : ℕ → ℕ → PDE) {count g : ℕ}
    (hcount : count ≤ pd0EntryNum) (hg : ¬vm.IsPd0 g) : writePd0 vm mem 0 0 count g = mem g := by
  funext i
  rw [writePd0]
  refine if_neg ?_
  rintro ⟨hle, hi, -, hlt⟩
  have hnum : pd0EntryNum = 1024 := rfl
  have hpage : pageEntryNum = 512 := rfl
  rw [hpage] at hi hlt
  refine hg ?_
  rw [ProcessVM.IsPd0]
  omega

/-- The loop leaves the entries behind the range. -/
theorem forTo_behind {lo hi : ℕ}
    {body : ℕ → (ℕ → PDE) × Device H → (ℕ → PDE) × Device H} {s : (ℕ → PDE) × Device H}
    (hbody : ∀ i s j, i < j → (body i s).1 j = s.1 j) {j : ℕ} (hj : hi < j) :
    (forTo body lo hi s).1 j = s.1 j := by
  by_cases hle : lo ≤ hi + 1
  · exact forTo_rule (fun _ t => t.1 j = s.1 j) hle rfl fun i t _ hi' ht =>
      (hbody i t j (by omega)).trans ht
  · rw [forTo, show hi + 1 - lo = 0 by omega]
    rfl

/-- An entry of PD0 is set up without the others. -/
theorem setupEntry_other {level va_base va_top va_start va_end pa_start i j : ℕ} {child : Builder H}
    (hij : i ≠ j) (s : (ℕ → PDE) × Device H) :
    (setupEntry alloc vm level child va_base va_top va_start va_end pa_start i s).1 j = s.1 j := by
  rw [setupEntry]
  exact Function.update_of_ne hij.symm ..

/-- **One call of `SetupPd0Page`** for the virtual pages from `a` to `b`, the first of which is
below the first entry of PD0. -/
theorem SetupPd0Page_spec (halloc : Allocates alloc I) (hvalid : vm.valid_ = true)
    (hpa : vm.malloc_pa_ = false) {d : Device H} {T : ℕ → Prop} (h : TablesOk I vm d T)
    {a b : ℕ} (q : ℕ) (hab : a < b) (ha : a < span 2) (hb : b ≤ virtualPages) :
    ∃ page d', SetupPd0Page alloc vm (pageSize * a) (pageSize * b - 1) (pageSize * q) d =
        some ({ vm with pd0_page_ := page }, d') ∧
      ((∀ p ∈ d'.pages, PageOk p) → ∃ T', (∀ g, T g → T' g) ∧
        TablesOk I { vm with pd0_page_ := page } d' T' ∧ ∀ v < virtualPages,
          walkPage { vm with pd0_page_ := page } d'.mem v =
            if a ≤ v ∧ v < b then some (q + (v - a)) else walkPage vm d.mem v) := by
  have hspan₂ : span 2 = 2 ^ 27 := rfl
  have hspan₃ : span 3 = 2 ^ 37 := rfl
  have hfan : fan 3 = 1024 := rfl
  have hnum : pd0EntryNum = 1024 := rfl
  have hpages : virtualPages = 2 ^ 37 := rfl
  have hshift : 2 ^ pd0BitShift = pageSize * span 2 := rfl
  obtain ⟨hfirst, hlast⟩ := entry_eq (a := a) (w := span 2) (by omega : 0 < b)
  have hzero : a / span 2 = 0 := Nat.div_eq_of_lt ha
  have hstop : (b - 1) / span 2 < 1024 := by
    rw [Nat.div_lt_iff_lt_mul (span_pos 2)]
    omega
  generalize hs' : forTo (fun i => setupEntry alloc vm 0 (SetupPd1Page alloc vm)
    (i * 2 ^ pd0BitShift) ((i + 1) * 2 ^ pd0BitShift - 1) (pageSize * a) (pageSize * b - 1)
    (pageSize * q) i) (a / span 2) ((b - 1) / span 2) (vm.pd0_page_, d) = s'
  have hrun : SetupPd0Page alloc vm (pageSize * a) (pageSize * b - 1) (pageSize * q) d =
      some ({ vm with pd0_page_ := s'.1 }, { s'.2 with
        mem := writePd0 { vm with pd0_page_ := s'.1 } s'.2.mem 0 0 ((b - 1) / span 2 + 1) }) := by
    rw [SetupPd0Page]
    dsimp only
    rw [hshift] at hs' ⊢
    rw [hfirst, hlast, if_neg (by omega), hs', hzero]
    rfl
  refine ⟨s'.1, _, hrun, fun hok => ?_⟩
  have hbody : ∀ i s, i / fan 3 = 0 → setupEntry alloc vm 0 (SetupPd1Page alloc vm)
      (i * 2 ^ pd0BitShift) ((i + 1) * 2 ^ pd0BitShift - 1) (pageSize * a) (pageSize * b - 1)
      (pageSize * q) i s = setupEntry alloc vm 0 (SetupPd1Page alloc vm) (pageSize * (i * span 2))
      (pageSize * ((i + 1) * span 2) - 1) (pageSize * a) (pageSize * b - 1) (pageSize * q)
      (i % fan 3) s := fun i s hi => by
    have hmul : ∀ x, x * 2 ^ pd0BitShift = pageSize * (x * span 2) := fun x => by
      rw [hshift]
      ring
    rw [hfan] at hi ⊢
    rw [hmul, hmul, Nat.mod_eq_of_lt (by omega)]
  obtain ⟨T', hfill⟩ := Filling.loop halloc (SetupPd1Page_builds halloc hvalid hpa)
    (fun p => SetupPd1Page_keeps (gives_mem alloc p)) hvalid hbody hab (by omega)
      (by rw [hspan₃]; omega) h.inv h.tree
    (fun g hg => (h.owns g hg).1) hs' hok
  -- neither the tables below nor the loop use the pages of PD0
  have hnot : ∀ g, Owns PDE.link fan 3 s'.2.mem s'.1 g → ¬vm.IsPd0 g := fun g hg hpd =>
    (hfill.owns g hg).elim (fun hold => (h.owns g hold).2 hpd) fun hnew => hnew.2 (h.pd0 g hpd)
  have hsame : ∀ g, vm.IsPd0 g → s'.2.mem g = d.mem g := fun g hpd => by
    by_contra hne
    exact (hfill.written g hne).elim (fun hold => (h.owns g hold).2 hpd) fun hnew =>
      hnew.2 (h.pd0 g hpd)
  have hcount : (b - 1) / span 2 + 1 ≤ pd0EntryNum := by omega
  have hother : ∀ g, Owns PDE.link fan 3 s'.2.mem s'.1 g → writePd0 { vm with pd0_page_ := s'.1 }
      s'.2.mem 0 0 ((b - 1) / span 2 + 1) g = s'.2.mem g := fun g hg =>
    writePd0_of_not { vm with pd0_page_ := s'.1 } s'.2.mem hcount (hnot g hg)
  obtain ⟨howns, htree, hwalk⟩ := congr_of_owns fan_pos hother
  have hcopy : ∀ i < pd0EntryNum, pd0 { vm with pd0_page_ := s'.1 } (writePd0
      { vm with pd0_page_ := s'.1 } s'.2.mem 0 0 ((b - 1) / span 2 + 1)) i = s'.1 i := by
    intro i hi
    rw [pd0_writePd0]
    by_cases hlt : i < (b - 1) / span 2 + 1
    · rw [if_pos hlt]
    · have hpd : vm.IsPd0 (vm.pt_base_addr_ / pageSize + i / pageEntryNum) := by
        have hpage : pageEntryNum = 512 := rfl
        rw [hpage, ProcessVM.IsPd0]
        omega
      have hbehind : s'.1 i = vm.pd0_page_ i := by
        rw [← hs']
        exact forTo_behind (fun i s j hij => setupEntry_other (by omega) s) (by omega)
      rw [if_neg hlt, hbehind, ← h.copy i hi, pd0, pd0]
      exact congrFun (hsame _ hpd) _
  have htables : TablesOk I { vm with pd0_page_ := s'.1 } { s'.2 with
      mem := writePd0 { vm with pd0_page_ := s'.1 } s'.2.mem 0 0 ((b - 1) / span 2 + 1) } T' :=
    ⟨h.base, hfill.inv, hcopy, htree.2 hfill.tree, fun g hg => by
      have hg' := (howns g).1 hg
      exact ⟨(hfill.owns g hg').elim (fun hold => hfill.mono g (h.owns g hold).1) And.left,
        hnot g hg'⟩, fun g hg => hfill.mono g (h.pd0 g hg)⟩
  refine ⟨T', hfill.mono, htables, fun v hv => ?_⟩
  rw [htables.walkPage_eq, h.walkPage_eq, hwalk]
  exact hfill.mapped_end (by rw [hspan₃]; omega)

/-! ### Calls of `mmap` -/

/-- The first virtual page of a range. -/
def firstPage (va : ℕ) : ℕ := va / pageSize

/-- The last virtual page of a range. -/
def lastPage (va size : ℕ) : ℕ := (va + size - 1) / pageSize

/-- A range that `mmap` maps: it starts in the part that the first entry of PD0 is for, it ends in
the address space of the device, and not with the first byte of a page. -/
structure RangeOk (va size : ℕ) : Prop where
  pos : 0 < size
  start : va < 2 ^ pd0BitShift
  stop : va + size ≤ 2 ^ 49
  last : (va + size - 1) % pageSize ≠ 0

/-- What `mmap` computes of such a range. -/
theorem RangeOk.range_eq {va size : ℕ} (h : RangeOk va size) :
    sub64 (alignDown va) 0 = pageSize * firstPage va ∧
      sub64 (sub64 (alignUp (sub64 (u64 (va + size)) 1)) 1) 0 =
        pageSize * (lastPage va size + 1) - 1 ∧
      firstPage va < lastPage va size + 1 ∧ firstPage va < span 2 ∧
        lastPage va size + 1 ≤ virtualPages := by
  obtain ⟨hpos, hstart, hstop, hlast⟩ := h
  have hpage : pageSize = 4096 := rfl
  have hspan : span 2 = 2 ^ 27 := rfl
  have hshift : 2 ^ pd0BitShift = 2 ^ 39 := rfl
  have hnum : virtualPages = 2 ^ 37 := rfl
  rw [hshift] at hstart
  rw [hpage] at hlast
  have hup : alignUp (va + size - 1) = 4096 * (lastPage va size + 1) := by
    rw [alignUp, alignDown, lastPage, hpage, u64_of_lt (by omega)]
    omega
  have hdown : alignDown va = 4096 * firstPage va := by
    rw [alignDown, firstPage, hpage]
    omega
  have hfl : firstPage va < lastPage va size + 1 ∧ lastPage va size + 1 ≤ 2 ^ 37 ∧
      firstPage va < 2 ^ 27 := by
    rw [firstPage, lastPage, hpage]
    omega
  rw [hpage, hspan, hnum]
  refine ⟨?_, ?_, hfl.1, hfl.2.2, hfl.2.1⟩
  · rw [hdown, sub64_of_le (Nat.zero_le _) (by omega), Nat.sub_zero]
  · have hinner : sub64 (u64 (va + size)) 1 = va + size - 1 := by
      rw [u64_of_lt (by omega), sub64_of_le (by omega) (by omega)]
    have houter : sub64 (alignUp (va + size - 1)) 1 = 4096 * (lastPage va size + 1) - 1 := by
      rw [hup, sub64_of_le (by omega) (by omega)]
    rw [hinner, houter, sub64_of_le (Nat.zero_le _) (by omega), Nat.sub_zero]

/-- **One call of `mmap`**: the pages of the range are mapped to those from the physical address on,
and the others as before. -/
theorem mmap_spec (halloc : Allocates alloc I) (hpa : vm.malloc_pa_ = false) {d : Device H}
    {T : ℕ → Prop} (h : TablesOk I vm d T) {va size pa : ℕ} (hrange : RangeOk va size)
    (hne : pa ≠ 0) (readable writeable executable system : ℕ) :
    ∃ vm' d', mmap alloc vm va size pa readable writeable executable true system d =
        some (vm', d') ∧ vm'.malloc_pa_ = false ∧ vm'.pt_base_addr_ = vm.pt_base_addr_ ∧
      ((∀ p ∈ d'.pages, PageOk p) → ∃ T', (∀ g, T g → T' g) ∧ TablesOk I vm' d' T' ∧
        ∀ v < virtualPages, walkPage vm' d'.mem v =
          if firstPage va ≤ v ∧ v ≤ lastPage va size then some (pa / pageSize + (v - firstPage va))
          else walkPage vm d.mem v) := by
  obtain ⟨hstart, hend, hlt, hfirst, hlast⟩ := hrange.range_eq
  rw [← h.base] at hstart hend
  let vm₁ : ProcessVM := { vm with
    malloc_pa_ := if pa = 0 then true else vm.malloc_pa_, readable_ := readable
    writeable_ := writeable, executable_ := executable, valid_ := true, system_ := system }
  have hpa₁ : vm₁.malloc_pa_ = false := (if_neg hne).trans hpa
  have h₁ : TablesOk I vm₁ d T := ⟨h.base, h.inv, h.copy, h.tree, h.owns, h.pd0⟩
  obtain ⟨page, d', hrun, hspec⟩ := SetupPd0Page_spec halloc (show vm₁.valid_ = true from rfl)
    hpa₁ h₁ (pa / pageSize) hlt hfirst hlast
  refine ⟨{ vm₁ with pd0_page_ := page }, d', ?_, hpa₁, rfl, fun hok => ?_⟩
  · rw [mmap]
    dsimp only
    rw [hstart, hend, alignDown, Nat.mul_comm (pa / pageSize)]
    exact hrun
  · obtain ⟨T', hmono, htables, hwalk⟩ := hspec hok
    refine ⟨T', hmono, htables, fun v hv => ?_⟩
    rw [hwalk v hv]
    by_cases hv' : firstPage va ≤ v ∧ v ≤ lastPage va size
    · rw [if_pos hv', if_pos (by omega)]
    · rw [if_neg hv', if_neg (by omega)]
      rfl

/-! ### Runs of `mmap` -/

/-- A call of `mmap`, with its arguments. -/
structure Mmap where
  va_base : ℕ
  va_size : ℕ
  pa_base : ℕ
  readable : ℕ := 1
  writeable : ℕ := 1
  executable : ℕ := 1
  valid : Bool := true
  system : ℕ := 0

/-- The constructor of `ProcessVM`: the two pages of PD0 are written with zeros, and `malloc_pa_` is
what was there. -/
def ProcessVM.create (pt_base_addr dev_va_base : ℕ) (garbage : Bool) (d : Device H) :
    ProcessVM × Device H :=
  let vm : ProcessVM :=
    { pt_base_addr_ := pt_base_addr, dev_va_base_ := dev_va_base, malloc_pa_ := garbage }
  (vm, { d with mem := writePd0 vm d.mem 0 0 pd0EntryNum })

/-- The call takes the process and its device from `s` to `t`. -/
def Mmap.Step (alloc : H → ℕ × H) (s : ProcessVM × Device H) (c : Mmap) (t : ProcessVM × Device H) :
    Prop :=
  mmap alloc s.1 c.va_base c.va_size c.pa_base c.readable c.writeable c.executable c.valid c.system
    s.2 = some t

/-- The call returns, every page of its range is mapped to the physical page at the same distance
from the first, and every other page is mapped as before. -/
def Mmap.Maps (alloc : H → ℕ × H) (s : ProcessVM × Device H) (c : Mmap) : Prop :=
  ∃ t, c.Step alloc s t ∧ ∀ v < virtualPages, walkPage t.1 t.2.mem v =
    if firstPage c.va_base ≤ v ∧ v ≤ lastPage c.va_base c.va_size then
      some (c.pa_base / pageSize + (v - firstPage c.va_base))
    else walkPage s.1 s.2.mem v

/-- The calls of `mmap` that do what they should. -/
def Mmap.Ok (_ : ProcessVM × Device H) (c : Mmap) : Prop :=
  RangeOk c.va_base c.va_size ∧ c.pa_base ≠ 0 ∧ c.valid = true

/-- `BlockAlloc`, over the blocks that the heap still has: it gives the next one. -/
def nextBlock (block : ℕ → ℕ) (given : ℕ) : ℕ × ℕ := (block given, given + 1)

/-- The blocks are fresh, distinct pages. -/
structure BlocksOk (pt_base_addr : ℕ) (block : ℕ → ℕ) : Prop where
  page : ∀ i, PageOk (block i)
  distinct : ∀ i j, block i = block j → i = j
  fresh : ∀ i, block i / pageSize ≠ pt_base_addr / pageSize ∧
    block i / pageSize ≠ pt_base_addr / pageSize + 1

/-- The pages of the tables are those of PD0 and what was given. -/
def Given (pt_base_addr : ℕ) (block : ℕ → ℕ) (given : ℕ) (T : ℕ → Prop) : Prop :=
  ∀ g, T g → (g = pt_base_addr / pageSize ∨ g = pt_base_addr / pageSize + 1) ∨
    ∃ i < given, g = block i / pageSize

/-- The next block is none of these. -/
theorem BlocksOk.allocates {pt_base_addr : ℕ} {block : ℕ → ℕ} (h : BlocksOk pt_base_addr block) :
    Allocates (nextBlock block) (Given pt_base_addr block) := by
  intro given T hT _
  constructor
  · intro hnext
    rcases hT _ hnext with (hbase | hbase) | ⟨i, hi, heq⟩
    · exact (h.fresh given).1 hbase
    · exact (h.fresh given).2 hbase
    · have hsame : block given = block i := by
        rw [← Nat.div_mul_cancel (h.page given).2, ← Nat.div_mul_cancel (h.page i).2]
        exact congrArg (· * pageSize) heq
      have := h.distinct given i hsame
      omega
  · rintro g (rfl | hg)
    · exact .inr ⟨given, Nat.lt_succ_self _, rfl⟩
    · exact (hT g hg).imp_right fun ⟨i, hi, heq⟩ => ⟨i, Nat.lt_succ_of_lt hi, heq⟩

/-- The invariant of a run: the tables are right, and all blocks that were given are pages. -/
structure MmapInv (pt_base_addr : ℕ) (block : ℕ → ℕ) (s : ProcessVM × Device ℕ) : Prop where
  base : s.1.pt_base_addr_ = pt_base_addr
  malloc_pa : s.1.malloc_pa_ = false
  pages : ∀ p ∈ s.2.pages, PageOk p
  tables : ∃ T, TablesOk (Given pt_base_addr block) s.1 s.2 T

/-- **A new process** has no page mapped. -/
theorem MmapInv.create (pt_base_addr : ℕ) (block : ℕ → ℕ) (mem : ℕ → ℕ → PDE) :
    MmapInv pt_base_addr block (ProcessVM.create pt_base_addr 0 false { mem, heap := 0 }) := by
  let vm : ProcessVM := { pt_base_addr_ := pt_base_addr, malloc_pa_ := false }
  have hempty : ∀ i, PDE.link (vm.pd0_page_ i) = none := fun _ => rfl
  refine ⟨rfl, rfl, fun p hp => absurd hp List.not_mem_nil, vm.IsPd0, rfl, fun g hg => .inl hg,
    fun i hi => ?_, (empty_table hempty).1, fun g hg => absurd hg ((empty_table hempty).2.1 g),
    fun g hg => hg⟩
  exact (pd0_writePd0 vm mem pd0EntryNum i).trans (if_pos hi)

/-- **One call in a run** does what it should, and keeps the invariant. -/
theorem MmapInv.step {pt_base_addr : ℕ} {block : ℕ → ℕ} (hblocks : BlocksOk pt_base_addr block)
    {s : ProcessVM × Device ℕ} (h : MmapInv pt_base_addr block s) {c : Mmap} (hc : c.Ok s) :
    c.Maps (nextBlock block) s ∧
      ∀ t, c.Step (nextBlock block) s t → MmapInv pt_base_addr block t := by
  obtain ⟨hrange, hne, hvalid⟩ := hc
  obtain ⟨T, htables⟩ := h.tables
  obtain ⟨vm', d', hrun, hpa, hbase, hspec⟩ :=
    mmap_spec hblocks.allocates h.malloc_pa htables hrange
    hne c.readable c.writeable c.executable c.system
  rw [← hvalid] at hrun
  have hpages : ∀ p ∈ d'.pages, PageOk p := by
    have hgives : Gives (nextBlock block) fun _ pages => ∀ p ∈ pages, PageOk p :=
      fun given pages hpages => List.forall_mem_cons.2 ⟨hblocks.page given, hpages⟩
    exact mmap_keeps hgives hrun h.pages
  obtain ⟨T', -, htables', hwalk⟩ := hspec hpages
  refine ⟨⟨(vm', d'), hrun, hwalk⟩, fun t ht => ?_⟩
  obtain rfl := Option.some.inj (hrun.symm.trans ht)
  exact ⟨hbase.trans h.base, hpa, hpages, T', htables'⟩

/-- **Any sequence of calls of `mmap`**, over fresh, distinct pages from `BlockAlloc`: if
`malloc_pa_` happens to be false at first and every call is for a range that `mmap` maps, then after
every further call of that kind a walk of the tables finds what it should. -/
theorem mmap_translates {pt_base_addr : ℕ} {block : ℕ → ℕ} (hblocks : BlocksOk pt_base_addr block)
    (mem : ℕ → ℕ → PDE) {calls : List Mmap} {s : ProcessVM × Device ℕ}
    (hrun : Run (Guarded Mmap.Ok (Mmap.Step (nextBlock block)))
      (ProcessVM.create pt_base_addr 0 false { mem, heap := 0 }) calls s)
    {c : Mmap} (hc : c.Ok s) : c.Maps (nextBlock block) s := by
  have hinv : MmapInv pt_base_addr block s := by
    refine hrun.inv (fun s c t (hs : MmapInv pt_base_addr block s) hstep => ?_)
      (MmapInv.create pt_base_addr block mem)
    exact (hs.step hblocks hstep.1).2 t hstep.2
  exact (hinv.step hblocks hc).1

/-- Blocks for the tables behind PD0, which is in the second page. -/
def blocksBehind (i : ℕ) : ℕ := pageSize * (i + 3)

theorem blocksBehind_ok : BlocksOk pageSize blocksBehind := by
  have hpage : pageSize = 4096 := rfl
  have hself : pageSize / pageSize = 1 := by decide
  have hdiv : ∀ i, blocksBehind i / pageSize = i + 3 := fun i =>
    Nat.mul_div_cancel_left _ (by decide)
  refine ⟨fun i => ⟨?_, Nat.dvd_mul_right ..⟩, fun i j hij => ?_, fun i => ?_⟩
  · rw [blocksBehind, hpage]
    omega
  · have := congrArg (· / pageSize) hij
    rw [hdiv, hdiv] at this
    omega
  · rw [hdiv, hself]
    omega

/-- Two calls: three pages over the border of two tables, and then the one in the middle again. -/
theorem mmap_translates_two : ∃ t, Mmap.Step (nextBlock blocksBehind)
    (ProcessVM.create pageSize 0 false { mem := fun _ _ => {}, heap := 0 })
    { va_base := 2 ^ 30 - 4096, va_size := 12288, pa_base := 2 ^ 21 } t ∧
      Mmap.Maps (nextBlock blocksBehind) t
        { va_base := 2 ^ 30, va_size := 4096, pa_base := 2 ^ 22 } := by
  have hfirst : Mmap.Ok (ProcessVM.create pageSize 0 false { mem := fun _ _ => {}, heap := 0 })
      { va_base := 2 ^ 30 - 4096, va_size := 12288, pa_base := 2 ^ 21 } :=
    ⟨⟨by decide, by decide, by decide, by decide⟩, by decide, rfl⟩
  obtain ⟨t, ht, -⟩ := mmap_translates blocksBehind_ok (fun _ _ => {}) (.nil _) hfirst
  exact ⟨t, ht, mmap_translates blocksBehind_ok (fun _ _ => {}) (.cons ⟨hfirst, ht⟩ (.nil _))
    ⟨⟨by decide, by decide, by decide, by decide⟩, by decide, rfl⟩⟩

/-- **The last page is lost** when the range ends with its first byte: of 4097 bytes at 0, the first
call of a process maps the page at 0 only. -/
theorem not_maps_of_first_byte : BlocksOk pageSize blocksBehind ∧
    ¬Mmap.Maps (nextBlock blocksBehind)
    (ProcessVM.create pageSize 0 false { mem := fun _ _ => {}, heap := 0 })
    { va_base := 0, va_size := 4097, pa_base := 2 ^ 21 } := by
  refine ⟨blocksBehind_ok, ?_⟩
  rintro ⟨t, hstep, hmaps⟩
  have hwalk := hmaps 1 (by decide)
  have hnone : (mmap (nextBlock blocksBehind)
      (ProcessVM.create pageSize 0 false { mem := fun _ _ => {}, heap := 0 }).1 0 4097 (2 ^ 21)
      1 1 1 true 0 (ProcessVM.create pageSize 0 false { mem := fun _ _ => {}, heap := 0 }).2).map
        (fun t => walkPage t.1 t.2.mem 1) = some none := by
    decide +kernel
  rw [Mmap.Step] at hstep
  rw [hstep] at hnone
  have heq : walkPage t.1 t.2.mem 1 = none := Option.some.inj hnone
  rw [hwalk] at heq
  exact absurd heq (by decide)

end Codrive.Emu
