/-
# Migrating the pages of a range

`svm_migrate_copy_memory_gart`, `svm_migrate_copy_to_vram` and `svm_migrate_copy_to_ram` of
`src/src/cmdio/linux/opu_migrate.c`: the pages of an interval of a range are copied between system
memory and the VRAM of the range, and where each went is recorded for `migrate_vma_pages`.

| here | source |
|---|---|
| `src i : Option Page` | `migrate_pfn_to_page(migrate->src[i])` |
| `Migration.dst i` | `migrate->dst[i]`: the page number in it, `none` for 0 |
| `Migration.taken` | the pages that `svm_migrate_get_vram_page`, `svm_migrate_get_sys_page` took |
| `Migration.released` | those that `svm_migrate_put_vram_page`, `svm_migrate_put_sys_page` let go |
| `Migration.copies` | the page copies that `amdgpu_copy_buffer` was asked for |
| `src`, `dst` of a loop state | the two arrays in `scratch`, zeroed by `kvmalloc` |
| `junk` | what an `int r` without a value reads as |

The kernel's calls answer as they like, each at the page it is made for.  The sdma engine sees the
pages of the GART window at the DMA addresses that were mapped, and VRAM at its own addresses, so
the two offsets that are added to both are left out, as are the fences of the copies.
`amdgpu_res_cursor.h` is not in the repository: a cursor is whatever walks over the pieces of a
buffer as `ResCursor.Walks` says.
-/

import Codrive.Basis.EarlyExit
import Codrive.Basis.Extents
import Codrive.Svm.Range
import Mathlib.Logic.Function.Basic

namespace Codrive.Svm

open Codrive.Basis

/-- `struct page`. -/
structure SysPage where
  pfn : ℕ
  /-- `is_zone_device_page`. -/
  zone_device : Bool
  deriving DecidableEq

/-- `PAGE_SIZE`. -/
def PAGE_BYTES : ℕ := 1 <<< PAGE_SHIFT

theorem shiftLeft_page (n : ℕ) : n <<< PAGE_SHIFT = n * PAGE_BYTES := by
  simp [PAGE_BYTES, Nat.shiftLeft_eq]

theorem shiftRight_page (n : ℕ) : n >>> PAGE_SHIFT = n / PAGE_BYTES := by
  simp [PAGE_BYTES, Nat.shiftLeft_eq, Nat.shiftRight_eq_div_pow]

/-- `AMDGPU_GTT_MAX_TRANSFER_SIZE`, in pages. -/
def GTT_MAX_PAGES : ℕ := 512

/-- `enum MIGRATION_COPY_DIR`. -/
inductive CopyDir where
  | fromRamToVram | fromVramToRam
  deriving DecidableEq, Repr

/-- A page that the sdma engine copies. -/
structure PageCopy where
  src : ℕ
  dst : ℕ
  deriving DecidableEq, Repr

/-! ### Copying -/

/-- What the calls of the copy engine answer, for the transfer that starts at a page. -/
structure Sdma where
  job_alloc : ℕ → ℤ
  gart_map : ℕ → ℤ
  job_submit : ℕ → ℤ
  copy_buffer : ℕ → ℤ

/-- `svm_migrate_gart_map`. -/
def svmMigrateGartMap (e : Sdma) (first : ℕ) : ℤ :=
  if e.job_alloc first ≠ 0 then e.job_alloc first
  else if e.gart_map first ≠ 0 then e.gart_map first
  else e.job_submit first

/-- The page at `k` of a transfer, between the system page in the GART window and VRAM. -/
def windowCopy (dir : CopyDir) (sys vram : ℕ) : PageCopy :=
  match dir with
  | .fromRamToVram => ⟨sys, vram⟩
  | .fromVramToRam => ⟨vram, sys⟩

/-- What one `amdgpu_copy_buffer` copies: `size` pages of the window, from one VRAM address on. -/
def transfer (dir : CopyDir) (sys vram : ℕ → ℕ) (first size : ℕ) : List PageCopy :=
  (List.range size).map fun k =>
    windowCopy dir (sys (first + k)) (u64 (vram first + k * PAGE_BYTES))

/-- The loop of `svm_migrate_copy_memory_gart`, for at most `turns` transfers. -/
def copyMemoryLoop (e : Sdma) (dir : CopyDir) (sys vram : ℕ → ℕ) :
    ℕ → ℕ → ℕ → ℤ → List PageCopy → ℤ × List PageCopy
  | 0, _, _, r, copies => (r, copies)
  | turns + 1, first, npages, r, copies =>
    if npages = 0 then (r, copies)
    else
      let size := min GTT_MAX_PAGES npages
      if svmMigrateGartMap e first ≠ 0 then (svmMigrateGartMap e first, copies)
      else if e.copy_buffer first ≠ 0 then (e.copy_buffer first, copies)
      else
        copyMemoryLoop e dir sys vram turns (first + size) (npages - size) 0
          (copies ++ transfer dir sys vram first size)

/-- **`svm_migrate_copy_memory_gart`** of the pages from `first` on.  `r` has no value before the
loop, and every turn copies a page. -/
def svmMigrateCopyMemoryGart (e : Sdma) (junk : ℕ → ℤ) (dir : CopyDir) (sys vram : ℕ → ℕ)
    (first npages : ℕ) (copies : List PageCopy) : ℤ × List PageCopy :=
  copyMemoryLoop e dir sys vram npages first npages (junk first) copies

/-- The transfer that starts at a page is carried out. -/
def Sdma.Succeeds (e : Sdma) (first : ℕ) : Prop :=
  svmMigrateGartMap e first = 0 ∧ e.copy_buffer first = 0

/-- **The transfers of `npages` pages from `first` on are carried out.** -/
def Sdma.Copies (e : Sdma) (first npages : ℕ) : Prop :=
  ∀ c, c * GTT_MAX_PAGES < npages → e.Succeeds (first + c * GTT_MAX_PAGES)

/-- The VRAM addresses of `npages` pages from `first` on follow one another. -/
def Contiguous (vram : ℕ → ℕ) (first npages : ℕ) : Prop :=
  ∀ i k, i + k < npages → u64 (vram (first + i) + k * PAGE_BYTES) = vram (first + i + k)

/-- The copies of `npages` pages from `first` on, each from and to its own address. -/
def pageCopies (dir : CopyDir) (sys vram : ℕ → ℕ) (first npages : ℕ) : List PageCopy :=
  (List.range npages).map fun k => windowCopy dir (sys (first + k)) (vram (first + k))

section CopyMemory

variable {e : Sdma} {junk junk' : ℕ → ℤ} {dir : CopyDir} {sys vram : ℕ → ℕ}
  {turns first npages size : ℕ} {r : ℤ} {copies : List PageCopy}

theorem Contiguous.mono (h : Contiguous vram first npages) (hle : size ≤ npages) :
    Contiguous vram first size := fun i k hlt => h i k (Nat.lt_of_lt_of_le hlt hle)

theorem Contiguous.drop (h : Contiguous vram first npages) :
    Contiguous vram (first + size) (npages - size) := by
  intro i k hlt
  have := h (size + i) k (by omega)
  rwa [← Nat.add_assoc] at this

/-- The copies of a transfer whose VRAM addresses follow one another. -/
theorem Contiguous.transfer_eq (h : Contiguous vram first size) :
    transfer dir sys vram first size = pageCopies dir sys vram first size := by
  refine List.map_congr_left fun k hk => ?_
  have := h 0 k (by simpa using hk)
  rw [Nat.add_zero] at this
  rw [this]

theorem pageCopies_add (more : ℕ) : pageCopies dir sys vram first (size + more) =
    pageCopies dir sys vram first size ++ pageCopies dir sys vram (first + size) more := by
  simp [pageCopies, List.range_add, Nat.add_assoc, Function.comp_def]

/-- The transfers after the first one. -/
theorem Sdma.Copies.drop (h : e.Copies first npages) (hlt : GTT_MAX_PAGES < npages) :
    e.Copies (first + GTT_MAX_PAGES) (npages - GTT_MAX_PAGES) := by
  intro c hc
  have := h (c + 1) (by rw [Nat.add_mul, Nat.one_mul]; omega)
  rwa [Nat.add_mul, Nat.one_mul, Nat.add_comm (c * _), ← Nat.add_assoc] at this

/-- The transfers are the first one and those after it. -/
theorem Sdma.copies_of (hfirst : e.Succeeds first)
    (hrest : GTT_MAX_PAGES < npages → e.Copies (first + GTT_MAX_PAGES) (npages - GTT_MAX_PAGES)) :
    e.Copies first npages := by
  intro c hc
  cases c with
  | zero => simpa using hfirst
  | succ c =>
    rw [Nat.add_mul, Nat.one_mul] at hc
    have := hrest (by omega) c (by omega)
    rwa [Nat.add_assoc, Nat.add_comm GTT_MAX_PAGES, ← Nat.succ_mul] at this

/-- **All pages are copied** where every transfer is carried out. -/
theorem copyMemoryLoop_ok (hle : npages ≤ turns) (hpos : 0 < npages) (h : e.Copies first npages)
    (hc : Contiguous vram first npages) :
    copyMemoryLoop e dir sys vram turns first npages r copies =
      (0, copies ++ pageCopies dir sys vram first npages) := by
  induction turns generalizing first npages r copies with
  | zero => omega
  | succ turns ih =>
    have hfirst := h 0 (by rwa [Nat.zero_mul])
    rw [Nat.zero_mul, Nat.add_zero] at hfirst
    rw [copyMemoryLoop, if_neg hpos.ne']
    dsimp only
    rw [if_neg (not_not.2 hfirst.1), if_neg (not_not.2 hfirst.2),
      (hc.mono (Nat.min_le_right _ _)).transfer_eq]
    rcases Nat.lt_or_ge GTT_MAX_PAGES npages with hlt | hge
    · have hless : npages - GTT_MAX_PAGES ≤ turns := by
        unfold GTT_MAX_PAGES
        omega
      rw [Nat.min_eq_left hlt.le, ih hless (by omega) (h.drop hlt) hc.drop, List.append_assoc,
        ← pageCopies_add, Nat.add_sub_cancel' hlt.le]
    · rw [Nat.min_eq_right hge, Nat.sub_self]
      cases turns <;> rfl

/-- **A transfer that is not carried out** is an error. -/
theorem copyMemoryLoop_fails (hle : npages ≤ turns) (h : ¬e.Copies first npages) :
    (copyMemoryLoop e dir sys vram turns first npages r copies).1 ≠ 0 := by
  induction turns generalizing first npages r copies with
  | zero =>
    refine absurd (fun c hc => ?_) h
    omega
  | succ turns ih =>
    have hpos : npages ≠ 0 := by
      rintro rfl
      exact h fun c hc => absurd hc (Nat.not_lt_zero _)
    rw [copyMemoryLoop, if_neg hpos]
    dsimp only
    split_ifs with hmap hcopy
    · exact hmap
    · exact hcopy
    · have hfirst : e.Succeeds first := ⟨not_not.1 hmap, not_not.1 hcopy⟩
      have hlt : GTT_MAX_PAGES < npages := by
        by_contra hge
        exact h (Sdma.copies_of hfirst fun hlt => absurd hlt hge)
      rw [Nat.min_eq_left hlt.le]
      refine ih ?_ fun hrest => h (Sdma.copies_of hfirst fun _ => hrest)
      unfold GTT_MAX_PAGES
      omega

/-- **`svm_migrate_copy_memory_gart` of some pages** that succeeds. -/
theorem svmMigrateCopyMemoryGart_ok (hpos : 0 < npages) (h : e.Copies first npages)
    (hc : Contiguous vram first npages) :
    svmMigrateCopyMemoryGart e junk dir sys vram first npages copies =
      (0, copies ++ pageCopies dir sys vram first npages) :=
  copyMemoryLoop_ok (Nat.le_refl _) hpos h hc

theorem svmMigrateCopyMemoryGart_fails (h : ¬e.Copies first npages) :
    (svmMigrateCopyMemoryGart e junk dir sys vram first npages copies).1 ≠ 0 :=
  copyMemoryLoop_fails (Nat.le_refl _) h

/-- With a page it does. -/
theorem svmMigrateCopyMemoryGart_junk (hpos : 0 < npages) :
    svmMigrateCopyMemoryGart e junk dir sys vram first npages copies =
      svmMigrateCopyMemoryGart e junk' dir sys vram first npages copies := by
  cases npages with
  | zero => omega
  | succ n => rfl

end CopyMemory

/-! ### What a migration leaves -/

/-- What the two functions change outside of `scratch`. -/
structure Migration where
  dst : ℕ → Option ℕ := fun _ => none
  copies : List PageCopy := []
  taken : List ℕ := []
  released : List ℕ := []

/-- `migrate->dst[i] = 0`, where the page there is let go of. -/
def Migration.putPage (m : Migration) (i pfn : ℕ) : Migration :=
  { m with dst := Function.update m.dst i none, released := m.released ++ [pfn] }

/-- `while (i--)`: the entries below `i` are let go of, the last one first. -/
def Migration.putPages (pfn : ℕ → ℕ) : ℕ → Migration → Migration
  | 0, m => m
  | i + 1, m => putPages pfn i (m.putPage i (pfn i))

section PutPages

variable {pfn : ℕ → ℕ} {i : ℕ} {m : Migration}

theorem Migration.putPages_dst (k : ℕ) :
    (m.putPages pfn i).dst k = if k < i then none else m.dst k := by
  induction i generalizing m with
  | zero => simp [putPages]
  | succ i ih =>
    rw [putPages, ih]
    by_cases hk : k = i
    · simp [putPage, hk]
    · by_cases hlt : k < i
      · rw [if_pos hlt, if_pos (by omega)]
      · rw [if_neg hlt, if_neg (by omega)]
        exact Function.update_of_ne hk _ _

theorem Migration.putPages_released :
    (m.putPages pfn i).released = m.released ++ ((List.range i).map pfn).reverse := by
  induction i generalizing m with
  | zero => simp [putPages]
  | succ i ih =>
    rw [putPages, ih, List.range_succ]
    simp [putPage]

@[simp] theorem Migration.putPages_taken : (m.putPages pfn i).taken = m.taken := by
  induction i generalizing m with
  | zero => rfl
  | succ i ih => rw [putPages, ih, putPage]

end PutPages

/-- **A migration did what it says**: one that succeeded copied every page that is to be moved once,
to where it belongs, and recorded that and no more; one that failed records nothing, and let go of
the pages that it had taken, once each, and of no others. -/
structure Migration.Settled (m : Migration) (n : ℕ) (moves : ℕ → Bool) (copy : ℕ → PageCopy)
    (dest : ℕ → Option ℕ) (r : ℤ) : Prop where
  copies : r = 0 → m.copies.Perm (((List.range n).filter moves).map copy)
  recorded : r = 0 → ∀ i, m.dst i = if i < n ∧ moves i = true then dest i else none
  arrived : r = 0 → ∀ i < n, moves i = true → (dest i).isSome = true
  empty : r ≠ 0 → ∀ i, m.dst i = none
  released : r ≠ 0 → m.released.Perm m.taken

/-! ### To VRAM -/

/-- The cursor of `amdgpu_res_cursor.h`. -/
structure ResCursor (κ : Type) where
  /-- `amdgpu_res_first(res, start, size, &cursor)`. -/
  first : ℕ → ℕ → κ
  /-- `amdgpu_res_next(&cursor, size)`. -/
  next : κ → ℕ → κ
  start : κ → ℕ
  size : κ → ℕ

/-- The address of a page of a buffer. -/
def pageAddr (pieces : List Extent) (i : ℕ) : ℕ := Extent.place pieces i * PAGE_BYTES

/-- **What the cursor is for.**  It walks over the bytes it was set to: `At c i rem` says that it is
at page `i` of the buffer with `rem` pages to go.  It tells where that page is, and how much follows
there without a gap. -/
structure ResCursor.Walks {κ : Type} (rc : ResCursor κ) (pieces : List Extent)
    (At : κ → ℕ → ℕ → Prop) : Prop where
  first : ∀ i n, 0 < n → i + n ≤ Extent.total pieces →
    At (rc.first (i * PAGE_BYTES) (n * PAGE_BYTES)) i n
  next : ∀ c i rem k, At c i rem → k ≤ Extent.run pieces i → k < rem →
    At (rc.next c (k * PAGE_BYTES)) (i + k) (rem - k)
  start : ∀ c i rem, At c i rem → rc.start c = pageAddr pieces i
  size : ∀ c i rem, At c i rem → rc.size c = min (Extent.run pieces i) rem * PAGE_BYTES

/-- What `svm_migrate_copy_to_vram` is called on: the interval of `npages` pages from page `start`
on, whose pages `migrate_vma_setup` reported, and the buffer of the range in its pieces. -/
structure ToVram (κ : Type) where
  sdma : Sdma
  rc : ResCursor κ
  /-- What `svm_range_vram_node_new` returns. -/
  vram_node_new : ℤ
  pieces : List Extent
  prange : SvmRange
  start : ℕ
  npages : ℕ
  cpages : ℕ
  src : ℕ → Option SysPage
  /-- `dma_map_page` of the page at `i`. -/
  dma_map_page : ℕ → ℕ
  dma_mapping_error : ℕ → ℤ
  /-- `adev->opu.dev->pgmap.range.start`. -/
  pgmap_start : ℕ

/-- `svm_migrate_addr_to_pfn`. -/
def svmMigrateAddrToPfn (pgmap_start addr : ℕ) : ℕ := u64 (addr + pgmap_start) >>> PAGE_SHIFT

/-- What the loop of `svm_migrate_copy_to_vram` works on. -/
structure ToVramState (κ : Type) where
  migrate : Migration := {}
  src : ℕ → ℕ := fun _ => 0
  dst : ℕ → ℕ := fun _ => 0
  cursor : κ
  j : ℕ := 0

namespace ToVram

variable {κ : Type} (x : ToVram κ)

/-- `spage && !is_zone_device_page(spage)`. -/
def moves (i : ℕ) : Bool := (x.src i).any fun spage => !spage.zone_device

/-- `svm_migrate_copy_memory_gart(adev, src + first, dst + first, npages, FROM_RAM_TO_VRAM, …)`. -/
def copyOut (junk : ℕ → ℤ) (s : ToVramState κ) (first npages : ℕ) : ℤ × ToVramState κ :=
  let (r, copies) := svmMigrateCopyMemoryGart x.sdma junk .fromRamToVram s.src s.dst first npages
    s.migrate.copies
  (r, { s with migrate := { s.migrate with copies } })

/-- The page at `i` is given its place in VRAM, and mapped. -/
def takePage (i : ℕ) (s : ToVramState κ) : ToVramState κ :=
  let addr := x.rc.start s.cursor + s.j <<< PAGE_SHIFT
  let pfn := svmMigrateAddrToPfn x.pgmap_start addr
  { s with
    dst := Function.update s.dst i addr
    src := Function.update s.src i (x.dma_map_page i)
    migrate := { s.migrate with
      dst := Function.update s.migrate.dst i (some pfn)
      taken := s.migrate.taken ++ [pfn] } }

/-- A turn of the loop; leaving it is `goto out_free_vram_pages`. -/
def turn (junk : ℕ → ℤ) (i : ℕ) (s : ToVramState κ) :
    Except (ℤ × ℕ × ToVramState κ) (ToVramState κ) :=
  if x.moves i then
    let s := x.takePage i s
    let r := x.dma_mapping_error (s.src i)
    if r ≠ 0 then .error (r, i, s)
    else if sub64 (x.rc.size s.cursor >>> PAGE_SHIFT) 1 ≤ s.j ∧ i < x.cpages - 1 then
      let (r, t) := x.copyOut junk s (i - s.j) (s.j + 1)
      if r ≠ 0 then .error (r, i, t)
      else .ok { t with cursor := x.rc.next t.cursor ((t.j + 1) * PAGE_BYTES), j := 0 }
    else .ok { s with j := s.j + 1 }
  else if s.j ≠ 0 then
    let (r, t) := x.copyOut junk s (i - s.j) s.j
    if r ≠ 0 then .error (r, i, t)
    else .ok { t with cursor := x.rc.next t.cursor (t.j <<< PAGE_SHIFT), j := 0 }
  else .ok { s with cursor := x.rc.next s.cursor PAGE_BYTES }

/-- The state before the loop. -/
def init : ToVramState κ :=
  { cursor := x.rc.first (x.prange.offset <<< PAGE_SHIFT) (x.cpages <<< PAGE_SHIFT) }

/-- `out_free_vram_pages` after a failure at `i`. -/
def freeVramPages (i : ℕ) (s : ToVramState κ) : Migration :=
  s.migrate.putPages (fun i => svmMigrateAddrToPfn x.pgmap_start (s.dst i)) i

/-- **`svm_migrate_copy_to_vram`.** -/
def svmMigrateCopyToVram (junk : ℕ → ℤ) : ℤ × Migration :=
  if x.vram_node_new ≠ 0 then (x.vram_node_new, {})
  else
    match forBelow (x.turn junk) x.cpages x.init with
    | .error (r, i, s) => (r, x.freeVramPages i s)
    | .ok s =>
      let (r, s) := x.copyOut junk s (x.cpages - s.j) s.j
      if r ≠ 0 then (r, x.freeVramPages x.cpages s) else (r, s.migrate)

end ToVram

/-! ### To system memory -/

/-- What `svm_migrate_copy_to_ram` is called on. -/
structure ToRam where
  sdma : Sdma
  npages : ℕ
  src : ℕ → Option SysPage
  /-- `svm_migrate_get_sys_page` for the page at `i`. -/
  get_sys_page : ℕ → Option ℕ
  /-- `dma_map_page` of the new page at `i`. -/
  dma_map_page : ℕ → ℕ
  dma_mapping_error : ℕ → ℤ
  /-- `adev->opu.dev->pgmap.range.start`. -/
  pgmap_start : ℕ

/-- `svm_migrate_addr`. -/
def svmMigrateAddr (pgmap_start : ℕ) (page : SysPage) : ℕ :=
  sub64 (u64 (page.pfn <<< PAGE_SHIFT)) pgmap_start

/-- What the loop of `svm_migrate_copy_to_ram` works on. -/
structure ToRamState where
  migrate : Migration := {}
  src : ℕ → ℕ := fun _ => 0
  dst : ℕ → ℕ := fun _ => 0
  j : ℕ := 0

/-- `-ENOMEM`. -/
def ENOMEM : ℤ := -12

namespace ToRam

variable (x : ToRam)

/-- `spage && is_zone_device_page(spage)`. -/
def moves (i : ℕ) : Bool := (x.src i).any fun spage => spage.zone_device

/-- Where the page at `i` is in VRAM. -/
def vramAddr (i : ℕ) : ℕ := ((x.src i).map (svmMigrateAddr x.pgmap_start)).getD 0

/-- `svm_migrate_copy_memory_gart(adev, dst + first, src + first, npages, FROM_VRAM_TO_RAM, …)`. -/
def copyOut (junk : ℕ → ℤ) (s : ToRamState) (first npages : ℕ) : ℤ × ToRamState :=
  let (r, copies) := svmMigrateCopyMemoryGart x.sdma junk .fromVramToRam s.dst s.src first npages
    s.migrate.copies
  (r, { s with migrate := { s.migrate with copies } })

/-- The page at `i` is given a new page: `Except.error` is `goto out_oom`. -/
def takePage (i : ℕ) (s : ToRamState) : Except (ℤ × ℕ × ToRamState) ToRamState :=
  match x.get_sys_page i with
  | none => .error (ENOMEM, i, s)
  | some dpage =>
    let s := { s with
      dst := Function.update s.dst i (x.dma_map_page i)
      migrate := { s.migrate with taken := s.migrate.taken ++ [dpage] } }
    let r := x.dma_mapping_error (s.dst i)
    if r ≠ 0 then .error (r, i, s)
    else .ok { s with
      migrate := { s.migrate with dst := Function.update s.migrate.dst i (some dpage) }
      j := s.j + 1 }

/-- A turn of the loop; leaving it is `goto out_oom`. -/
def turn (junk : ℕ → ℤ) (i : ℕ) (s : ToRamState) : Except (ℤ × ℕ × ToRamState) ToRamState :=
  if x.moves i then
    let s := { s with src := Function.update s.src i (x.vramAddr i) }
    if 0 < i ∧ s.src i ≠ u64 (s.src (i - 1) + PAGE_BYTES) then
      let (r, t) := x.copyOut junk s (i - s.j) s.j
      if r ≠ 0 then .error (r, i, t) else x.takePage i { t with j := 0 }
    else x.takePage i s
  else if s.j ≠ 0 then
    let (r, t) := x.copyOut junk s (i - s.j) s.j
    if r ≠ 0 then .error (r, i, t) else .ok { t with j := 0 }
  else .ok s

/-- `out_oom` after a failure at `i`. -/
def freeSysPages (i : ℕ) (s : ToRamState) : Migration :=
  s.migrate.putPages (fun i => s.dst i >>> PAGE_SHIFT) i

/-- **`svm_migrate_copy_to_ram`.** -/
def svmMigrateCopyToRam (junk : ℕ → ℤ) : ℤ × Migration :=
  match forBelow (x.turn junk) x.npages {} with
  | .error (r, i, s) => (r, freeSysPages i s)
  | .ok s =>
    let (r, s) := x.copyOut junk s (x.npages - s.j) s.j
    if r ≠ 0 then (r, freeSysPages x.npages s) else (r, s.migrate)

end ToRam

end Codrive.Svm
