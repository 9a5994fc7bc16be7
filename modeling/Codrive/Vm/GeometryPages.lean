/-
# The way to a page

For every geometry whose root has an index for every page, the indices of a page are entries of
their tables, they and the page's place below the last one give the page back (`recombines`), and
the cursor that goes down from the root finds them (`descend_eq`): for different pages it ends at
different entries (`page_of_entries`).  `opu_vm_num_entries` treats the root in a way of its own,
`opu_vm_entries_mask` does not; the indices of the root fit all the same (`index_root`).
-/

import Codrive.Basis.Dfs
import Codrive.Vm.Geometry

namespace Codrive.Vm.Geometry

open Codrive.Basis

variable {g : Geometry}

/-- The index of a page in its table of a level: `(pfn >> shift) & mask`. -/
def index (g : Geometry) (level pfn : ℕ) : ℕ :=
  pfn >>> g.levelShift level &&& g.opuVmEntriesMask level

/-- So many calls of `opu_vm_pt_descendant`. -/
def descend (g : Geometry) (t : Tables) : ℕ → Cursor → Option Cursor
  | 0, c => some c
  | n + 1, c => (descend g t n c).bind (g.opuVmPtDescendant t)

/-- The root has an index for every page. -/
def RootFits (g : Geometry) : Prop :=
  g.max_pfn ≤ 2 ^ (g.levelShift g.root_level + g.frame_size g.root_level)

theorem index_eq (d k : ℕ) : g.index (g.root_level + d) k = g.radix.digit d k :=
  g.shiftRight_and_mask d k

/-- `opu_vm_va_level_offset` is the index of the page that the address is in. -/
theorem opuVmVaLevelOffset_eq (level va : ℕ) :
    g.opuVmVaLevelOffset level va = g.index level (va >>> PAGE_SHIFT) := by
  rw [opuVmVaLevelOffset, index, Nat.shiftRight_add]

/-- Rounding up adds less than a whole step. -/
theorem roundUp_lt (x : ℕ) {y : ℕ} (hy : 0 < y) : roundUp x y < x + y := by
  have h := Nat.div_mul_le_self (x + (y - 1)) y
  unfold roundUp
  omega

/-- The page is one of the tree. -/
theorem RootFits.lt_span (hfits : g.RootFits) {k : ℕ} (hk : k < g.max_pfn) :
    k < g.radix.span 0 := by
  refine Nat.lt_of_lt_of_le hk (Nat.le_trans hfits (Nat.le_of_eq ?_))
  rw [Nat.add_comm, Nat.pow_add]
  rfl

/-- The number of entries of the root: one for every block of pages that has a page below
`max_pfn`. -/
theorem RootFits.numEntries_root (hfits : g.RootFits) :
    g.opuVmNumEntries g.root_level =
      (g.max_pfn + (2 ^ g.levelShift g.root_level - 1)) / 2 ^ g.levelShift g.root_level := by
  have hpos := Nat.two_pow_pos (g.levelShift g.root_level)
  have hshift : 2 ^ g.levelShift g.root_level ≤ 2 ^ 63 :=
    Nat.pow_le_pow_right (by decide) (Nat.le_of_lt_succ g.shift_lt)
  have hround : roundUp g.max_pfn (2 ^ g.levelShift g.root_level) < 2 ^ 64 := by
    have hlt := roundUp_lt g.max_pfn hpos
    have hmax := g.max_pfn_le
    omega
  have hframe : 2 ^ g.frame_size g.root_level ≤ 2 ^ 30 :=
    Nat.pow_le_pow_right (by decide) (Nat.le_of_lt_succ (g.frame_size_lt _))
  have hcount : (g.max_pfn + (2 ^ g.levelShift g.root_level - 1)) /
      2 ^ g.levelShift g.root_level < 2 ^ 32 := by
    have hle : g.max_pfn ≤ 2 ^ g.levelShift g.root_level * 2 ^ g.frame_size g.root_level := by
      rw [← Nat.pow_add]
      exact hfits
    have hdiv : (g.max_pfn + (2 ^ g.levelShift g.root_level - 1)) /
        2 ^ g.levelShift g.root_level < 2 ^ g.frame_size g.root_level + 1 := by
      rw [Nat.div_lt_iff_lt_mul hpos, Nat.add_mul, Nat.one_mul, Nat.mul_comm]
      omega
    omega
  rw [opuVmNumEntries, if_pos rfl, Nat.one_shiftLeft, u64_of_lt hround,
    Nat.shiftRight_eq_div_pow, roundUp, Nat.mul_div_cancel _ hpos]
  exact wrap_of_lt hcount

/-- The index of a page in the root. -/
theorem RootFits.index_root (hfits : g.RootFits) {k : ℕ} (hk : k < g.max_pfn) :
    g.index g.root_level k < g.opuVmNumEntries g.root_level := by
  have hpos := Nat.two_pow_pos (g.levelShift g.root_level)
  have hle : g.index g.root_level k ≤ k / 2 ^ g.levelShift g.root_level := by
    rw [index, Nat.shiftRight_eq_div_pow]
    exact Nat.and_le_left
  rw [hfits.numEntries_root]
  refine Nat.lt_of_le_of_lt hle ((Nat.div_lt_iff_lt_mul hpos).2 ?_)
  have hup := Nat.lt_div_mul_add (a := g.max_pfn + (2 ^ g.levelShift g.root_level - 1)) hpos
  omega

/-- **Every index of a page is an entry of its table.** -/
theorem RootFits.index_lt (hfits : g.RootFits) {k : ℕ} (hk : k < g.max_pfn) (level : ℕ) :
    g.index level k < g.opuVmNumEntries level := by
  by_cases hroot : level = g.root_level
  · rw [hroot]
    exact hfits.index_root hk
  · rw [opuVmNumEntries, if_neg hroot, Nat.one_shiftLeft, index, opuVmEntriesMask,
      Nat.one_shiftLeft, Nat.and_two_pow_sub_one_eq_mod]
    exact Nat.mod_lt _ (Nat.two_pow_pos _)

/-- **The indices of a page give it back**, with its place below the last of them. -/
theorem RootFits.recombines (hfits : g.RootFits) {k : ℕ} (hk : k < g.max_pfn) {n : ℕ}
    (hn : g.root_level + n ≤ OPU_VM_SPE) :
    ((List.range (n + 1)).map fun d =>
      g.index (g.root_level + d) k <<< g.levelShift (g.root_level + d)).sum +
        k % 2 ^ g.levelShift (g.root_level + n) = k := by
  have hdepth : n ≤ g.radix.depth := Nat.le_sub_of_add_le (by rwa [Nat.add_comm])
  refine Eq.trans ?_ (g.radix.sum_digits (hfits.lt_span hk) hdepth)
  congr 2
  refine List.map_congr_left fun d _ => ?_
  rw [index_eq, Nat.shiftLeft_eq]
  rfl

/-- **Down from the root**, as far as there are tables, the cursor stands at the table of its
page. -/
theorem descend_eq {t : Tables} {n k : ℕ} {c : Cursor}
    (h : g.descend t n (g.opuVmPtStart k) = some c) : c = g.cursorAt n k := by
  induction n generalizing c with
  | zero => exact (Option.some.inj h).symm
  | succ n ih =>
    obtain ⟨c', hc', hstep⟩ := Option.bind_eq_some_iff.1 h
    obtain rfl := ih hc'
    unfold opuVmPtDescendant at hstep
    split_ifs at hstep with ht
    rw [← Option.some.inj hstep, cursorAt, cursorAt, shiftRight_and_mask]
    rfl

/-- **Every entry that is indexed on the way down exists.** -/
theorem RootFits.inside (hfits : g.RootFits) {t : Tables} {n k : ℕ} (hk : k < g.max_pfn)
    {c : Cursor} (h : g.descend t n (g.opuVmPtStart k) = some c) :
    Dfs.Inside g.width t c.path := by
  induction n generalizing c with
  | zero =>
    obtain rfl := Option.some.inj h
    trivial
  | succ n ih =>
    obtain ⟨c', hc', hstep⟩ := Option.bind_eq_some_iff.1 h
    have hin := ih hc'
    obtain rfl := descend_eq hc'
    unfold opuVmPtDescendant at hstep
    split_ifs at hstep with ht
    obtain rfl := Option.some.inj hstep
    refine ⟨hin, ht, ?_⟩
    have hlt := hfits.index_lt hk (g.root_level + n)
    have hlength : (g.cursorAt n k).path.length = n := g.radix.path_length n k
    rw [width, hlength]
    exact hlt

/-- **Different pages have different entries**: where two walks end at one entry of one table, their
pages are in the same block of that entry. -/
theorem RootFits.page_of_entries (hfits : g.RootFits) {t : Tables} {n k k' : ℕ}
    (hn : g.root_level + n ≤ OPU_VM_SPE) (hk : k < g.max_pfn) (hk' : k' < g.max_pfn)
    {c c' : Cursor} (h : g.descend t n (g.opuVmPtStart k) = some c)
    (h' : g.descend t n (g.opuVmPtStart k') = some c') (hpath : c.path = c'.path)
    (hindex : g.index c.level k = g.index c'.level k') :
    k / 2 ^ g.levelShift c.level = k' / 2 ^ g.levelShift c.level := by
  obtain rfl := descend_eq h
  obtain rfl := descend_eq h'
  have hdepth : n ≤ g.radix.depth := Nat.le_sub_of_add_le (by rwa [Nat.add_comm])
  refine g.radix.div_weight_eq hdepth (hfits.lt_span hk) (hfits.lt_span hk') ?_
  have hdigit : g.radix.digit n k = g.radix.digit n k' := by
    rw [← index_eq, ← index_eq]
    exact hindex
  rw [Radix.path, Radix.path, hdigit]
  exact congrArg _ hpath

/-- **The way to a page**, in every geometry whose root has an index for every page.  At the last
level, whose shift is 0, pages with one entry are the same page. -/
theorem way_to_page (hfits : g.RootFits) {k : ℕ} (hk : k < g.max_pfn) :
    (∀ level, g.index level k < g.opuVmNumEntries level) ∧
      (∀ n, g.root_level + n ≤ OPU_VM_SPE →
        ((List.range (n + 1)).map fun d =>
          g.index (g.root_level + d) k <<< g.levelShift (g.root_level + d)).sum +
            k % 2 ^ g.levelShift (g.root_level + n) = k) ∧
      ∀ t n c, g.root_level + n ≤ OPU_VM_SPE → g.descend t n (g.opuVmPtStart k) = some c →
        Dfs.Inside g.width t c.path ∧ c.level = g.root_level + n ∧
          ∀ k' < g.max_pfn, ∀ c', g.descend t n (g.opuVmPtStart k') = some c' →
            c.path = c'.path → g.index c.level k = g.index c'.level k' →
              k / 2 ^ g.levelShift c.level = k' / 2 ^ g.levelShift c.level := by
  refine ⟨hfits.index_lt hk, fun n hn => hfits.recombines hk hn, fun t n c hn h => ?_⟩
  refine ⟨hfits.inside hk h, congrArg Cursor.level (descend_eq h), fun k' hk' c' h' => ?_⟩
  exact hfits.page_of_entries hn hk hk' h h'

/-- A root of three entries, the last of them for 276 pages only. -/
def threeEntries : Geometry where
  frame_size _ := 9
  root_level := OPU_VM_PTE
  max_pfn := 1300
  root_level_le := by decide
  frame_size_lt _ := by decide
  shift_lt := by decide
  max_pfn_le := by decide

/-- The last page of the last entry. -/
theorem way_to_page_three : threeEntries.index OPU_VM_PTE 1299 = 2 ∧
    threeEntries.index OPU_VM_PTE 1299 < threeEntries.opuVmNumEntries OPU_VM_PTE :=
  ⟨by decide, (way_to_page (g := threeEntries) (show 1300 ≤ 2 ^ 18 by decide) (by decide)).1 _⟩

end Codrive.Vm.Geometry
