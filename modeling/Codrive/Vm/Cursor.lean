/-
# Where the cursor of the walk goes

The page tables are a tree of tables (`Codrive.Basis.Radix`), and the cursor stands at the table of
its page (`At`).  Down it goes to the table of the same page; `amdgpu_vm_pt_next` without a child
goes to the table that begins where this one ends, of the highest level there is one
(`climb_spec`), or leaves the tree.
-/

import Codrive.Basis.Radix
import Codrive.Vm.UpdatePtes

namespace Codrive.Vm

open Codrive.Basis

section

variable (m : VmMgr)

theorem opuVmLevelShift_succ (frame_size : ℕ → ℕ) {level : ℕ} (h : level < OPU_VM_SPE) :
    opuVmLevelShift frame_size level =
      frame_size (level + 1) + opuVmLevelShift frame_size (level + 1) := by
  unfold opuVmLevelShift
  obtain ⟨d, hd⟩ : ∃ d, OPU_VM_SPE - level = d + 1 := ⟨OPU_VM_SPE - level - 1, by omega⟩
  have hlevel : OPU_VM_SPE - d = level + 1 := by omega
  have hd' : OPU_VM_SPE - (level + 1) = d := by omega
  rw [hd, hd', shiftLoop, hlevel, Nat.add_comm]

/-- The page tables as a tree. -/
def VmMgr.radix : Radix where
  depth := OPU_VM_SPE - m.root_level
  fanout d := 2 ^ m.frame_size (m.root_level + d)
  weight d := 2 ^ m.levelShift (m.root_level + d)
  fanout_pos _ := Nat.two_pow_pos _
  weight_pos _ := Nat.two_pow_pos _
  weight_eq d hd := by
    rw [← Nat.pow_add]
    exact congrArg (2 ^ ·) (opuVmLevelShift_succ m.frame_size (by omega))

/-- The number of entries of the root. -/
def VmMgr.top : ℕ := opuVmNumEntries m m.root_level

theorem coverage_eq : coverage m = m.top * m.radix.weight 0 := by
  rw [coverage, Nat.shiftLeft_eq]
  rfl

theorem top_eq : m.top = rootEntries m.frame_size m.root_level m.max_pfn := by
  rw [VmMgr.top, opuVmNumEntries, if_pos rfl]

theorem top_le : m.top ≤ m.radix.fanout 0 := by
  rw [top_eq]
  have h := m.max_pfn_le
  rwa [Nat.one_shiftLeft] at h

theorem coverage_le_span : coverage m ≤ m.radix.span 0 := by
  rw [coverage_eq]
  exact Nat.mul_le_mul_right _ (top_le m)

theorem span_le : m.radix.span 0 ≤ 2 ^ 52 := by
  have h : m.radix.span 0 = 2 ^ (m.frame_size m.root_level + m.levelShift m.root_level) :=
    (Nat.pow_add ..).symm
  rw [h]
  exact Nat.pow_le_pow_right (by decide) (by rw [Nat.add_comm]; exact m.shift_le)

theorem coverage_le : coverage m ≤ 2 ^ 52 := (coverage_le_span m).trans (span_le m)

/-- The entries of a table below the root. -/
theorem opuVmNumEntries_of_ne {level : ℕ} (h : level ≠ m.root_level) :
    opuVmNumEntries m level = 2 ^ m.frame_size level := by
  rw [opuVmNumEntries, if_neg h, Nat.one_shiftLeft]

theorem numEntries_le_fanout (d : ℕ) :
    opuVmNumEntries m (m.root_level + d) ≤ m.radix.fanout d := by
  by_cases hd : d = 0
  · subst hd
    exact top_le m
  · rw [opuVmNumEntries_of_ne m (by omega)]
    exact le_rfl

/-- The entry of a page, as the cursor computes it. -/
theorem shiftRight_and_mask (d k : ℕ) :
    k >>> m.levelShift (m.root_level + d) &&& opuVmEntriesMask m (m.root_level + d) =
      m.radix.digit d k := by
  rw [opuVmEntriesMask, Nat.one_shiftLeft, Nat.and_two_pow_sub_one_eq_mod,
    Nat.shiftRight_eq_div_pow]
  rfl

/-- The pages of the table before a page begin where `alignDown` says. -/
theorem alignDown_le (x k : ℕ) : alignDown x k ≤ x := Nat.div_mul_le_self x k

theorem dvd_alignDown (x k : ℕ) : k ∣ alignDown x k := Nat.dvd_mul_left ..

theorem alignDown_of_dvd {x k : ℕ} (h : k ∣ x) : alignDown x k = x := Nat.div_mul_cancel h

theorem lt_alignDown_add {x k : ℕ} (hk : 0 < k) : x < alignDown x k + k := by
  have h := Nat.div_add_mod' x k
  have hlt := Nat.mod_lt x hk
  unfold alignDown
  omega

end

/-! ### The cursor -/

variable {m : VmMgr} {p : Params} {t : Tables} {c : Cursor} {d k : ℕ}

/-- The cursor that stands at the table of a page, at a depth. -/
def VmMgr.cursorAt (m : VmMgr) (d k : ℕ) : Cursor := ⟨k, m.radix.path d k, m.root_level + d⟩

/-- `opu_vm_pt_descendant`. -/
theorem opuVmPtDescendant_cursorAt (ht : t (m.radix.path d k) = true) :
    opuVmPtDescendant m t (m.cursorAt d k) = some (m.cursorAt (d + 1) k) := by
  unfold opuVmPtDescendant VmMgr.cursorAt
  rw [if_pos ht, shiftRight_and_mask]
  rfl

/-- What `amdgpu_vm_pt_next` without a child leads to. -/
structure NextTable (m : VmMgr) (d k : ℕ) (c : Cursor) : Prop where
  /-- It leaves the tree with the pages. -/
  outside : coverage m ≤ m.radix.after d k → c.pfn = 2 ^ 64 - 1
  /-- Or it goes to a table that begins there. -/
  inside : m.radix.after d k < coverage m → ∃ e, e < d ∧
    c = m.cursorAt (e + 1) (m.radix.after d k) ∧ m.radix.span (e + 1) ∣ m.radix.after d k ∧
      ¬m.radix.span e ∣ m.radix.after d k

/-- The tables below the root end where the pages do. -/
theorem span_dvd_coverage (hd : 0 < d) (hdepth : d ≤ m.radix.depth) :
    m.radix.span d ∣ coverage m := by
  have hroot : m.radix.span d ∣ m.radix.weight 0 := by
    rw [← m.radix.span_succ (show 0 < m.radix.depth by omega)]
    exact m.radix.span_dvd_span hd hdepth
  rw [coverage_eq]
  exact Nat.dvd_mul_left_of_dvd hroot _

/-- The entry of a page in the root. -/
theorem digit_zero (hk : k < coverage m) :
    m.radix.digit 0 k = k / m.radix.weight 0 ∧ k / m.radix.weight 0 < m.top := by
  rw [coverage_eq] at hk
  have hlt : k / m.radix.weight 0 < m.top := (Nat.div_lt_iff_lt_mul (m.radix.weight_pos 0)).2 hk
  exact ⟨Nat.mod_eq_of_lt (hlt.trans_le (top_le m)), hlt⟩

/-- A page has an entry of the table it is in. -/
theorem digit_lt_numEntries (hk : k < coverage m) (d : ℕ) :
    m.radix.digit d k < opuVmNumEntries m (m.root_level + d) := by
  cases d with
  | zero =>
    obtain ⟨hdigit, hlt⟩ := digit_zero hk
    rwa [hdigit]
  | succ d =>
    rw [opuVmNumEntries_of_ne m (by omega)]
    exact m.radix.digit_lt ..

/-- Behind the table of the last entry of a table, that table ends too. -/
theorem after_of_last (hd : d < m.radix.depth) (hk : k < coverage m)
    (hlast : m.radix.digit d k + 1 = opuVmNumEntries m (m.root_level + d)) :
    (d = 0 → m.radix.after (d + 1) k = coverage m) ∧
      (0 < d → m.radix.after (d + 1) k = m.radix.after d k) := by
  constructor
  · rintro rfl
    have htop : k / m.radix.weight 0 + 1 = m.top := by
      rw [← (digit_zero hk).1, hlast]
      rfl
    rw [Radix.after, m.radix.span_succ hd, htop, coverage_eq]
  · intro hpos
    rw [opuVmNumEntries_of_ne m (by omega)] at hlast
    exact m.radix.after_succ hd hlast

/-- Behind the table of another entry, there are more pages. -/
theorem after_lt_coverage (hd : d < m.radix.depth) (hk : k < coverage m)
    (hmore : m.radix.digit d k + 1 < opuVmNumEntries m (m.root_level + d)) :
    m.radix.after (d + 1) k < coverage m := by
  cases d with
  | zero =>
    have htop : k / m.radix.weight 0 + 1 < m.top := by
      rw [← (digit_zero hk).1]
      exact hmore
    rw [Radix.after, m.radix.span_succ hd, coverage_eq]
    exact Nat.mul_lt_mul_of_pos_right htop (m.radix.weight_pos 0)
  | succ d =>
    rw [opuVmNumEntries_of_ne m (by omega)] at hmore
    have hend : m.radix.after (d + 1) k ≤ coverage m :=
      m.radix.after_le hk (span_dvd_coverage (Nat.succ_pos d) (by omega))
    have hle : m.radix.after (d + 1 + 1) k ≤ m.radix.after (d + 1) k := by
      refine m.radix.after_le (m.radix.lt_after _ k) ?_
      exact Nat.dvd_trans (m.radix.span_dvd_span (Nat.le_succ _) hd) (m.radix.span_dvd_after _ k)
    have hne : m.radix.after (d + 1 + 1) k ≠ m.radix.after (d + 1) k := by
      intro heq
      refine (m.radix.path_after hd hmore).2 ?_
      rw [heq]
      exact m.radix.span_dvd_after ..
    omega

/-- The next sibling begins behind the table. -/
theorem alignDown_add_weight (hdepth : d < m.radix.depth) (hk : k < coverage m) :
    alignDown (u64 (k + 1 <<< m.levelShift (m.root_level + d)))
      (1 <<< m.levelShift (m.root_level + d)) = m.radix.after (d + 1) k := by
  have hshift : 1 <<< m.levelShift (m.root_level + d) = m.radix.weight d := Nat.one_shiftLeft _
  have hweight : m.radix.weight d ≤ 2 ^ 52 := by
    refine Nat.le_trans (Nat.le_of_dvd (m.radix.span_pos 0) ?_) (span_le m)
    rw [← m.radix.span_succ hdepth]
    exact m.radix.span_dvd_span (Nat.zero_le _) hdepth
  have hlt : k + m.radix.weight d < 2 ^ 64 := by
    have := coverage_le m
    omega
  rw [hshift, u64_of_lt hlt, alignDown, Radix.after, m.radix.span_succ hdepth,
    Nat.add_div_right _ (m.radix.weight_pos d)]

/-- **`amdgpu_vm_pt_next` without a child.** -/
theorem climb_spec (hd : d ≤ m.radix.depth) (hk : k < coverage m) :
    NextTable m d k (climb m k (m.radix.path d k) (m.root_level + d)) := by
  induction d with
  | zero =>
    refine ⟨fun _ => rfl, fun h => ?_⟩
    have hspan : m.radix.span 0 ≤ m.radix.after 0 k := by
      rw [m.radix.after_eq_add]
      exact Nat.le_add_left ..
    have := coverage_le_span m
    omega
  | succ d ih =>
    have hdigit := digit_lt_numEntries hk d
    have hfanout := numEntries_le_fanout m d
    rw [Radix.path, climb, amdgpuVmPtSibling]
    dsimp only
    rw [show m.root_level + (d + 1) - 1 = m.root_level + d by omega]
    by_cases hlast : m.radix.digit d k + 1 = opuVmNumEntries m (m.root_level + d)
    · -- the last entry of its table: on to the table above
      rw [if_pos hlast]
      obtain ⟨hroot, habove⟩ := after_of_last hd hk hlast
      obtain ⟨houtside, hinside⟩ := ih (by omega)
      rcases Nat.eq_zero_or_pos d with rfl | hpos
      · refine ⟨fun _ => rfl, fun h => ?_⟩
        rw [hroot rfl] at h
        exact absurd h (Nat.lt_irrefl _)
      · rw [← habove hpos] at houtside hinside
        refine ⟨houtside, fun h => ?_⟩
        obtain ⟨e, he, hnext⟩ := hinside h
        exact ⟨e, Nat.lt_succ_of_lt he, hnext⟩
    · rw [if_neg hlast, alignDown_add_weight (by omega) hk]
      obtain ⟨hpath, hdvd⟩ := m.radix.path_after (show d < m.radix.depth by omega)
        (show m.radix.digit d k + 1 < m.radix.fanout d by omega)
      have hmore := after_lt_coverage hd hk (by omega)
      refine ⟨fun h => absurd h (Nat.not_le.2 hmore), fun _ => ?_⟩
      refine ⟨d, Nat.lt_succ_self d, ?_, ?_, hdvd⟩
      · rw [VmMgr.cursorAt, hpath]
      · exact m.radix.span_dvd_after ..

end Codrive.Vm
