/-
# Tables that share a page

`opu_vm_get_entry_mo_index`, the flags of `amdgpu_vm_update_pde`, `opu_mo_pd_flags` and
`opu_vm_get_pe_field` of `src/src/cmdio/linux/opu_vm_mgr.c`, and the flags of `opu_vm_mgr.h`.

A table of less than 4K shares a page with its siblings: the tables of a group of siblings lie one
after the other in the page that the first of them keeps.  Where a table lies in its page is written
into the entry of the parent, in units of 128 bytes.

`amdgpu_mc_get_pde_for_mo`, which is not in the repository, may set further flags: it is the
parameter `mc`.
-/

import Codrive.Vm.PageTables

namespace Codrive.Vm

open Codrive.Basis

/-- What `opu_vm_get_entry_mo_index` reads of the settings and of `struct opu_vm_mgr`. -/
structure Sharing where
  /-- `opu_setting_vm_use_offset`. -/
  use_offset : Bool
  use_64k_page : Bool
  frame_size : ℕ → ℕ

/-- `opu_vm_get_entry_mo_index` of the entry with this index in the array of its parent:
`*entry_mo_index` and `*shared_mo_byte_offset`, where it returns true. -/
def Sharing.opuVmGetEntryMoIndex (s : Sharing) (cur_entry_index level : ℕ) : Option (ℕ × ℕ) :=
  if !s.use_offset || !s.use_64k_page || 9 ≤ s.frame_size level || s.frame_size level < 4 then none
  else if level = OPU_VM_SPE ∨ level = OPU_VM_PTE then
    let shared_page_bit := 9
    let shared_entry_bit := shared_page_bit - s.frame_size level
    let shared_entry_mask := 1 <<< shared_entry_bit - 1
    let mo_entry_index := cur_entry_index &&& (2 ^ 32 - 1 - shared_entry_mask)
    some (mo_entry_index,
      wrap 32 ((cur_entry_index - mo_entry_index) * 1 <<< s.frame_size level * 8))
  else none

/-! ### The flags of a PDE -/

/-- `OPU_PTE_VALID`. -/
def OPU_PTE_VALID : ℕ := 1 <<< 0

/-- `OPU_PTE_SYSTEM`. -/
def OPU_PTE_SYSTEM : ℕ := 1 <<< 1

/-- `OPU_PTE_SNOOPED`. -/
def OPU_PTE_SNOOPED : ℕ := 1 <<< 2

/-- `OPU_PTE_READABLE`. -/
def OPU_PTE_READABLE : ℕ := 1 <<< 5

/-- `OPU_PTE_WRITEABLE`. -/
def OPU_PTE_WRITEABLE : ℕ := 1 <<< 6

/-- `OPU_PTE_TRANSFURTHER`. -/
def OPU_PTE_TRANSFURTHER : ℕ := 1 <<< 11

/-- `OPU_PTE_RESIDENT`. -/
def OPU_PTE_RESIDENT : ℕ := 1 <<< 52

/-- `OPU_PTE_PAGE_SIZE`. -/
def OPU_PTE_PAGE_SIZE : ℕ := 1 <<< 54

/-- `OPU_PT_FRAME_LEVEL`. -/
def OPU_PT_FRAME_LEVEL (l : ℕ) : ℕ := (l &&& 0x7) <<< 55

/-- `OPU_PT_OFFSET`. -/
def OPU_PT_OFFSET (o : ℕ) : ℕ := (o &&& 0x1f) <<< 58

/-- `OPU_PT_OFFSET_ALIGN_BITS`. -/
abbrev OPU_PT_OFFSET_ALIGN_BITS : ℕ := 7

/-- `OPU_PT_BYTE_OFFSET2FLAGS`. -/
def OPU_PT_BYTE_OFFSET2FLAGS (o : ℕ) : ℕ := OPU_PT_OFFSET (o >>> OPU_PT_OFFSET_ALIGN_BITS)

/-- What `opu_mo_pd_flags` reads of an object. -/
structure PdMo where
  is_dev_mem : Bool
  is_cpu_cached : Bool

/-- `opu_mo_pd_flags`. -/
def opuMoPdFlags (use_64k_page : Bool) (mo : PdMo) (level : ℕ) : ℕ :=
  let flags := OPU_PTE_VALID ||| OPU_PTE_READABLE ||| OPU_PTE_WRITEABLE ||| OPU_PTE_RESIDENT |||
    OPU_PT_FRAME_LEVEL level
  let flags := if !mo.is_dev_mem then flags ||| OPU_PTE_SYSTEM else flags
  let flags := if !mo.is_cpu_cached then flags ||| OPU_PTE_SNOOPED else flags
  let flags := if level == OPU_VM_PDE && use_64k_page then flags ||| OPU_PTE_PAGE_SIZE else flags
  if level = OPU_VM_PTE then flags ||| (OPU_PTE_TRANSFURTHER ||| OPU_PTE_PAGE_SIZE) else flags

/-- The flags that `amdgpu_vm_update_pde` writes; `mo_offset` is a `uint16_t`. -/
def pdeFlags (mc : ℕ → ℕ) (use_64k_page : Bool) (mo : PdMo) (level mo_offset : ℕ) : ℕ :=
  mc (opuMoPdFlags use_64k_page mo level) ||| OPU_PT_BYTE_OFFSET2FLAGS (wrap 16 mo_offset)

/-- `enum opu_pe_field`. -/
inductive PeField
  | PE_VALID
  | PE_SYSTEM
  | RESERVED1
  | PE_SNOOPED
  | PE_EXECUTABLE
  | PE_READABLE
  | PE_WRITEABLE
  | PE_FRAG
  | PE_TRANSFURTHER
  | PE_ADDRESS
  | RESERVED2
  | PE_RESIDENT
  | PE_PDE_AS_PTE
  | PE_PAGE_SIZE
  | PE_FRAME_LEVEL
  | PE_OFFSET
  | RESERVED3
  deriving DecidableEq

/-- `opu_pe_info`: the bits of a field, and where it starts. -/
def opuPeInfo : PeField → ℕ × ℕ
  | .PE_VALID => (1, 0)
  | .PE_SYSTEM => (1, 1)
  | .RESERVED1 => (1, 2)
  | .PE_SNOOPED => (1, 3)
  | .PE_EXECUTABLE => (1, 4)
  | .PE_READABLE => (1, 5)
  | .PE_WRITEABLE => (1, 6)
  | .PE_FRAG => (4, 7)
  | .PE_TRANSFURTHER => (1, 11)
  | .PE_ADDRESS => (36, 12)
  | .RESERVED2 => (4, 48)
  | .PE_RESIDENT => (1, 52)
  | .PE_PDE_AS_PTE => (1, 53)
  | .PE_PAGE_SIZE => (1, 54)
  | .PE_FRAME_LEVEL => (3, 55)
  | .PE_OFFSET => (5, 58)
  | .RESERVED3 => (1, 63)

/-- `opu_vm_get_pe_field`. -/
def opuVmGetPeField (pe : ℕ) (field : PeField) : ℕ :=
  pe >>> (opuPeInfo field).2 &&& (1 <<< (opuPeInfo field).1 - 1)

/-! ### The offsets -/

namespace Sharing

variable {s : Sharing} {level i j : ℕ}

/-- The tables of the level share pages. -/
structure Shares (s : Sharing) (level : ℕ) : Prop where
  use_offset : s.use_offset = true
  use_64k_page : s.use_64k_page = true
  four_le : 4 ≤ s.frame_size level
  le_eight : s.frame_size level ≤ 8
  level : level = OPU_VM_SPE ∨ level = OPU_VM_PTE

/-- The number of tables in a page. -/
def groupSize (s : Sharing) (level : ℕ) : ℕ := 2 ^ (9 - s.frame_size level)

/-- The size of a table in bytes. -/
def tableSize (s : Sharing) (level : ℕ) : ℕ := 8 * 2 ^ s.frame_size level

theorem Shares.page (h : s.Shares level) : s.groupSize level * s.tableSize level = 4096 := by
  have hsum : 9 - s.frame_size level + s.frame_size level = 9 := by
    have := h.le_eight
    omega
  rw [groupSize, tableSize, Nat.mul_left_comm, ← Nat.pow_add, hsum]

theorem Shares.tableSize_dvd (h : s.Shares level) : 128 ∣ s.tableSize level :=
  Nat.mul_dvd_mul (Nat.dvd_refl 8) (Nat.pow_dvd_pow 2 h.four_le)

/-- The place of a table in its group is its place in the page. -/
theorem Shares.end_le (h : s.Shares level) (i : ℕ) :
    i % s.groupSize level * s.tableSize level + s.tableSize level ≤ 4096 := by
  have hlt : i % s.groupSize level < s.groupSize level := Nat.mod_lt _ (Nat.two_pow_pos _)
  have hmul := Nat.mul_le_mul_right (s.tableSize level) (Nat.succ_le_of_lt hlt)
  rw [h.page, Nat.succ_mul] at hmul
  exact hmul

/-- **The leader of the group, and the place in its page.** -/
theorem Shares.entryMoIndex_eq (h : s.Shares level) (hi : i < 2 ^ 32) :
    s.opuVmGetEntryMoIndex i level = some
      (i - i % s.groupSize level, i % s.groupSize level * s.tableSize level) := by
  have hnot : (!s.use_offset || !s.use_64k_page || 9 ≤ s.frame_size level ||
      s.frame_size level < 4) = false := by
    have h₁ := h.le_eight
    have h₂ := h.four_le
    simp only [h.use_offset, h.use_64k_page, Bool.not_true, Bool.false_or, Bool.or_eq_false_iff,
      decide_eq_false_iff_not]
    omega
  have hleader : i &&& (2 ^ 32 - 1 - (1 <<< (9 - s.frame_size level) - 1)) =
      i - i % s.groupSize level := by
    rw [Nat.one_shiftLeft, groupSize]
    exact and_not_low hi (by omega)
  have hplace : (i - (i - i % s.groupSize level)) * 1 <<< s.frame_size level * 8 =
      i % s.groupSize level * s.tableSize level := by
    have hle := Nat.mod_le i (s.groupSize level)
    rw [Nat.sub_sub_self hle, Nat.one_shiftLeft, tableSize, Nat.mul_assoc, Nat.mul_comm 8]
  have hsmall : i % s.groupSize level * s.tableSize level < 2 ^ 32 := by
    have := h.end_le i
    omega
  unfold opuVmGetEntryMoIndex
  rw [hnot, if_neg Bool.false_ne_true, if_pos h.level]
  dsimp only
  rw [hleader, hplace, wrap_of_lt hsmall]

/-- Tables of one group, at their places. -/
theorem place_disjoint (size : ℕ) (hne : i ≠ j) :
    i * size + size ≤ j * size ∨ j * size + size ≤ i * size := by
  rcases Nat.lt_or_gt_of_ne hne with hlt | hlt
  · refine .inl ?_
    rw [← Nat.succ_mul]
    exact Nat.mul_le_mul_right size hlt
  · refine .inr ?_
    rw [← Nat.succ_mul]
    exact Nat.mul_le_mul_right size hlt

end Sharing

/-! ### The offset in the flags -/

/-- The flags that the driver sets have no offset. -/
theorem opuMoPdFlags_lt (use_64k_page : Bool) (mo : PdMo) (level : ℕ) :
    opuMoPdFlags use_64k_page mo level < 2 ^ 58 := by
  have hlevel : OPU_PT_FRAME_LEVEL level < 2 ^ 58 := by
    have heq : OPU_PT_FRAME_LEVEL level = (level &&& 0x7) * 2 ^ 55 := Nat.shiftLeft_eq ..
    have hle : (level &&& 0x7) * 2 ^ 55 ≤ 7 * 2 ^ 55 := Nat.mul_le_mul_right _ Nat.and_le_right
    exact heq ▸ Nat.lt_of_le_of_lt hle (by decide +kernel)
  have hbase := Nat.or_lt_two_pow (n := 58)
    (show OPU_PTE_VALID ||| OPU_PTE_READABLE ||| OPU_PTE_WRITEABLE ||| OPU_PTE_RESIDENT < 2 ^ 58 by
      decide +kernel) hlevel
  have hor : ∀ (b : Bool) (x y : ℕ), x < 2 ^ 58 → y < 2 ^ 58 →
      (if b then x ||| y else x) < 2 ^ 58 := by
    intro b x y hx hy
    split
    · exact Nat.or_lt_two_pow hx hy
    · exact hx
  have hrest := hor (level == OPU_VM_PDE && use_64k_page) _ _
    (hor (!mo.is_cpu_cached) _ _ (hor (!mo.is_dev_mem) _ _ hbase
      (show OPU_PTE_SYSTEM < 2 ^ 58 by decide +kernel))
      (show OPU_PTE_SNOOPED < 2 ^ 58 by decide +kernel))
    (show OPU_PTE_PAGE_SIZE < 2 ^ 58 by decide +kernel)
  unfold opuMoPdFlags
  dsimp only
  split
  · exact Nat.or_lt_two_pow hrest (by decide +kernel)
  · exact hrest

/-- The offset is in the bits from 58 to 62. -/
theorem testBit_pt_offset (o n : ℕ) (hn : n < 58 ∨ 62 < n) :
    (OPU_PT_OFFSET o).testBit n = false := by
  have hmask : (o &&& 0x1f) = o % 2 ^ 5 := Nat.and_two_pow_sub_one_eq_mod o 5
  unfold OPU_PT_OFFSET
  rw [hmask, Nat.testBit_shiftLeft, Nat.testBit_mod_two_pow]
  have hout : ¬(58 ≤ n ∧ n - 58 < 5) := by omega
  rw [← Bool.and_assoc, ← Bool.decide_and, decide_eq_false hout, Bool.false_and]

/-- The other bits are as they were. -/
theorem testBit_or_offset (flags o : ℕ) {n : ℕ} (hn : n < 58 ∨ 62 < n) :
    (flags ||| OPU_PT_BYTE_OFFSET2FLAGS o).testBit n = flags.testBit n := by
  unfold OPU_PT_BYTE_OFFSET2FLAGS
  rw [Nat.testBit_or, testBit_pt_offset _ n hn, Bool.or_false]

/-- **The offset can be read back**, where there was none. -/
theorem offset_read_back {flags o : ℕ} (hflags : opuVmGetPeField flags .PE_OFFSET = 0)
    (hdvd : 128 ∣ o) (ho : o < 4096) :
    opuVmGetPeField (flags ||| OPU_PT_BYTE_OFFSET2FLAGS o) .PE_OFFSET <<<
      OPU_PT_OFFSET_ALIGN_BITS = o := by
  obtain ⟨q, rfl⟩ := hdvd
  have hq : q < 32 := by omega
  have hshift : (128 * q) >>> OPU_PT_OFFSET_ALIGN_BITS = q := by
    rw [Nat.shiftRight_eq_div_pow]
    exact Nat.mul_div_cancel_left q (by decide)
  have hfield : opuVmGetPeField (OPU_PT_BYTE_OFFSET2FLAGS (128 * q)) .PE_OFFSET = q := by
    rw [OPU_PT_BYTE_OFFSET2FLAGS, hshift]
    change (q &&& (2 ^ 5 - 1)) <<< 58 >>> 58 &&& (1 <<< 5 - 1) = q
    rw [Nat.shiftLeft_shiftRight, Nat.one_shiftLeft, Nat.and_two_pow_sub_one_eq_mod,
      Nat.and_two_pow_sub_one_eq_mod, Nat.mod_mod, Nat.mod_eq_of_lt hq]
  have hor : opuVmGetPeField (flags ||| OPU_PT_BYTE_OFFSET2FLAGS (128 * q)) .PE_OFFSET =
      opuVmGetPeField flags .PE_OFFSET |||
        opuVmGetPeField (OPU_PT_BYTE_OFFSET2FLAGS (128 * q)) .PE_OFFSET := by
    rw [opuVmGetPeField, Nat.shiftRight_or_distrib, Nat.and_or_distrib_right]
    rfl
  rw [hor, hflags, hfield, Nat.zero_or, Nat.shiftLeft_eq]
  exact Nat.mul_comm q 128

/-- The flags that are written, with an offset that fits. -/
theorem pdeFlags_offset {mc : ℕ → ℕ}
    (hmc : ∀ flags, opuVmGetPeField flags .PE_OFFSET = 0 →
      opuVmGetPeField (mc flags) .PE_OFFSET = 0)
    (use_64k_page : Bool) (mo : PdMo) (level : ℕ) {offset : ℕ} (hdvd : 128 ∣ offset)
    (ho : offset < 4096) :
    opuVmGetPeField (pdeFlags mc use_64k_page mo level offset) .PE_OFFSET <<<
        OPU_PT_OFFSET_ALIGN_BITS = offset ∧
      ∀ n, n < 58 ∨ 62 < n → (pdeFlags mc use_64k_page mo level offset).testBit n =
        (mc (opuMoPdFlags use_64k_page mo level)).testBit n := by
  have hclear : opuVmGetPeField (opuMoPdFlags use_64k_page mo level) .PE_OFFSET = 0 := by
    have hzero : opuMoPdFlags use_64k_page mo level >>> 58 = 0 := by
      rw [Nat.shiftRight_eq_div_pow, Nat.div_eq_of_lt (opuMoPdFlags_lt use_64k_page mo level)]
    change opuMoPdFlags use_64k_page mo level >>> 58 &&& _ = 0
    rw [hzero, Nat.zero_and]
  have hfits : wrap 16 offset = offset := wrap_of_lt (by omega)
  unfold pdeFlags
  rw [hfits]
  exact ⟨offset_read_back (hmc _ hclear) hdvd ho, fun n hn => testBit_or_offset _ offset hn⟩

/-- **Siblings of one group share a page, each at a place of its own**, and siblings of different
groups do not.  Every place is one that the flags of the parent's entry can say. -/
theorem shared_pages {s : Sharing} {level : ℕ} (h : s.Shares level) {mc : ℕ → ℕ}
    (hmc : ∀ flags, opuVmGetPeField flags .PE_OFFSET = 0 →
      opuVmGetPeField (mc flags) .PE_OFFSET = 0)
    {i j : ℕ} (hi : i < 2 ^ 32) (hj : j < 2 ^ 32) :
    ∃ leader offset leader' offset',
      s.opuVmGetEntryMoIndex i level = some (leader, offset) ∧
      s.opuVmGetEntryMoIndex j level = some (leader', offset') ∧
      leader ≤ i ∧ s.opuVmGetEntryMoIndex leader level = some (leader, 0) ∧
      (leader = leader' ↔ i / s.groupSize level = j / s.groupSize level) ∧
      offset + s.tableSize level ≤ 4096 ∧ 128 ∣ offset ∧
      (leader = leader' → i ≠ j →
        offset + s.tableSize level ≤ offset' ∨ offset' + s.tableSize level ≤ offset) ∧
      ∀ use_64k_page mo parent_level,
        opuVmGetPeField (pdeFlags mc use_64k_page mo parent_level offset) .PE_OFFSET <<<
            OPU_PT_OFFSET_ALIGN_BITS = offset ∧
          ∀ n, n < 58 ∨ 62 < n →
            (pdeFlags mc use_64k_page mo parent_level offset).testBit n =
              (mc (opuMoPdFlags use_64k_page mo parent_level)).testBit n := by
  have hpos : 0 < s.groupSize level := Nat.two_pow_pos _
  have hsize : 0 < s.tableSize level := Nat.mul_pos (by decide) (Nat.two_pow_pos _)
  have hend := h.end_le i
  have hi' := Nat.div_add_mod i (s.groupSize level)
  have hj' := Nat.div_add_mod j (s.groupSize level)
  have hdvd : 128 ∣ i % s.groupSize level * s.tableSize level :=
    Nat.dvd_mul_left_of_dvd h.tableSize_dvd _
  have hleader : i - i % s.groupSize level = s.groupSize level * (i / s.groupSize level) := by
    omega
  have hleader' : j - j % s.groupSize level = s.groupSize level * (j / s.groupSize level) := by
    omega
  have hgroup : i - i % s.groupSize level = j - j % s.groupSize level ↔
      i / s.groupSize level = j / s.groupSize level := by
    rw [hleader, hleader']
    exact Nat.mul_right_inj (Nat.ne_of_gt hpos)
  refine ⟨_, _, _, _, h.entryMoIndex_eq hi, h.entryMoIndex_eq hj, Nat.sub_le _ _, ?_, hgroup, hend,
    hdvd, fun heq hne => ?_, fun use_64k_page mo parent_level => ?_⟩
  · rw [h.entryMoIndex_eq (Nat.lt_of_le_of_lt (Nat.sub_le _ _) hi), hleader, Nat.mul_mod_right,
      Nat.sub_zero, Nat.zero_mul]
  · refine Sharing.place_disjoint _ fun hmod => hne ?_
    rw [hgroup.1 heq, hmod] at hi'
    exact hi'.symm.trans hj'
  · exact pdeFlags_offset hmc use_64k_page mo parent_level hdvd (by omega)

/-- A level of 16 entries: the tables 5 and 6 of an array are in the page of the first. -/
theorem shared_pages_sixteen : ∃ leader offset offset',
    (⟨true, true, fun _ => 4⟩ : Sharing).opuVmGetEntryMoIndex 5 OPU_VM_SPE =
      some (leader, offset) ∧
    (⟨true, true, fun _ => 4⟩ : Sharing).opuVmGetEntryMoIndex 6 OPU_VM_SPE =
      some (leader, offset') ∧
    (offset + 128 ≤ offset' ∨ offset' + 128 ≤ offset) := by
  have hshares : (⟨true, true, fun _ => 4⟩ : Sharing).Shares OPU_VM_SPE :=
    ⟨rfl, rfl, by decide, by decide, .inl rfl⟩
  have hid : ∀ flags, opuVmGetPeField flags .PE_OFFSET = 0 →
      opuVmGetPeField (id flags) .PE_OFFSET = 0 := fun _ h => h
  obtain ⟨leader, offset, leader', offset', h₅, h₆, -, -, hgroup, -, -, hapart, -⟩ :=
    shared_pages (i := 5) (j := 6) hshares hid (by decide) (by decide)
  obtain rfl := hgroup.2 rfl
  exact ⟨leader, offset, offset', h₅, h₆, hapart rfl (by decide)⟩

end Codrive.Vm
