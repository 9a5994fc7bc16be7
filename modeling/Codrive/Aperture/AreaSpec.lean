/-
# What reserving and releasing an area does

A `ReservedVma` gives an area back exactly, as its allocator does.  A `MmapVma` gives it back
exactly when the area is a number of pages, or no padding is left behind it: where the area ends
inside a page, `munmap` refuses the padding, and releasing the area leaves it mapped.  Releasing the
null pointer, as `mm_allocate_device` does when no area could be reserved, aborts in a
`ReservedVma`, which finds the start guard there, and in a `MmapVma` unmaps the first pages of the
address space.
-/

import Codrive.Aperture.Areas

namespace Codrive.Aperture

open Codrive.Basis Codrive.Device

/-! ### Pages -/

theorem mem_pagesOf {page addr len x : ℕ} (hp : 0 < page) (hd : page ∣ addr) :
    x ∈ pagesOf page addr len ↔ addr ≤ x * page ∧ x * page < addr + len := by
  unfold pagesOf
  obtain ⟨a, rfl⟩ := hd
  rw [Finset.mem_Ico, Nat.mul_div_cancel_left a hp]
  refine and_congr ?_ ?_
  · rw [Nat.mul_comm page a]
    exact (Nat.mul_le_mul_right_iff hp).symm
  · rw [Nat.lt_iff_add_one_le, Nat.le_div_iff_mul_le hp, Nat.add_mul, Nat.one_mul]
    omega

theorem add_le_of_dvd {d a b : ℕ} (ha : d ∣ a) (hb : d ∣ b) (h : a < b) : a + d ≤ b := by
  have hsub : d ∣ b - a := Nat.dvd_sub hb ha
  have hle := Nat.le_of_dvd (by omega) hsub
  omega

theorem growAlign_ok {d : ℕ} (size count : ℕ) :
    ∀ {align : ℕ}, d ∣ align → 0 < align →
      d ∣ growAlign size count align ∧ 0 < growAlign size count align := by
  induction count with
  | zero => exact fun hd hpos => ⟨hd, hpos⟩
  | succ count ih =>
    intro align hd hpos
    unfold growAlign
    split_ifs
    · exact ih (Dvd.dvd.mul_left hd 2) (by omega)
    · exact ⟨hd, hpos⟩

theorem alignUp_ok {num align : ℕ} (hpos : 0 < align) :
    align ∣ alignUp num align ∧ num ≤ alignUp num align ∧ alignUp num align < num + align := by
  unfold alignUp
  have hmod := Nat.div_add_mod (num + align - 1) align
  have hlt := Nat.mod_lt (num + align - 1) hpos
  rw [Nat.mul_comm] at hmod
  exact ⟨Nat.dvd_mul_left _ _, by omega, by omega⟩

/-! ### Areas of a `MmapVma` -/

namespace Vma

variable {v : Vma} {addr size : ℕ}

/-- The alignment is a number of pages. -/
structure AlignOk (v : Vma) : Prop where
  page_pos : 0 < v.PAGE_SIZE
  align_pos : 0 < v.align_
  align_dvd : v.PAGE_SIZE ∣ v.align_

theorem Ok.alignOk (h : v.Ok) : v.AlignOk := ⟨h.page_pos, h.align_pos, h.align_dvd⟩

/-- The area lies inside what `mmap` returns, with whole guard pages around it. -/
theorem AlignOk.layout (h : v.AlignOk) (hd : v.PAGE_SIZE ∣ addr) (size : ℕ) :
    v.PAGE_SIZE ∣ v.alignedAddr addr size ∧
      addr + v.guard_pages_ * v.PAGE_SIZE ≤ v.alignedAddr addr size ∧
        v.alignedAddr addr size + size + v.guard_pages_ * v.PAGE_SIZE ≤
          addr + v.alignedPaddedSize size ∧
          v.PAGE_SIZE ∣ addr + v.alignedPaddedSize size - (v.alignedAddr addr size + size) := by
  have hp := h.page_pos
  obtain ⟨hA, hApos⟩ := growAlign_ok size 21 h.align_dvd h.align_pos
  have hA' : v.PAGE_SIZE ∣ v.align size := hA
  have hApos' : 0 < v.align size := hApos
  obtain ⟨hdvd, hge, hlt⟩ := @alignUp_ok (addr + v.guard_pages_ * v.PAGE_SIZE) _ hApos'
  have hG : v.PAGE_SIZE ∣ v.guard_pages_ * v.PAGE_SIZE := Nat.dvd_mul_left _ _
  have hal : v.PAGE_SIZE ∣ v.alignedAddr addr size := hA'.trans hdvd
  have hend : v.PAGE_SIZE ∣ addr + v.guard_pages_ * v.PAGE_SIZE + v.align size :=
    Nat.dvd_add (Nat.dvd_add hd hG) hA'
  have hle := add_le_of_dvd hal hend hlt
  have hPA := Nat.le_of_dvd hApos' hA'
  have htail : addr + v.alignedPaddedSize size - (v.alignedAddr addr size + size) =
      (addr + v.guard_pages_ * v.PAGE_SIZE + v.align size + v.guard_pages_ * v.PAGE_SIZE) -
        (v.alignedAddr addr size + v.PAGE_SIZE) := by
    unfold alignedPaddedSize
    omega
  refine ⟨hal, hge, ?_, ?_⟩
  · unfold alignedPaddedSize
    omega
  · rw [htail]
    exact Nat.dvd_sub (Nat.dvd_add hend hG) (Nat.dvd_add hal (Nat.dvd_refl _))

/-- The area is a number of pages, or ends where the mapping does. -/
def Tight (v : Vma) (addr size : ℕ) : Prop :=
  v.PAGE_SIZE ∣ size ∨ v.alignedAddr addr size + size = addr + v.alignedPaddedSize size

instance (v : Vma) (addr size : ℕ) : Decidable (v.Tight addr size) :=
  inferInstanceAs (Decidable (_ ∨ _))

/-- What `munmap` leaves. -/
theorem mem_pages_munmap (hp : 0 < v.PAGE_SIZE) (hd : v.PAGE_SIZE ∣ addr) (x len : ℕ) :
    x ∈ (v.munmap addr len).pages ↔
      x ∈ v.pages ∧ ¬(addr ≤ x * v.PAGE_SIZE ∧ x * v.PAGE_SIZE < addr + len) := by
  unfold munmap
  split_ifs with hlen
  · rw [Finset.mem_sdiff, mem_pagesOf hp hd]
  · have hzero : len = 0 := by
      have := Nat.mod_eq_zero_of_dvd hd
      omega
    subst hzero
    exact ⟨fun hx => ⟨hx, by omega⟩, And.left⟩

/-- `munmap` refuses an address inside a page. -/
theorem munmap_of_not_dvd {len : ℕ} (hd : ¬v.PAGE_SIZE ∣ addr) : v.munmap addr len = v := by
  unfold munmap
  rw [if_neg fun h => hd (Nat.dvd_of_mod_eq_zero h.1)]

@[simp] theorem munmap_PAGE_SIZE (len : ℕ) : (v.munmap addr len).PAGE_SIZE = v.PAGE_SIZE := by
  unfold munmap
  split_ifs <;> rfl

/-- What `munmap` of a part leaves, where there is one. -/
theorem mem_pages_munmap_if {w : Vma} {a b x : ℕ} (hp : 0 < w.PAGE_SIZE) (hd : w.PAGE_SIZE ∣ a)
    (hab : a ≤ b) :
    x ∈ (if a < b then w.munmap a (b - a) else w).pages ↔
      x ∈ w.pages ∧ ¬(a ≤ x * w.PAGE_SIZE ∧ x * w.PAGE_SIZE < b) := by
  split_ifs with hlt
  · rw [mem_pages_munmap hp hd, Nat.add_sub_cancel' hab]
  · exact ⟨fun hx => ⟨hx, by omega⟩, And.left⟩

/-- What is mapped once an area is reserved. -/
theorem AlignOk.mem_trim (h : v.AlignOk) (hd : v.PAGE_SIZE ∣ addr)
    (hnew : Disjoint v.pages (pagesOf v.PAGE_SIZE addr (v.alignedPaddedSize size))) :
    ((v.trim addr size).1 = 0 ∧ (v.trim addr size).2.pages = v.pages) ∨
      (v.trim addr size).1 = v.alignedAddr addr size ∧
        ∀ x, x ∈ (v.trim addr size).2.pages ↔ x ∈ v.pages ∨
          v.alignedAddr addr size ≤ x * v.PAGE_SIZE ∧ x * v.PAGE_SIZE <
            (if v.PAGE_SIZE ∣ size then v.alignedAddr addr size + size
             else addr + v.alignedPaddedSize size) := by
  have hp := h.page_pos
  obtain ⟨hal, hge, hguard, -⟩ := h.layout hd size
  have hle : v.alignedAddr addr size + size ≤ addr + v.alignedPaddedSize size :=
    Nat.le_trans (Nat.le_add_right ..) hguard
  have hout : ∀ x ∈ v.pages, ¬(addr ≤ x * v.PAGE_SIZE ∧
      x * v.PAGE_SIZE < addr + v.alignedPaddedSize size) := fun x hx hin =>
    Finset.disjoint_left.1 hnew hx ((mem_pagesOf hp hd).2 hin)
  unfold trim
  dsimp only
  by_cases hrange : v.alignedAddr addr size < v.base_ ∨
      v.limit_ < v.alignedAddr addr size + size - 1
  · rw [if_pos hrange]
    refine .inl ⟨rfl, Finset.ext fun x => ?_⟩
    have hmem := mem_pages_munmap (v := { v with
      pages := v.pages ∪ pagesOf v.PAGE_SIZE addr (v.alignedPaddedSize size) }) hp hd x
      (v.alignedPaddedSize size)
    rw [hmem, Finset.mem_union, mem_pagesOf hp hd]
    have := hout x
    tauto
  · rw [if_neg hrange]
    refine .inr ⟨rfl, fun x => ?_⟩
    have hx := hout x
    generalize hw : { v with
      pages := v.pages ∪ pagesOf v.PAGE_SIZE addr (v.alignedPaddedSize size) } = w
    have hsize : w.PAGE_SIZE = v.PAGE_SIZE := by rw [← hw]
    have hmem : x ∈ w.pages ↔ x ∈ v.pages ∨
        addr ≤ x * v.PAGE_SIZE ∧ x * v.PAGE_SIZE < addr + v.alignedPaddedSize size := by
      rw [← hw, Finset.mem_union, mem_pagesOf hp hd]
    have hfront := mem_pages_munmap_if (w := w) (hsize ▸ hp) (hsize ▸ hd)
      (by omega : addr ≤ v.alignedAddr addr size) (x := x)
    rw [hsize, hmem] at hfront
    generalize hw₁ : (if addr < v.alignedAddr addr size then
      w.munmap addr (v.alignedAddr addr size - addr) else w) = w₁ at hfront ⊢
    have hsize₁ : w₁.PAGE_SIZE = v.PAGE_SIZE := by
      rw [← hw₁]
      split_ifs
      · rw [munmap_PAGE_SIZE, hsize]
      · exact hsize
    by_cases hdvd : v.PAGE_SIZE ∣ size
    · rw [if_pos hdvd]
      have hback := mem_pages_munmap_if (w := w₁) (hsize₁ ▸ hp)
        (hsize₁ ▸ Nat.dvd_add hal hdvd) hle (x := x)
      rw [hsize₁, hfront] at hback
      rw [hback]
      by_cases hxv : x ∈ v.pages
      · have := hx hxv
        simp only [hxv, true_or, true_and, iff_true]
        omega
      · simp only [hxv, false_or]
        omega
    · -- The area ends inside a page, and what is behind it stays.
      rw [if_neg hdvd]
      have hin : ¬w₁.PAGE_SIZE ∣ v.alignedAddr addr size + size := by
        rw [hsize₁]
        exact fun hdiv => hdvd ((Nat.dvd_add_right hal).1 hdiv)
      rw [munmap_of_not_dvd hin, ite_self, hfront]
      by_cases hxv : x ∈ v.pages
      · have := hx hxv
        simp only [hxv, true_or, true_and, iff_true]
        omega
      · simp only [hxv, false_or]
        omega

/-- **Releasing a reserved area leaves what was mapped before**, if the area is tight. -/
theorem Ok.munmap_trim_iff (h : v.Ok) (hd : v.PAGE_SIZE ∣ addr) {w : Vma}
    (hw : ∀ x, x ∈ w.pages ↔ x ∈ v.pages ∨
      v.alignedAddr addr size ≤ x * v.PAGE_SIZE ∧ x * v.PAGE_SIZE <
        (if v.PAGE_SIZE ∣ size then v.alignedAddr addr size + size
         else addr + v.alignedPaddedSize size)) (hsize : w.PAGE_SIZE = v.PAGE_SIZE)
    (hnew : Disjoint v.pages (pagesOf v.PAGE_SIZE addr (v.alignedPaddedSize size))) :
    (w.munmap (v.alignedAddr addr size) size).pages = v.pages ↔ v.Tight addr size := by
  have hp := h.page_pos
  obtain ⟨hal, hge, hle, htail⟩ := h.alignOk.layout hd size
  have hmem : ∀ x, x ∈ (w.munmap (v.alignedAddr addr size) size).pages ↔ x ∈ w.pages ∧
      ¬(v.alignedAddr addr size ≤ x * v.PAGE_SIZE ∧
        x * v.PAGE_SIZE < v.alignedAddr addr size + size) := fun x => by
    have := mem_pages_munmap (v := w) (hsize ▸ hp) (hsize ▸ hal) x size
    rwa [hsize] at this
  have hout : ∀ x ∈ v.pages, ¬(addr ≤ x * v.PAGE_SIZE ∧
      x * v.PAGE_SIZE < addr + v.alignedPaddedSize size) := fun x hx hin =>
    Finset.disjoint_left.1 hnew hx ((mem_pagesOf hp hd).2 hin)
  constructor
  · intro heq
    by_contra hnot
    obtain ⟨hdvd, hend⟩ := not_or.1 hnot
    -- The page after the last one the area reaches into is still mapped.
    have hpos : v.PAGE_SIZE ≤ addr + v.alignedPaddedSize size - (v.alignedAddr addr size + size) :=
      Nat.le_of_dvd (by omega) htail
    obtain ⟨x, hx⟩ : ∃ x, x = (v.alignedAddr addr size + size) / v.PAGE_SIZE + 1 := ⟨_, rfl⟩
    have hdiv := Nat.div_add_mod (v.alignedAddr addr size + size) v.PAGE_SIZE
    have hmod := Nat.mod_lt (v.alignedAddr addr size + size) hp
    have hmodpos : 0 < (v.alignedAddr addr size + size) % v.PAGE_SIZE :=
      Nat.pos_of_ne_zero fun hz => hdvd ((Nat.dvd_add_right hal).1 (Nat.dvd_of_mod_eq_zero hz))
    have hxp : x * v.PAGE_SIZE =
        v.PAGE_SIZE * ((v.alignedAddr addr size + size) / v.PAGE_SIZE) + v.PAGE_SIZE := by
      rw [hx, Nat.add_mul, Nat.one_mul, Nat.mul_comm]
    have hin : x ∈ (w.munmap (v.alignedAddr addr size) size).pages := by
      rw [hmem, hw, if_neg hdvd]
      exact ⟨.inr ⟨by omega, by omega⟩, by omega⟩
    rw [heq] at hin
    exact hout x hin ⟨by omega, by omega⟩
  · intro htight
    refine Finset.ext fun x => ?_
    rw [hmem, hw]
    have hx := hout x
    by_cases hxv : x ∈ v.pages
    · have := hx hxv
      simp only [hxv, true_or, true_and, iff_true]
      omega
    · simp only [hxv, false_or, iff_false]
      rcases htight with hdvd | hend
      · rw [if_pos hdvd]
        omega
      · split_ifs <;> omega

/-- Only an empty area leaves the mapped pages as they are. -/
theorem Ok.trim_eq_iff (h : v.Ok) (hd : v.PAGE_SIZE ∣ addr) {w : Vma}
    (hw : ∀ x, x ∈ w.pages ↔ x ∈ v.pages ∨
      v.alignedAddr addr size ≤ x * v.PAGE_SIZE ∧ x * v.PAGE_SIZE <
        (if v.PAGE_SIZE ∣ size then v.alignedAddr addr size + size
         else addr + v.alignedPaddedSize size))
    (hnew : Disjoint v.pages (pagesOf v.PAGE_SIZE addr (v.alignedPaddedSize size))) :
    w.pages = v.pages ↔ size = 0 := by
  have hp := h.page_pos
  obtain ⟨hal, hge, hle, -⟩ := h.alignOk.layout hd size
  constructor
  · intro heq
    by_contra hne
    obtain ⟨b, hb⟩ := hal
    have hb' : b * v.PAGE_SIZE = v.alignedAddr addr size := by rw [hb, Nat.mul_comm]
    have hin : b ∈ w.pages := by
      rw [hw]
      refine .inr ⟨hb'.ge, ?_⟩
      split_ifs <;> omega
    rw [heq] at hin
    refine Finset.disjoint_left.1 hnew hin ((mem_pagesOf hp hd).2 ⟨by omega, by omega⟩)
  · rintro rfl
    refine Finset.ext fun x => ?_
    rw [hw, if_pos (Nat.dvd_zero _)]
    exact or_iff_left (by omega)

end Vma

/-! ### The null pointer -/

namespace Vma

variable {v : Vma} {addr size : ℕ}

/-- An area is given back exactly: by an allocator, or tight. -/
def GivesBack (v : Vma) (os : Option ℕ) (size : ℕ) : Prop :=
  v.cls = .mmap → ∀ addr ∈ os, v.Tight addr size

/-- `w` is the aperture `v` with one more area: it is a new one, unless it is empty, and releasing
it leads back where it is given back exactly. -/
structure Reserved (ndebug : Bool) (v : Vma) (os : Option ℕ) (size mem : ℕ) (w : Vma) : Prop where
  ne_zero : mem ≠ 0
  frame : w = { v with allocator_ := w.allocator_, pages := w.pages }
  kept : v.SameAreas w ↔ v.cls = .mmap ∧ size = 0
  released : ∀ pool fields, ∃ u,
    ({ w with mem_objs := pool, fields := fields } : Vma).releaseArea ndebug mem size = some u ∧
      u.mem_objs = pool ∧ (v.SameAreas u ↔ v.GivesBack os size)

/-- **An area of a `ReservedVma`.** -/
theorem Ok.reserved_spec (h : v.Ok) (ndebug : Bool) {a : Allocator} (hcls : v.cls = .reserved)
    (ha : v.allocator_ = some a) (os : Option ℕ) (address : ℕ) :
    v.apertureAllocateArea ndebug os address size = some (0, v) ∨
      ∃ mem w, v.apertureAllocateArea ndebug os address size = some (mem, w) ∧
        Reserved ndebug v os size mem w := by
  have hinv := h.allocator a ha
  have hused : v.used = usedNodes a.memory.entries := by
    unfold used
    rw [ha]
    rfl
  unfold apertureAllocateArea
  rw [hcls]
  rcases Allocator.alloc_inv ndebug hinv address (v.vmAlignAreaSize size) (address ≠ 0) with
    hr | ⟨p, a', hr, hinv', hpos, -, -, hperm⟩
  · left
    simp only [ha, Option.bind_eq_bind, Option.bind_some, hr, Option.getD_none, Option.pure_def]
    rw [← ha, ← hcls]
  · right
    refine ⟨p, { v with allocator_ := some a' }, ?_, ?_⟩
    · simp only [ha, Option.bind_eq_bind, Option.bind_some, hr, Option.getD_some, Option.pure_def]
      rw [← hcls]
    have hin : (p, v.vmAlignAreaSize size) ∈ usedNodes a'.memory.entries :=
      hperm.mem_iff.2 List.mem_cons_self
    refine ⟨?_, rfl, ?_, fun pool fields => ?_⟩
    · -- The start guard is free.
      rintro rfl
      obtain ⟨n, hn, hfree, -⟩ := mem_usedNodes.1 hin
      exact Bool.false_ne_true (hfree.symm.trans (hinv'.shape.zero _ hn rfl).2.2)
    · refine iff_of_false (fun hsame => ?_) (fun hm => nomatch hcls.symm.trans hm.1)
      have hlen := (hperm.symm.trans (hsame.1.trans (.of_eq hused))).length_eq
      rw [List.length_cons] at hlen
      omega
    · obtain ⟨a'', hfree, -, -, -, hback⟩ := Allocator.free_inv ndebug hinv' hin
      refine ⟨{ v with allocator_ := some a'', mem_objs := pool, fields }, ?_, rfl, ?_⟩
      · unfold releaseArea
        dsimp only [vmAlignAreaSize] at hfree ⊢
        simp only [hcls, hfree, Option.bind_eq_bind, Option.bind_some, Option.pure_def]
      · refine iff_of_true ⟨?_, rfl⟩ fun hm => nomatch hcls.symm.trans hm
        rw [hused]
        exact ((hback.symm.trans hperm).cons_inv)

/-- **An area of a `MmapVma`.** -/
theorem Ok.mmap_spec (h : v.Ok) (ndebug : Bool) {os : Option ℕ} (hos : v.OsOk os size)
    (hcls : v.cls = .mmap) (address : ℕ) :
    v.apertureAllocateArea ndebug os address size = some (0, v) ∨
      ∃ mem w, v.apertureAllocateArea ndebug os address size = some (mem, w) ∧
        Reserved ndebug v os size mem w := by
  unfold apertureAllocateArea mmapArea
  rw [hcls]
  dsimp only
  by_cases haddr : address ≠ 0
  · rw [if_pos haddr]
    exact .inl rfl
  rw [if_neg haddr]
  by_cases hacc : !v.is_cpu_accessible_
  · rw [if_pos hacc]
    exact .inl rfl
  rw [if_neg hacc]
  rcases os with _ | addr
  · exact .inl rfl
  obtain ⟨hne, hd, hnew⟩ := hos addr rfl
  have hframe : (v.trim addr size).2 = { v with pages := (v.trim addr size).2.pages } := by
    unfold trim munmap
    dsimp only
    split_ifs <;> rfl
  obtain ⟨-, hge, -⟩ := h.alignOk.layout hd size
  rcases h.alignOk.mem_trim hd hnew with ⟨hmem, hpages⟩ | ⟨hmem, hpages⟩
  · left
    rw [hpages] at hframe
    exact congrArg some (Prod.ext hmem hframe)
  · right
    refine ⟨(v.trim addr size).1, (v.trim addr size).2, rfl, ?_⟩
    rw [hmem]
    generalize (v.trim addr size).2 = w at hframe hpages
    have hused : w.used = v.used := by rw [hframe]; rfl
    have hsize : w.PAGE_SIZE = v.PAGE_SIZE := by rw [hframe]
    refine ⟨by omega, ?_, ?_, fun pool fields => ?_⟩
    · rw [hframe]
    · constructor
      · exact fun hsame => ⟨hcls, (h.trim_eq_iff hd hpages hnew).1 hsame.2⟩
      · exact fun hz => ⟨.of_eq hused, (h.trim_eq_iff hd hpages hnew).2 hz.2⟩
    · refine ⟨({ w with mem_objs := pool, fields := fields } : Vma).munmap
        (v.alignedAddr addr size) size, ?_, ?_, ?_⟩
      · have hcls' : w.cls = .mmap := by rw [hframe, hcls]
        have hacc' : w.is_cpu_accessible_ = true := by
          rw [hframe]
          simpa using hacc
        unfold releaseArea
        dsimp only
        rw [hcls']
        dsimp only
        rw [if_pos hacc']
      · unfold munmap
        split_ifs <;> rfl
      · have hiff := h.munmap_trim_iff hd
          (w := { w with mem_objs := pool, fields := fields }) hpages hsize hnew
        have hused' : (({ w with mem_objs := pool, fields := fields } : Vma).munmap
            (v.alignedAddr addr size) size).used = v.used := by
          rw [← hused]
          unfold munmap
          split_ifs <;> rfl
        constructor
        · rintro ⟨-, hpages'⟩ - addr' haddr'
          obtain rfl := Option.some.inj haddr'
          exact hiff.1 hpages'
        · exact fun hgive => ⟨.of_eq hused', hiff.2 (hgive hcls addr rfl)⟩

/-- **Reserving an area.** -/
theorem Ok.allocate_spec (h : v.Ok) (ndebug : Bool) {os : Option ℕ} (hos : v.OsOk os size)
    (address : ℕ) :
    (v.cls = .reserved ∧ v.allocator_ = none ∧
      v.apertureAllocateArea ndebug os address size = none) ∨
      v.apertureAllocateArea ndebug os address size = some (0, v) ∨
        ∃ mem w, v.apertureAllocateArea ndebug os address size = some (mem, w) ∧
          Reserved ndebug v os size mem w := by
  rcases hcls : v.cls
  · rcases ha : v.allocator_ with _ | a
    · left
      refine ⟨rfl, rfl, ?_⟩
      unfold apertureAllocateArea
      rw [hcls]
      dsimp only
      rw [ha]
      rfl
    · exact .inr (h.reserved_spec ndebug hcls ha os address)
  · exact .inr (h.mmap_spec ndebug hos hcls address)

end Vma

end Codrive.Aperture
