/-
# Areas from the operating system

`MmapVma::allocate_area_aligned` of `src/src/device/Vma.cpp`, with the alignment that is asked for
and in 64-bit words.  It asks `mmap` for the size with room for the alignment and the guard pages,
and unmaps what is not needed.  `Vma.mmapArea` is the same without wrap-around
(`mmapAllocateAreaAligned_eq`), and then the padding is just large enough.  Where the padded size
wraps, `mmap` is asked for less than the size, and an address that passes the range check is an area
that is not mapped.
-/

import Codrive.Aperture.AreaSpec

namespace Codrive.Aperture

open Codrive.Basis Codrive.Device

/-- `alignUp`, in 64-bit words. -/
def alignUp64 (num align : ℕ) : ℕ := u64 (num + align - 1) / align * align

namespace Vma

/-- `guard_size`. -/
def guardSize (v : Vma) : ℕ := v.guard_pages_ * v.PAGE_SIZE

/-- `aligned_padded_size`, for the alignment after the loop. -/
def paddedSize64 (v : Vma) (size align : ℕ) : ℕ :=
  sub64 (u64 (size + align + 2 * v.guardSize)) v.PAGE_SIZE

/-- `aligned_addr < base_ || VOID_PTR_ADD(aligned_addr, size - 1) > limit_`. -/
def OutOfRange (v : Vma) (aligned_addr size : ℕ) : Prop :=
  aligned_addr < v.base_ ∨ v.limit_ < u64 (aligned_addr + sub64 size 1)

instance (v : Vma) (aligned_addr size : ℕ) : Decidable (v.OutOfRange aligned_addr size) :=
  inferInstanceAs (Decidable (_ ∨ _))

/-- `MmapVma::allocate_area_aligned`. -/
def mmapAllocateAreaAligned (v : Vma) (os : ℕ → Option ℕ) (address size align : ℕ) : ℕ × Vma :=
  if address ≠ 0 then (0, v)
  else if !v.is_cpu_accessible_ then (0, v)
  else
    let align := growAlign size 21 align
    let aligned_padded_size := v.paddedSize64 size align
    match os aligned_padded_size with
    | none => (0, v)
    | some addr =>
      let w := { v with pages := v.pages ∪ pagesOf v.PAGE_SIZE addr aligned_padded_size }
      let aligned_addr := alignUp64 (u64 (addr + v.guardSize)) align
      if v.OutOfRange aligned_addr size then (0, w.munmap addr aligned_padded_size)
      else
        let w := if addr < aligned_addr then w.munmap addr (aligned_addr - addr) else w
        let aligned_end := u64 (aligned_addr + size)
        let mapping_end := u64 (addr + aligned_padded_size)
        let w := if aligned_end < mapping_end then w.munmap aligned_end (mapping_end - aligned_end)
          else w
        (aligned_addr, w)

/-- What is asked of a `MmapVma`: a number of pages, with an alignment that is a power of two. -/
structure Request (v : Vma) (size align : ℕ) : Prop where
  page : ∃ k, v.PAGE_SIZE = 2 ^ k
  page_lt : v.PAGE_SIZE < 2 ^ 31
  guard_lt : v.guard_pages_ < 2 ^ 32
  valid : 0 < v.base_
  limit_lt : v.limit_ < 2 ^ 64
  size_dvd : v.PAGE_SIZE ∣ size
  size_lt : size < 2 ^ 64
  align_pow : ∃ k, align = 2 ^ k
  page_le : v.PAGE_SIZE ≤ align
  align_lt : align < 2 ^ 64

/-- `mmap` puts a mapping at a page boundary in the lower half of the address space, where nothing
is mapped. -/
def MmapOk (v : Vma) (os : ℕ → Option ℕ) : Prop :=
  ∀ len, ∀ addr ∈ os len, 0 < len ∧ addr ≠ 0 ∧ v.PAGE_SIZE ∣ addr ∧ addr + len ≤ 2 ^ 63 ∧
    Disjoint v.pages (pagesOf v.PAGE_SIZE addr len)

/-- What `MmapVma::allocate_area_aligned` should do: the loop ends; the result is null and nothing
stays mapped, or it is aligned, with guard pages inside the mapping, in the aperture, and exactly
the area stays mapped. -/
def MmapAreaOk (v : Vma) (os : ℕ → Option ℕ) (address size align : ℕ) : Prop :=
  let r := v.mmapAllocateAreaAligned os address size align
  let grown := growAlign size 21 align
  ¬(grown < gpuHugePageSize ∧ 2 * grown ≤ size) ∧
    (r.1 = 0 ∧ r.2.pages = v.pages ∨
      ∃ addr ∈ os (v.paddedSize64 size grown), r.1 ≠ 0 ∧ grown ∣ r.1 ∧
        v.base_ ≤ r.1 ∧ (∀ x, r.1 ≤ x → x < r.1 + size → x ≤ v.limit_) ∧
          addr + v.guardSize ≤ r.1 ∧
            r.1 + size + v.guardSize ≤ addr + v.paddedSize64 size grown ∧
              r.2.pages = v.pages ∪ pagesOf v.PAGE_SIZE r.1 size)

/-! ### The alignment -/

/-- The loop over the alignment ends. -/
theorem growAlign_done (size count : ℕ) :
    ∀ {align : ℕ}, gpuHugePageSize ≤ 2 ^ count * align →
      ¬(growAlign size count align < gpuHugePageSize ∧ 2 * growAlign size count align ≤ size) := by
  induction count with
  | zero =>
    intro align h
    rw [growAlign]
    omega
  | succ count ih =>
    intro align h
    rw [growAlign]
    split
    · refine ih ?_
      rw [Nat.pow_succ] at h
      calc gpuHugePageSize ≤ 2 ^ count * 2 * align := h
        _ = 2 ^ count * (2 * align) := Nat.mul_assoc ..
    · assumption

/-- It makes the alignment no larger than it was, or than the size. -/
theorem growAlign_le (size count : ℕ) :
    ∀ align : ℕ, align ≤ growAlign size count align ∧
      (growAlign size count align = align ∨ growAlign size count align < 2 * gpuHugePageSize) := by
  induction count with
  | zero => exact fun _ => ⟨Nat.le_refl _, .inl rfl⟩
  | succ count ih =>
    intro align
    rw [growAlign]
    split
    · obtain ⟨hle, heq | hlt⟩ := ih (2 * align)
      · exact ⟨by omega, .inr (by omega)⟩
      · exact ⟨by omega, .inr hlt⟩
    · exact ⟨Nat.le_refl _, .inl rfl⟩

variable {v : Vma} {os : ℕ → Option ℕ} {addr size align : ℕ}

/-! ### Without wrap-around -/

/-- The aperture, with the alignment that is asked for. -/
def withAlign (v : Vma) (align : ℕ) : Vma := { v with align_ := align }

theorem Request.alignOk (h : v.Request size align) : (v.withAlign align).AlignOk := by
  obtain ⟨i, hi⟩ := h.page
  obtain ⟨k, hk⟩ := h.align_pow
  have hpos : 0 < v.PAGE_SIZE := hi ▸ Nat.two_pow_pos i
  refine ⟨hpos, Nat.lt_of_lt_of_le hpos h.page_le, ?_⟩
  change v.PAGE_SIZE ∣ align
  have hle := h.page_le
  rw [hi, hk] at hle ⊢
  exact Nat.pow_dvd_pow 2 ((Nat.pow_le_pow_iff_right Nat.one_lt_two).1 hle)

/-- What the sizes are. -/
theorem Request.bounds (h : v.Request size align) :
    v.guardSize < 2 ^ 63 ∧ v.PAGE_SIZE ≤ growAlign size 21 align ∧
      growAlign size 21 align < 2 ^ 64 := by
  have hguard : v.guardSize ≤ 2 ^ 32 * 2 ^ 31 := Nat.mul_le_mul h.guard_lt.le h.page_lt.le
  have hhuge : gpuHugePageSize = 2 ^ 21 := rfl
  obtain ⟨hle, hgrown⟩ := growAlign_le size 21 align
  have hpage := h.page_le
  have hlt := h.align_lt
  have hguard' : v.guardSize < 2 ^ 63 := by
    have hmul : v.guardSize < 2 ^ 32 * 2 ^ 31 :=
      Nat.mul_lt_mul'' h.guard_lt h.page_lt
    omega
  refine ⟨hguard', by omega, ?_⟩
  rcases hgrown with heq | hsmall <;> omega

/-- The padded size does not wrap. -/
theorem paddedSize64_eq (h : v.Request size align)
    (hfit : size + growAlign size 21 align + 2 * v.guardSize - v.PAGE_SIZE < 2 ^ 64) :
    v.paddedSize64 size (growAlign size 21 align) = (v.withAlign align).alignedPaddedSize size := by
  obtain ⟨-, hpage, -⟩ := h.bounds
  have hlt := h.page_lt
  have hpadded : (v.withAlign align).alignedPaddedSize size =
      size + growAlign size 21 align + 2 * v.guardSize - v.PAGE_SIZE := rfl
  rw [hpadded, paddedSize64, sub64_u64 (by omega) (by omega), u64_of_lt hfit]

/-- The aperture after `mmap`. -/
def mapped (v : Vma) (addr len : ℕ) : Vma :=
  { v with pages := v.pages ∪ pagesOf v.PAGE_SIZE addr len }

/-- `munmap` reads the pages only. -/
theorem munmap_pages_congr {v w : Vma} (hpage : v.PAGE_SIZE = w.PAGE_SIZE) (h : v.pages = w.pages)
    (addr len : ℕ) : (v.munmap addr len).pages = (w.munmap addr len).pages := by
  rw [munmap, munmap, hpage]
  split
  · exact congrArg (· \ _) h
  · exact h

theorem munmap_if_congr {v w : Vma} (hpage : v.PAGE_SIZE = w.PAGE_SIZE) (h : v.pages = w.pages)
    (a b : ℕ) : (if a < b then v.munmap a (b - a) else v).PAGE_SIZE =
      (if a < b then w.munmap a (b - a) else w).PAGE_SIZE ∧
    (if a < b then v.munmap a (b - a) else v).pages =
      (if a < b then w.munmap a (b - a) else w).pages := by
  split
  · exact ⟨by rw [munmap_PAGE_SIZE, munmap_PAGE_SIZE, hpage], munmap_pages_congr hpage h a (b - a)⟩
  · exact ⟨hpage, h⟩

/-- **Without wrap-around** an area is what `mmapArea` gives. -/
theorem mmapAllocateAreaAligned_eq (h : v.Request size align) (hos : v.MmapOk os)
    (hfit : size + growAlign size 21 align + 2 * v.guardSize - v.PAGE_SIZE < 2 ^ 64) (address : ℕ) :
    (v.mmapAllocateAreaAligned os address size align).1 = ((v.withAlign align).mmapArea
        (os (v.paddedSize64 size (growAlign size 21 align))) address size).1 ∧
      (v.mmapAllocateAreaAligned os address size align).2.pages = ((v.withAlign align).mmapArea
        (os (v.paddedSize64 size (growAlign size 21 align))) address size).2.pages := by
  obtain ⟨hguard, hpage, hgrown⟩ := h.bounds
  unfold mmapAllocateAreaAligned mmapArea
  by_cases haddress : address ≠ 0
  · rw [if_pos haddress, if_pos haddress]
    exact ⟨rfl, rfl⟩
  rw [if_neg haddress, if_neg haddress]
  by_cases hcpu : (!v.is_cpu_accessible_) = true
  · rw [if_pos hcpu, if_pos (show (!(v.withAlign align).is_cpu_accessible_) = true from hcpu)]
    exact ⟨rfl, rfl⟩
  rw [if_neg hcpu, if_neg (show ¬(!(v.withAlign align).is_cpu_accessible_) = true from hcpu)]
  dsimp only
  cases hmap : os (v.paddedSize64 size (growAlign size 21 align)) with
  | none => exact ⟨rfl, rfl⟩
  | some addr =>
    dsimp only
    obtain ⟨hlen, hne, hdvd, hend, -⟩ := hos _ addr hmap
    rw [paddedSize64_eq h hfit] at hlen hend ⊢
    have hpadded : (v.withAlign align).alignedPaddedSize size =
        size + growAlign size 21 align + 2 * v.guardSize - v.PAGE_SIZE := rfl
    obtain ⟨hal, hge, hle, -⟩ :=
      h.alignOk.layout (show (v.withAlign align).PAGE_SIZE ∣ addr from hdvd)
      size
    have hguard' : (v.withAlign align).guard_pages_ * (v.withAlign align).PAGE_SIZE =
        v.guardSize := rfl
    have hlt := h.page_lt
    rw [hguard'] at hge hle
    have haligned : alignUp64 (u64 (addr + v.guardSize)) (growAlign size 21 align) =
        (v.withAlign align).alignedAddr addr size := by
      have hinner : u64 (addr + v.guardSize) = addr + v.guardSize := u64_of_lt (by omega)
      rw [alignUp64, hinner, u64_of_lt (by omega)]
      rfl
    rw [haligned, trim]
    dsimp only
    generalize (v.withAlign align).alignedAddr addr size = p at hal hge hle ⊢
    have hrange : v.OutOfRange p size ↔ p < (v.withAlign align).base_ ∨
        (v.withAlign align).limit_ < p + size - 1 := by
      rw [OutOfRange]
      refine or_congr Iff.rfl ?_
      rcases Nat.eq_zero_or_pos size with rfl | hpos
      · have hsub : u64 (p + sub64 0 1) = p + 0 - 1 := by
          unfold sub64 u64 wrap
          omega
        rw [hsub]
        rfl
      · rw [sub64_of_le hpos h.size_lt, u64_of_lt (by omega), Nat.add_sub_assoc hpos]
        rfl
    by_cases hout : v.OutOfRange p size
    · rw [if_pos hout, if_pos (hrange.1 hout)]
      exact ⟨rfl, munmap_pages_congr (v := v.mapped addr _) (w := (v.withAlign align).mapped addr _)
        rfl rfl addr _⟩
    · rw [if_neg hout, if_neg (fun hcon => hout (hrange.2 hcon)), u64_of_lt (by omega),
        u64_of_lt (by omega)]
      obtain ⟨hpage₁, hpages₁⟩ := munmap_if_congr
        (v := v.mapped addr ((v.withAlign align).alignedPaddedSize size))
        (w := (v.withAlign align).mapped addr ((v.withAlign align).alignedPaddedSize size))
        rfl rfl addr p
      exact ⟨rfl, (munmap_if_congr hpage₁ hpages₁ _ _).2⟩

/-! ### When the area is right -/

/-- What is mapped and unmapped again leaves the pages as they were. -/
theorem pages_munmap_mapped {len : ℕ} (hp : 0 < v.PAGE_SIZE) (hd : v.PAGE_SIZE ∣ addr)
    (hnew : Disjoint v.pages (pagesOf v.PAGE_SIZE addr len)) :
    ((v.mapped addr len).munmap addr len).pages = v.pages := by
  ext x
  rw [mem_pages_munmap (v := v.mapped addr len) hp hd x len, mapped, Finset.mem_union,
    mem_pagesOf hp hd]
  have hout : x ∈ v.pages → ¬(addr ≤ x * v.PAGE_SIZE ∧ x * v.PAGE_SIZE < addr + len) :=
    fun hx hin => Finset.disjoint_left.1 hnew hx ((mem_pagesOf hp hd).2 hin)
  tauto

/-- The loop over the alignment ends. -/
theorem Request.done (h : v.Request size align) :
    ¬(growAlign size 21 align < gpuHugePageSize ∧ 2 * growAlign size 21 align ≤ size) := by
  have hpos := h.alignOk.align_pos
  refine growAlign_done size 21 ?_
  exact Nat.le_mul_of_pos_right _ hpos

/-- **Without wrap-around an area is right.** -/
theorem Request.area_of_fits (h : v.Request size align) (hos : v.MmapOk os)
    (hfit : size + growAlign size 21 align + 2 * v.guardSize - v.PAGE_SIZE < 2 ^ 64) (address : ℕ) :
    v.MmapAreaOk os address size align := by
  have hp : 0 < v.PAGE_SIZE := h.alignOk.page_pos
  obtain ⟨hfst, hpages⟩ := mmapAllocateAreaAligned_eq h hos hfit address
  refine ⟨h.done, ?_⟩
  rw [hfst, hpages]
  unfold mmapArea
  by_cases haddress : address ≠ 0
  · rw [if_pos haddress]
    exact .inl ⟨rfl, rfl⟩
  rw [if_neg haddress]
  by_cases hcpu : (!(v.withAlign align).is_cpu_accessible_) = true
  · rw [if_pos hcpu]
    exact .inl ⟨rfl, rfl⟩
  rw [if_neg hcpu]
  cases hmap : os (v.paddedSize64 size (growAlign size 21 align)) with
  | none => exact .inl ⟨rfl, rfl⟩
  | some addr =>
    dsimp only
    obtain ⟨hlen, hne, hdvd, hend, hnew⟩ := hos _ addr hmap
    rw [paddedSize64_eq h hfit] at hend hnew ⊢
    obtain ⟨hal, hge, hle, -⟩ :=
      h.alignOk.layout (show (v.withAlign align).PAGE_SIZE ∣ addr from hdvd)
      size
    have hrange : (v.withAlign align).base_ ≤ (v.withAlign align).alignedAddr addr size ∧
        (v.withAlign align).alignedAddr addr size + size - 1 ≤ (v.withAlign align).limit_ ∨
          ((v.withAlign align).trim addr size).1 = 0 := by
      by_cases hout : (v.withAlign align).alignedAddr addr size < (v.withAlign align).base_ ∨
          (v.withAlign align).limit_ < (v.withAlign align).alignedAddr addr size + size - 1
      · refine .inr ?_
        rw [trim]
        dsimp only
        rw [if_pos hout]
      · exact .inl (by omega)
    rcases h.alignOk.mem_trim (show (v.withAlign align).PAGE_SIZE ∣ addr from hdvd) hnew with
      hnull | ⟨hres, hmem⟩
    · exact .inl hnull
    rw [hres] at hrange ⊢
    obtain ⟨hlo, hhi⟩ := hrange.resolve_right (by omega)
    refine .inr ⟨addr, rfl, by omega, ?_, hlo, fun x hx hx' => ?_, hge, hle, Finset.ext fun x => ?_⟩
    · exact (alignUp_ok (Nat.lt_of_lt_of_le hp h.bounds.2.1)).1
    · have : x ≤ (v.withAlign align).limit_ := by omega
      exact this
    · rw [hmem, if_pos (show (v.withAlign align).PAGE_SIZE ∣ size from h.size_dvd),
        Finset.mem_union,
        mem_pagesOf hp hal]
      rfl

/-- **`MmapVma::allocate_area_aligned` is right** unless the padded size wraps, `mmap` still gives
something, and the address passes the range check. -/
theorem mmap_area_ok_iff (h : v.Request size align) (hos : v.MmapOk os) (address : ℕ) :
    v.MmapAreaOk os address size align ↔
      (2 ^ 64 ≤ size + growAlign size 21 align + 2 * v.guardSize - v.PAGE_SIZE → address = 0 →
        v.is_cpu_accessible_ = true →
          ∀ addr ∈ os (v.paddedSize64 size (growAlign size 21 align)),
            v.OutOfRange (alignUp64 (u64 (addr + v.guardSize)) (growAlign size 21 align))
              size) := by
  have hp : 0 < v.PAGE_SIZE := h.alignOk.page_pos
  obtain ⟨-, hpage, hgrown⟩ := h.bounds
  have hlt := h.page_lt
  constructor
  · rintro ⟨-, hok⟩ hwrap rfl hcpu addr hmap
    by_contra hin
    have hrun : (v.mmapAllocateAreaAligned os 0 size align).1 =
        alignUp64 (u64 (addr + v.guardSize)) (growAlign size 21 align) := by
      unfold mmapAllocateAreaAligned
      rw [if_neg (by decide), hcpu, if_neg (by decide)]
      dsimp only
      rw [show os (v.paddedSize64 size (growAlign size 21 align)) = some addr from hmap]
      dsimp only
      rw [if_neg hin]
    have hvalid := h.valid
    have hbase := not_or.1 hin
    rw [hrun] at hok
    obtain ⟨hzero, -⟩ | ⟨addr', hmap', -, -, -, -, hge, hle, -⟩ := hok
    · omega
    · obtain rfl := Option.some.inj ((show os _ = some addr from hmap).symm.trans hmap')
      -- the mapping is shorter than the area
      rw [paddedSize64, sub64_u64 (by omega) (by omega)] at hle
      have hshort := u64_le_sub hwrap
      omega
  · intro hcond
    by_cases hfit : size + growAlign size 21 align + 2 * v.guardSize - v.PAGE_SIZE < 2 ^ 64
    · exact h.area_of_fits hos hfit address
    · refine ⟨h.done, .inl ?_⟩
      unfold mmapAllocateAreaAligned
      by_cases haddress : address ≠ 0
      · rw [if_pos haddress]
        exact ⟨rfl, rfl⟩
      rw [if_neg haddress]
      by_cases hcpu : (!v.is_cpu_accessible_) = true
      · rw [if_pos hcpu]
        exact ⟨rfl, rfl⟩
      rw [if_neg hcpu]
      dsimp only
      cases hmap : os (v.paddedSize64 size (growAlign size 21 align)) with
      | none => exact ⟨rfl, rfl⟩
      | some addr =>
        dsimp only
        obtain ⟨-, -, hdvd, -, hnew⟩ := hos _ addr hmap
        rw [if_pos (hcond (by omega) (by omega) (by simpa using hcpu) addr hmap)]
        exact ⟨rfl, pages_munmap_mapped hp hdvd hnew⟩

/-- An aperture of the lower half of the address space, with pages of 4 KB and one guard page. -/
def lowerHalf : Vma :=
  { cls := .mmap, base_ := 4096, limit_ := 2 ^ 47 - 1, align_ := 4096, is_cpu_accessible_ := true
    PAGE_SIZE := 4096, PAGE_SHIFT := 12 }

/-- `mmap` answers with the same address each time, if the mapping ends in the lower half. -/
def mmapAt (addr len : ℕ) : Option ℕ := if 0 < len ∧ addr + len ≤ 2 ^ 47 then some addr else none

theorem lowerHalf_mmapOk : lowerHalf.MmapOk (mmapAt (2 ^ 30)) := by
  intro len addr hmap
  rw [Option.mem_def, mmapAt] at hmap
  split at hmap
  · obtain rfl := Option.some.inj hmap
    exact ⟨by omega, by decide, by decide, by omega, Finset.disjoint_empty_left _⟩
  · cases hmap

theorem lowerHalf_request {size : ℕ} (hdvd : 4096 ∣ size) (hlt : size < 2 ^ 64) :
    lowerHalf.Request size 4096 :=
  ⟨⟨12, rfl⟩, by decide, by decide, by decide, by decide, hdvd, hlt, ⟨12, rfl⟩, by decide,
    by decide⟩

/-- An area of three pages. -/
theorem mmap_area_ok_iff_three_pages : lowerHalf.MmapAreaOk (mmapAt (2 ^ 30)) 0 12288 4096 ↔
    (2 ^ 64 ≤ 12288 + growAlign 12288 21 4096 + 2 * lowerHalf.guardSize - lowerHalf.PAGE_SIZE →
      0 = 0 → lowerHalf.is_cpu_accessible_ = true →
        ∀ addr ∈ mmapAt (2 ^ 30) (lowerHalf.paddedSize64 12288 (growAlign 12288 21 4096)),
          lowerHalf.OutOfRange (alignUp64 (u64 (addr + lowerHalf.guardSize))
            (growAlign 12288 21 4096)) 12288) :=
  mmap_area_ok_iff (lowerHalf_request (by decide) (by decide)) lowerHalf_mmapOk 0

/-- **The last page of the address space as a size**: `mmap` is asked for a few pages, and an
address behind them is returned. -/
theorem huge_size_not_mapped : lowerHalf.Request (2 ^ 64 - 2 ^ 21) 4096 ∧
    lowerHalf.MmapOk (mmapAt (2 ^ 30)) ∧
      ¬lowerHalf.MmapAreaOk (mmapAt (2 ^ 30)) 0 (2 ^ 64 - 2 ^ 21) 4096 := by
  refine ⟨lowerHalf_request (by decide) (by decide), lowerHalf_mmapOk, ?_⟩
  have hpadded : lowerHalf.paddedSize64 (2 ^ 64 - 2 ^ 21) (growAlign (2 ^ 64 - 2 ^ 21) 21 4096) =
      4096 := by
    decide +kernel
  have hres : (lowerHalf.mmapAllocateAreaAligned (mmapAt (2 ^ 30)) 0 (2 ^ 64 - 2 ^ 21) 4096).1 =
      2 ^ 30 + 2 ^ 21 := by
    decide +kernel
  rintro ⟨-, ⟨hzero, -⟩ | ⟨addr, hmap, -, -, -, -, -, hle, -⟩⟩
  · rw [hres] at hzero
    exact absurd hzero (by decide)
  · rw [hres, hpadded] at hle
    rw [hpadded] at hmap
    have haddr : 2 ^ 30 = addr := Option.some.inj hmap
    omega

end Vma

end Codrive.Aperture
