/-
# What the apertures of shared virtual memory become

The two apertures that `init_svm_apertures` makes of a range (`splitRange_spec`), and when the whole
of what it promises is kept: only in a call that reserves no range and takes none over
(`init_svm_apertures_iff`).
-/

import Codrive.Aperture.SvmAperturesSpec

namespace Codrive.Aperture.Reserve

open Codrive.Basis Codrive.Device

variable {ndebug : Bool} {m t : MemMgr} {p size limit align guard_pages : ℕ}

/-! ### The two apertures of a range -/

/-- The next multiple of 64 KB. -/
def up64 (x : ℕ) : ℕ := (x + 0xffff) / 2 ^ 16 * 2 ^ 16

/-- A range and its limit, as the search finds them. -/
structure Usable (p size limit : ℕ) : Prop where
  pos : p ≠ 0
  fits : p + size ≤ 2 ^ 63
  large : svmMinVmSize ≤ size
  below : p + svmMinVmSize ≤ limit + 1
  limit_le : limit ≤ svmReservationLimit

/-- The coherent aperture is the first quarter of the range up to the limit, the default aperture is
the rest, and their allocators were made with the limit for a length. -/
structure Split (t : MemMgr) (p size limit align : ℕ) : Prop where
  reserved : t.reserved = [(p, min (p + size) (limit + 1) - p)]
  coherent_base : t.coherent.base_ = up64 p
  coherent_limit : t.coherent.limit_ + 1 = t.default.base_
  default_base : t.default.base_ = up64 p + up64 ((min (p + size) (limit + 1) - p) / 4)
  default_limit : t.default.limit_ + 1 = min (p + size) (limit + 1)
  align : ∀ v ∈ t.apertures, v.align_ = align
  allocator : ∀ v ∈ t.apertures, v.allocator_ = some (Allocator.create v.base_ v.limit_)

theorem init_allocator_eq {v : Vma} (hpos : v.base_ ≠ 0) (h : v.base_ + v.limit_ < guardKey) :
    init_allocator ndebug v =
      some { v with allocator_ := some (Allocator.create v.base_ v.limit_) } := by
  have hg : guardKey = 2 ^ 64 - 1 := rfl
  have hok : poolBoundsOk v.base_ v.limit_ = true := by
    rw [poolBoundsOk, u64_of_lt (by omega)]
    simp only [Bool.and_eq_true, decide_eq_true_eq, ne_eq]
    omega
  rw [init_allocator, assert_of_true hok]
  rfl

variable (ndebug m align guard_pages) in
/-- **The two apertures** that are made of a range. -/
theorem splitRange_spec (h : Usable p size limit) :
    ∃ t, splitRange ndebug m p size limit align guard_pages [(p, size)] = some (.success, t) ∧
      Split t p size limit align := by
  obtain ⟨hpos, hfits, hlarge, hbelow, hlimit⟩ := h
  have hmin : svmMinVmSize = 2 ^ 32 := rfl
  have hg : guardKey = 2 ^ 64 - 1 := rfl
  rw [show svmReservationLimit = 2 ^ 40 - 1 from rfl] at hlimit
  have hlast : sub64 (u64 (p + size)) 1 = p + size - 1 := by
    rw [u64_of_lt (by omega), sub64_of_le (by omega) (by omega)]
  have hcut : (if limit < p + size - 1 then
      Ranges.munmap [(p, size)] (u64 (limit + 1)) (sub64 (p + size - 1) limit)
      else [(p, size)]) = [(p, min (p + size) (limit + 1) - p)] := by
    by_cases hlt : limit < p + size - 1
    · rw [if_pos hlt, u64_of_lt (by omega), sub64_of_le (by omega) (by omega), Ranges.munmap]
      have hleft : min size (limit + 1 - p) = min (p + size) (limit + 1) - p := by omega
      have hright : p + size - max p (limit + 1 + (p + size - 1 - limit)) = 0 := by omega
      have hpos' : 0 < min (p + size) (limit + 1) - p := by omega
      simp only [List.flatMap_cons, List.flatMap_nil, List.append_nil, hleft, hright]
      simp [hpos']
    · rw [if_neg hlt, show min (p + size) (limit + 1) - p = size by omega]
  have htop : (if limit < p + size - 1 then limit else p + size - 1) =
      min (p + size) (limit + 1) - 1 := by
    split <;> omega
  obtain ⟨stop, hstop⟩ : ∃ stop, stop = min (p + size) (limit + 1) := ⟨_, rfl⟩
  have hbase : u64 (p + 0xffff) / 2 ^ 16 * 2 ^ 16 = up64 p := by
    rw [u64_of_lt (by omega), up64]
  have hquarter : u64 (u64 (sub64 (stop - 1) p + 1) / 4 + 0xffff) / 2 ^ 16 * 2 ^ 16 =
      up64 ((stop - p) / 4) := by
    rw [sub64_of_le (by omega) (by omega), u64_of_lt (by omega : stop - 1 - p + 1 < 2 ^ 64),
      show stop - 1 - p + 1 = stop - p by omega, u64_of_lt (by omega), up64]
  have hup : ∀ x, x ≤ up64 x ∧ up64 x < x + 2 ^ 16 := fun x => by
    rw [up64]
    omega
  have hb := hup p
  have hq := hup ((stop - p) / 4)
  have hend : sub64 (u64 (up64 p + up64 ((stop - p) / 4))) 1 =
      up64 p + up64 ((stop - p) / 4) - 1 := by
    rw [u64_of_lt (by omega), sub64_of_le (by omega) (by omega)]
  have hfrom : u64 (up64 p + up64 ((stop - p) / 4) - 1 + 1) = up64 p + up64 ((stop - p) / 4) := by
    rw [u64_of_lt (by omega)]
    omega
  let d : Vma := { m.default with
    base_ := up64 p + up64 ((stop - p) / 4), limit_ := stop - 1, align_ := align,
    guard_pages_ := guard_pages, is_cpu_accessible_ := true }
  let c : Vma := { m.coherent with
    base_ := up64 p, limit_ := up64 p + up64 ((stop - p) / 4) - 1, align_ := align,
    guard_pages_ := guard_pages, is_cpu_accessible_ := true }
  refine ⟨{ m with
    default := { d with allocator_ := some (Allocator.create d.base_ d.limit_) },
    coherent := { c with allocator_ := some (Allocator.create c.base_ c.limit_) },
    reserved := [(p, stop - p)],
    dgpu_shared_aperture_base_ := p, dgpu_shared_aperture_limit_ := stop - 1,
    dgpu_aperture := some .default, dgpu_alt_aperture := some .coherent }, ?_, ?_⟩
  · rw [splitRange]
    dsimp only
    rw [hlast, hcut, htop, ← hstop, hbase, hquarter, hend, hfrom,
      init_allocator_eq (by dsimp only; omega) (by dsimp only; omega), Option.bind_eq_bind,
      Option.bind_some, init_allocator_eq (by dsimp only; omega) (by dsimp only; omega),
      Option.bind_some]
    rfl
  · constructor
    · exact congrArg (fun e => [(p, e - p)]) hstop
    · rfl
    · change up64 p + up64 ((stop - p) / 4) - 1 + 1 = up64 p + up64 ((stop - p) / 4)
      omega
    · exact congrArg (fun e => up64 p + up64 ((e - p) / 4)) hstop
    · change stop - 1 + 1 = min (p + size) (limit + 1)
      omega
    · intro v hv
      simp only [MemMgr.apertures, List.mem_cons, List.not_mem_nil, or_false] at hv
      rcases hv with rfl | rfl <;> rfl
    · intro v hv
      simp only [MemMgr.apertures, List.mem_cons, List.not_mem_nil, or_false] at hv
      rcases hv with rfl | rfl <;> rfl

/-! ### Where they are, and what their allocators hand out -/

variable (ndebug) in
/-- A new allocator hands out as much as it has. -/
theorem exists_alloc_create {pool length : ℕ} (bytes : ℕ) (h₀ : pool ≠ 0)
    (h : pool + length < guardKey) (hpos : 0 < bytes) (hle : bytes ≤ length) :
    ∃ q s, Arena.Step ndebug ⟨Allocator.create pool length, []⟩ (.alloc 0 bytes false) s ∧
      (q, bytes) ∈ s.live := by
  have he := Allocator.entries_create length h₀ (by omega : pool < guardKey)
  rcases Allocator.alloc_inv ndebug (Arena.inv_create h₀ h).inv 0 bytes false with
    hr | ⟨q, a, hr, -⟩
  · exfalso
    have hfp : (Allocator.create pool length).memory.find? pool =
        some { len := length, next := some guardKey, prior := some 0 } :=
      OrderedMap.find?_of_entries (A := [_]) he
    have hstart : (Allocator.create pool length).allocStart 0 false = some (some pool) := by
      have hfz := OrderedMap.find?_of_entries (A := []) he
      have hfirst : (Allocator.create pool length).memory.first? = some 0 := by
        rw [first?_eq, he]
        rfl
      simp [Allocator.allocStart, hfirst, hfz]
    have hfit : firstFit ndebug (Allocator.create pool length).memory bytes 3 pool =
        some (some pool) := by
      simp [firstFit, hfp, islastfree, hle]
    have hcount : (Allocator.create pool length).memory.entries.length = 3 := by
      rw [he]
      rfl
    have hsize : ¬bytes > (Allocator.create pool length).total_free := Nat.not_lt.2 hle
    have hne : bytes ≠ 0 := by omega
    simp only [Allocator.alloc, hsize, hne, decide_false, Bool.or_self, hstart, hcount, hfit,
      Option.bind_eq_bind, Option.bind_some, Option.pure_def, Bool.false_eq_true, if_false] at hr
    cases ht : takeLow ndebug (Allocator.create pool length).memory pool bytes with
    | none => simp [ht] at hr
    | some m => simp [ht] at hr
  · exact ⟨q, ⟨a, [(q, bytes)]⟩, ⟨trivial, by simp [Arena.call, hr]⟩, List.mem_cons_self⟩

/-- **An allocator that takes the limit for its length hands out areas that lie outside.** -/
theorem not_inside {v : Vma} (ha : v.allocator_ = some (Allocator.create v.base_ v.limit_))
    (h₂ : 2 ≤ v.base_) (hle : v.base_ ≤ v.limit_) (h : v.base_ + v.limit_ < guardKey) :
    ¬Inside v := by
  intro hinside
  obtain ⟨q, s, hstep, hq⟩ := exists_alloc_create false (v.limit_ - v.base_ + 2)
    (by omega : v.base_ ≠ 0) h (by omega) (by omega)
  obtain ⟨hbase, hend⟩ := hinside _ ha false _ _ (.cons hstep (.nil s)) _ hq
  dsimp only at hbase hend
  omega

/-- The allocator manages addresses past the end of the aperture. -/
theorem not_manages {v : Vma} (ha : v.allocator_ = some (Allocator.create v.base_ v.limit_))
    (h : v.base_ ≠ 1) : ¬Manages v := by
  rintro ⟨a, hva, -, hend⟩
  cases Option.some.inj (ha.symm.trans hva)
  rw [Allocator.create] at hend
  dsimp only at hend
  omega

/-- **Both apertures of a range can be left.** -/
theorem Split.not_managed (h : Split t p size limit align) (hu : Usable p size limit) :
    ∀ v ∈ t.apertures, ¬Manages v ∧ ¬Inside v := by
  obtain ⟨-, hcbase, hclimit, hdbase, hdlimit, -, halloc⟩ := h
  obtain ⟨hpos, hfits, hlarge, hbelow, hle⟩ := hu
  have hmin : svmMinVmSize = 2 ^ 32 := rfl
  have hg : guardKey = 2 ^ 64 - 1 := rfl
  rw [show svmReservationLimit = 2 ^ 40 - 1 from rfl] at hle
  obtain ⟨stop, hstop⟩ : ∃ stop, stop = min (p + size) (limit + 1) := ⟨_, rfl⟩
  rw [← hstop] at hdbase hdlimit
  have hup : ∀ x, x ≤ up64 x ∧ up64 x < x + 2 ^ 16 ∧ up64 x ≠ 1 := fun x => by
    rw [up64]
    omega
  have hb := hup p
  have hq := hup ((stop - p) / 4)
  intro v hv
  have ha := halloc v hv
  simp only [MemMgr.apertures, List.mem_cons, List.not_mem_nil, or_false] at hv
  rcases hv with rfl | rfl
  · exact ⟨not_manages ha (by omega), not_inside ha (by omega) (by omega) (by omega)⟩
  · exact ⟨not_manages ha (by omega), not_inside ha (by omega) (by omega) (by omega)⟩

theorem Split.not_laidOut (h : Split t p size limit align) (hu : Usable p size limit)
    (base limit' : ℕ) : ¬LaidOut t base limit' align := fun hlaid =>
  (h.not_managed hu t.default (by simp [MemMgr.apertures])).1
    (hlaid.manages t.default (by simp [MemMgr.apertures]))

/-! ### A range that is reserved -/

variable {os : ℕ → ℕ → ℕ → Option ℕ} {osPage : Option ℕ} {base fuel : ℕ}

/-- What the search finds can be split. -/
theorem Found.usable (hos : OsOk m os) (hlimit : limit ≤ svmReservationLimit)
    (h : Found m os base limit p size) : Usable p size limit := by
  obtain ⟨k, -, ⟨j, -, -, hlarge, hans, -⟩, hbelow, -⟩ := h
  obtain ⟨hpos, -, hfits⟩ := hos _ _ _ p hans
  exact ⟨hpos, hfits, hlarge, hbelow, hlimit⟩

/-- The limit up to which a range is reserved. -/
def topOf (limit : ℕ) : ℕ := min (alignLimit gpuHugePageSize limit) svmReservationLimit

/-- No range can be reserved: there is nothing between the base and the limit, or `mmap` gives none
that the search takes. -/
def NoRange (m : MemMgr) (os : ℕ → ℕ → ℕ → Option ℕ) (base limit : ℕ) : Prop :=
  topOf limit ≤ alignBase gpuHugePageSize base ∨
    ∀ p size, ¬Found m os (alignBase gpuHugePageSize base) (topOf limit) p size

/-- **With a range to reserve**, the call fails or leaves the two apertures of what it found. -/
theorem initReserved_spec (h : m.Ok) (hos : OsOk m os) {status : Status}
    (hr : initReserved ndebug fuel os m (alignBase gpuHugePageSize base)
      (alignLimit gpuHugePageSize limit) align guard_pages = some (status, t)) :
    status = .error ∧ NoRange m os base limit ∨
      status = .success ∧ ¬NoRange m os base limit ∧ ∃ p size,
        Found m os (alignBase gpuHugePageSize base) (topOf limit) p size ∧
          Usable p size (topOf limit) ∧ Split t p size (topOf limit) align := by
  have hle : topOf limit ≤ svmReservationLimit := Nat.min_le_right ..
  rw [initReserved, ← topOf] at hr
  by_cases hnone : topOf limit ≤ alignBase gpuHugePageSize base
  · rw [if_pos hnone] at hr
    cases hr
    exact .inl ⟨rfl, .inl hnone⟩
  · rw [if_neg hnone, Option.bind_eq_bind, Option.bind_eq_some_iff] at hr
    obtain ⟨⟨_ | ⟨p, size⟩, reserved⟩, hsearch, hr⟩ := hr
    · obtain ⟨-, hnot⟩ := reserveRange_spec h hos hle (Nat.le_of_not_le hnone) hsearch
      cases hr
      exact .inl ⟨rfl, .inr hnot⟩
    · obtain ⟨rfl, hfound⟩ := reserveRange_spec h hos hle (Nat.le_of_not_le hnone) hsearch
      obtain ⟨t', ht', hsplit⟩ := splitRange_spec ndebug m align guard_pages
        (hfound.usable hos hle)
      cases (ht'.symm.trans hr)
      refine .inr ⟨rfl, ?_, p, size, hfound, hfound.usable hos hle, hsplit⟩
      rintro (hle' | hnot)
      · exact hnone hle'
      · exact hnot p size hfound

/-- With a range to reserve, the call returns. -/
theorem initReserved_isSome (h : m.Ok) (hos : OsOk m os) (hfuel : 2 ^ 41 < fuel) :
    (initReserved ndebug fuel os m (alignBase gpuHugePageSize base)
      (alignLimit gpuHugePageSize limit) align guard_pages).isSome = true := by
  have hle : topOf limit ≤ svmReservationLimit := Nat.min_le_right ..
  rw [initReserved, ← topOf]
  by_cases hnone : topOf limit ≤ alignBase gpuHugePageSize base
  · rw [if_pos hnone]
    rfl
  · obtain ⟨⟨_ | ⟨p, size⟩, reserved⟩, hsearch⟩ := Option.isSome_iff_exists.1
      (reserveRange_isSome h hos hle (Nat.le_of_not_le hnone) hfuel)
    · rw [if_neg hnone, hsearch]
      rfl
    · obtain ⟨rfl, hfound⟩ := reserveRange_spec h hos hle (Nat.le_of_not_le hnone) hsearch
      obtain ⟨t, ht, -⟩ := splitRange_spec ndebug m align guard_pages
        (hfound.usable hos hle)
      rw [if_neg hnone, hsearch, Option.bind_eq_bind, Option.bind_some]
      dsimp only
      rw [ht]
      rfl

/-! ### Apertures that are not reserved -/

/-- The default aperture, as `init_mmap_apertures` sets it up. -/
def mmapAperture (m : MemMgr) (base limit align guard_pages : ℕ) : Vma :=
  { m.default with
    base_ := base, limit_ := limit, align_ := align, guard_pages_ := guard_pages,
    is_cpu_accessible_ := true, allocator_ := some (Allocator.create base limit) }

/-- The GPUs reach all addresses, and the alignment is not more than a page. -/
def Unreserved (m : MemMgr) (limit align : ℕ) : Prop :=
  2 ^ 47 - 1 ≤ alignLimit gpuHugePageSize limit ∧ m.reserve_svm = false ∧ align ≤ m.PAGE_SIZE

theorem munmap_eq (v : Vma) (addr len : ℕ) : ∃ pages, v.munmap addr len = { v with pages } := by
  rw [Vma.munmap]
  split
  · exact ⟨_, rfl⟩
  · exact ⟨v.pages, rfl⟩

/-- `mmap` changes what is mapped, and nothing else of the aperture. -/
theorem mmapArea_eq (osPage : Option ℕ) (v : Vma) (address size : ℕ) :
    ∃ pages, (v.mmapArea osPage address size).2 = { v with pages } := by
  unfold Vma.mmapArea
  split
  · exact ⟨v.pages, rfl⟩
  split
  · exact ⟨v.pages, rfl⟩
  cases osPage with
  | none => exact ⟨v.pages, rfl⟩
  | some addr =>
    dsimp only
    rw [Vma.trim]
    dsimp only
    split
    · exact munmap_eq ..
    · dsimp only
      split <;> split
      · generalize pagesOf v.PAGE_SIZE addr (v.alignedPaddedSize size) = taken
        obtain ⟨pages, h⟩ := munmap_eq { v with pages := v.pages ∪ taken } addr
          (v.alignedAddr addr size - addr)
        rw [h]
        exact munmap_eq ..
      · exact munmap_eq ..
      · exact munmap_eq ..
      · exact ⟨_, rfl⟩

/-- A null allocator fails its assertion. -/
theorem init_allocator_null {v : Vma} (h : v.base_ = 0) : init_allocator false v = none := by
  rw [init_allocator, poolBoundsOk, h]
  rfl

/-- Without assertions, every allocator is made. -/
theorem init_allocator_ndebug (v : Vma) :
    init_allocator true v =
      some { v with allocator_ := some (Allocator.create v.base_ v.limit_) } := rfl

/-- **Without a reservation** the call aborts, unless the build compiles assertions out and the
alignment is not 0; then it succeeds if it gets its page. -/
theorem init_mmap_apertures_spec (ndebug : Bool) (osPage : Option ℕ)
    (base limit align guard_pages : ℕ) (h : m.Ok) :
    (m.PAGE_SIZE < align ∧
        init_mmap_apertures ndebug osPage m base limit align guard_pages = some (.error, m)) ∨
      align ≤ m.PAGE_SIZE ∧ (ndebug = false ∨ align = 0) ∧
        init_mmap_apertures ndebug osPage m base limit align guard_pages = none ∨
      align ≤ m.PAGE_SIZE ∧ ndebug = true ∧ 0 < align ∧ ∃ status t,
        init_mmap_apertures ndebug osPage m base limit align guard_pages = some (status, t) ∧
          (status = .error ↔
            ((mmapAperture m base limit align guard_pages).mmapArea osPage 0 m.PAGE_SIZE).1 = 0) ∧
          t.Ok ∧ t.PAGE_SIZE = m.PAGE_SIZE ∧ t.default.base_ = base ∧
          t.default.allocator_ =
            some (Allocator.create t.default.base_ t.default.limit_) := by
  by_cases halign : m.PAGE_SIZE < align
  · refine .inl ⟨halign, ?_⟩
    rw [init_mmap_apertures, if_pos halign]
    rfl
  refine .inr ?_
  cases ndebug with
  | false =>
    refine .inl ⟨Nat.le_of_not_lt halign, .inl rfl, ?_⟩
    rw [init_mmap_apertures, if_neg halign, Option.bind_eq_bind, Option.bind_eq_none_iff]
    intro d _
    rw [init_allocator_null rfl]
    rfl
  | true =>
    rw [init_mmap_apertures, if_neg halign, init_allocator_ndebug, init_allocator_ndebug,
      Option.bind_eq_bind, Option.bind_some, Option.bind_eq_bind, Option.bind_some]
    by_cases hzero : align = 0
    · refine .inl ⟨Nat.le_of_not_lt halign, .inr hzero, ?_⟩
      rw [if_pos hzero]
      rfl
    · refine .inr ⟨Nat.le_of_not_lt halign, rfl, Nat.pos_of_ne_zero hzero, ?_⟩
      have harea : (mmapAperture m base limit align guard_pages).apertureAllocateArea true osPage 0
          m.PAGE_SIZE =
          some ((mmapAperture m base limit align guard_pages).mmapArea osPage 0 m.PAGE_SIZE) := by
        rw [Vma.apertureAllocateArea, show (mmapAperture m base limit align guard_pages).cls = .mmap
          from h.mmap]
      obtain ⟨pages, hpages⟩ := mmapArea_eq osPage (mmapAperture m base limit align guard_pages) 0
        m.PAGE_SIZE
      rw [if_neg hzero]
      change ∃ status t, ((mmapAperture m base limit align guard_pages).apertureAllocateArea true
        osPage 0 m.PAGE_SIZE).bind _ = _ ∧ _
      rw [harea, Option.bind_some]
      generalize (mmapAperture m base limit align guard_pages).mmapArea osPage 0 m.PAGE_SIZE =
        area at hpages ⊢
      obtain ⟨addr, d⟩ := area
      dsimp only at hpages ⊢
      subst hpages
      by_cases hgot : addr = 0
      · rw [if_neg (not_not.2 hgot)]
        exact ⟨_, _, rfl, ⟨fun _ => hgot, fun _ => rfl⟩, ⟨h.huge, h.page_pos, h.page_dvd, h.mmap⟩,
          rfl, rfl, rfl⟩
      · obtain ⟨pages', hrelease⟩ :=
          munmap_eq { mmapAperture m base limit align guard_pages with pages } addr m.PAGE_SIZE
        have hgive : Vma.releaseArea true { mmapAperture m base limit align guard_pages with pages }
            addr m.PAGE_SIZE =
            some { mmapAperture m base limit align guard_pages with pages := pages' } := by
          rw [Vma.releaseArea, show (mmapAperture m base limit align guard_pages).cls = .mmap
            from h.mmap, ← hrelease]
          rfl
        rw [if_pos hgot, hgive]
        exact ⟨_, _, rfl, ⟨nofun, fun hzero => absurd hzero hgot⟩,
          ⟨h.huge, h.page_pos, h.page_dvd, h.mmap⟩, rfl, rfl, rfl⟩

/-- An aperture that is not reserved is not laid out: its allocator takes the limit for a length. -/
theorem not_laidOut_mmap {limit' : ℕ} (hbase : t.default.base_ = alignBase gpuHugePageSize base)
    (ha : t.default.allocator_ = some (Allocator.create t.default.base_ t.default.limit_)) :
    ¬LaidOut t base limit' align := by
  have hhuge : gpuHugePageSize = 2 ^ 21 := rfl
  have hne : t.default.base_ ≠ 1 := by
    rw [hbase, alignBase, hhuge]
    omega
  exact fun hlaid => not_manages ha hne (hlaid.manages t.default (by simp [MemMgr.apertures]))

/-- Of the manager, it is the page size that counts for a range. -/
theorem noRange_congr (h : t.PAGE_SIZE = m.PAGE_SIZE) :
    NoRange t os base limit ↔ NoRange m os base limit := by
  simp only [NoRange, Found, Round, Missed, request, h]

/-! ### The whole call -/

/-- What is promised of a call: it returns, and what it leaves when it succeeds is laid out. -/
def Meets (ndebug : Bool) (os : ℕ → ℕ → ℕ → Option ℕ) (osPage : Option ℕ) (m : MemMgr)
    (base limit align guard_pages : ℕ) : Prop :=
  (∃ fuel, (init_svm_apertures ndebug fuel os osPage m base limit align guard_pages).isSome) ∧
    ∀ fuel t, init_svm_apertures ndebug fuel os osPage m base limit align guard_pages =
      some (.success, t) → LaidOut t base limit align

/-- A call that leaves no apertures: where none has to be reserved, assertions are compiled out and
no page is to be had, and no range can be reserved. -/
structure Refused (ndebug : Bool) (os : ℕ → ℕ → ℕ → Option ℕ) (osPage : Option ℕ) (m : MemMgr)
    (base limit align guard_pages : ℕ) : Prop where
  page : Unreserved m limit align → ndebug = true ∧ 0 < align ∧
    ((mmapAperture m (alignBase gpuHugePageSize base) (alignLimit gpuHugePageSize limit) align
      guard_pages).mmapArea osPage 0 m.PAGE_SIZE).1 = 0
  range : NoRange m os base limit

/-- A call that reserves a range: it returns, and does not leave it laid out. -/
theorem meets_reserved (h : m.Ok) (hos : OsOk m os) :
    ((∃ fuel, (initReserved ndebug fuel os m (alignBase gpuHugePageSize base)
        (alignLimit gpuHugePageSize limit) align guard_pages).isSome) ∧
      ∀ fuel t, initReserved ndebug fuel os m (alignBase gpuHugePageSize base)
        (alignLimit gpuHugePageSize limit) align guard_pages = some (.success, t) →
          LaidOut t base limit align) ↔ NoRange m os base limit := by
  have hsome : (initReserved ndebug (2 ^ 42) os m (alignBase gpuHugePageSize base)
      (alignLimit gpuHugePageSize limit) align guard_pages).isSome = true :=
    initReserved_isSome h hos (by omega)
  constructor
  · rintro ⟨-, hlaid⟩
    obtain ⟨⟨status, t⟩, hr⟩ := Option.isSome_iff_exists.1 hsome
    obtain ⟨-, hnone⟩ | ⟨rfl, -, p, size, -, hu, hsplit⟩ := initReserved_spec h hos hr
    · exact hnone
    · exact absurd (hlaid _ t hr) (hsplit.not_laidOut hu base limit)
  · intro hnone
    refine ⟨⟨_, hsome⟩, fun fuel t hr => ?_⟩
    obtain ⟨hstatus, -⟩ | ⟨-, hsomething, -⟩ := initReserved_spec h hos hr
    · cases hstatus
    · exact absurd hnone hsomething

/-- Where the GPUs do not reach all addresses, it is the range that counts. -/
theorem meets_of_limit_lt (h : m.Ok) (hos : OsOk m os) (hfresh : m.dgpu_shared_aperture_limit_ = 0)
    (hreach : ¬(2 ^ 47 - 1 ≤ alignLimit gpuHugePageSize limit ∧ (!m.reserve_svm) = true)) :
    Meets ndebug os osPage m base limit align guard_pages ↔ NoRange m os base limit := by
  have heq : ∀ fuel, init_svm_apertures ndebug fuel os osPage m base limit align guard_pages =
      initReserved ndebug fuel os m (alignBase gpuHugePageSize base)
        (alignLimit gpuHugePageSize limit) align guard_pages := fun fuel => by
    rw [init_svm_apertures, if_neg (not_not.2 hfresh)]
    simp only [h.huge]
    rw [if_neg hreach]
  rw [Meets]
  simp only [heq]
  exact meets_reserved h hos

/-- **What `init_svm_apertures` promises is kept exactly in the calls that leave no apertures**, and
in those that find the apertures of a parent process laid out. -/
theorem init_svm_apertures_iff (h : m.Ok) (hos : OsOk m os) :
    Meets ndebug os osPage m base limit align guard_pages ↔
      m.dgpu_shared_aperture_limit_ ≠ 0 ∧ LaidOut m base limit align ∨
      m.dgpu_shared_aperture_limit_ = 0 ∧
        Refused ndebug os osPage m base limit align guard_pages := by
  have hhuge := h.huge
  by_cases hshared : m.dgpu_shared_aperture_limit_ ≠ 0
  · have heq : ∀ fuel, init_svm_apertures ndebug fuel os osPage m base limit align guard_pages =
        some (.success, m) := fun fuel => by
      rw [init_svm_apertures, if_pos hshared]
      rfl
    simp only [Meets, heq, hshared, ne_eq, not_false_eq_true, true_and, false_and, or_false]
    constructor
    · exact fun hmeets => hmeets.2 0 m rfl
    · exact fun hlaid => ⟨⟨0, rfl⟩, fun _ t ht => by cases ht; exact hlaid⟩
  have hfresh : m.dgpu_shared_aperture_limit_ = 0 := not_not.1 hshared
  simp only [hfresh, ne_eq, not_true_eq_false, false_and, false_or, true_and]
  -- without a try at apertures that are not reserved, it is the range that counts
  have hrange : ∀ m' : MemMgr, m'.Ok → OsOk m' os →
      (NoRange m' os base limit ↔ NoRange m os base limit) →
      (∀ fuel, init_svm_apertures ndebug fuel os osPage m base limit align guard_pages =
        initReserved ndebug fuel os m' (alignBase gpuHugePageSize base)
          (alignLimit gpuHugePageSize limit) align guard_pages) →
      (Meets ndebug os osPage m base limit align guard_pages ↔ NoRange m os base limit) := by
    intro m' h' hos' hsame heq
    rw [← hsame, Meets]
    simp only [heq]
    exact meets_reserved h' hos'
  by_cases hreach : 2 ^ 47 - 1 ≤ alignLimit gpuHugePageSize limit ∧ (!m.reserve_svm) = true
  · have htry : ∀ fuel, init_svm_apertures ndebug fuel os osPage m base limit align guard_pages =
        (init_mmap_apertures ndebug osPage m (alignBase gpuHugePageSize base)
          (alignLimit gpuHugePageSize limit) align guard_pages).bind fun e =>
            if e.1 = .success then some (.success, e.2) else
              initReserved ndebug fuel os e.2 (alignBase gpuHugePageSize base)
                (alignLimit gpuHugePageSize limit) align guard_pages := fun fuel => by
      rw [init_svm_apertures, if_neg hshared]
      simp only [hhuge]
      rw [if_pos hreach]
      rfl
    have hreserve : m.reserve_svm = false := by simpa using hreach.2
    obtain ⟨hlt, hr⟩ | ⟨hle, habort, hr⟩ |
      ⟨hle, rfl, hpos, status, t, hr, hstatus, hok, hpage, hbase,
        halloc⟩ :=
      init_mmap_apertures_spec ndebug osPage (alignBase gpuHugePageSize base)
        (alignLimit gpuHugePageSize limit) align guard_pages h
    · rw [hrange m h hos Iff.rfl fun fuel => by
        rw [htry, hr, Option.bind_some]
        exact if_neg nofun]
      exact ⟨fun hnone => ⟨fun hun => absurd hun.2.2 (Nat.not_le.2 hlt), hnone⟩,
        fun hrefused => hrefused.range⟩
    · refine iff_of_false (fun hmeets => ?_) fun hrefused => ?_
      · obtain ⟨fuel, hsome⟩ := hmeets.1
        rw [htry, hr] at hsome
        cases hsome
      · obtain ⟨hn, hpos, -⟩ := hrefused.page ⟨hreach.1, hreserve, hle⟩
        rcases habort with hf | hz
        · rw [hn] at hf
          cases hf
        · omega
    · by_cases hz : ((mmapAperture m (alignBase gpuHugePageSize base)
          (alignLimit gpuHugePageSize limit) align guard_pages).mmapArea osPage 0 m.PAGE_SIZE).1 = 0
      · cases hstatus.2 hz
        rw [hrange t hok (fun len addr size p hp => hpage ▸ hos len addr size p hp)
          (noRange_congr hpage) fun fuel => by
            rw [htry, hr, Option.bind_some]
            exact if_neg nofun]
        exact ⟨fun hnone => ⟨fun _ => ⟨rfl, hpos, hz⟩, hnone⟩, fun hrefused => hrefused.range⟩
      · have hsuccess : status = .success := by
          cases status with
          | success => rfl
          | error => exact absurd (hstatus.1 rfl) hz
        refine iff_of_false (fun hmeets => ?_) fun hrefused => ?_
        · refine not_laidOut_mmap hbase halloc (hmeets.2 0 t ?_)
          rw [htry, hr, Option.bind_some]
          exact if_pos hsuccess
        · exact hz (hrefused.page ⟨hreach.1, hreserve, hle⟩).2.2
  · have hun : ¬Unreserved m limit align := fun hun => hreach ⟨hun.1, by rw [hun.2.1]; rfl⟩
    rw [meets_of_limit_lt h hos hfresh hreach]
    exact ⟨fun hnone => ⟨fun hun' => absurd hun' hun, hnone⟩, fun hrefused => hrefused.range⟩

/-- The memory manager of a process that starts. -/
def newMgr : MemMgr :=
  let v : Vma := { cls := .mmap, base_ := 0, limit_ := 0, PAGE_SIZE := 4096, PAGE_SHIFT := 12 }
  { GPU_HUGE_PAGE_SIZE := gpuHugePageSize, PAGE_SIZE := 4096, default := v, coherent := v }

theorem newMgr_ok : newMgr.Ok := ⟨rfl, by decide, by decide, rfl⟩

theorem topOf_eight_gigabytes : topOf (2 ^ 33) = 2 ^ 33 - 1 ∧
    alignLimit gpuHugePageSize (2 ^ 33) = 2 ^ 33 - 1 ∧
      alignBase gpuHugePageSize 0x1000000 = 2 ^ 24 := by
  decide

/-- `mmap` gives no range of the eight gigabytes that the emulated driver reports. -/
theorem init_svm_apertures_nothing_free :
    Meets false (fun _ _ _ => none) none newMgr 0x1000000 (2 ^ 33) 4096 1 := by
  obtain ⟨htop, hlimit, hbase⟩ := topOf_eight_gigabytes
  refine (init_svm_apertures_iff newMgr_ok fun _ _ _ _ hp => by cases hp).2
    (.inr ⟨rfl, fun hun => ?_, .inr ?_⟩)
  · have := hun.1
    rw [hlimit] at this
    omega
  · rintro p size ⟨k, -, ⟨j, -, -, -, hans, -⟩, -⟩
    cases hans

/-- **The allocators of the eight gigabytes that the emulated driver reports** hand out what lies
behind the apertures: `mmap` gives the range that it is asked for first. -/
theorem allocator_of_limit :
    ¬Meets false (fun _ addr size => if addr = 2 ^ 24 ∧
      size = 2 ^ 33 - 2 ^ 24 then some addr else none)
      none newMgr 0x1000000 (2 ^ 33) 4096 1 := by
  obtain ⟨htop, hlimit, hbase⟩ := topOf_eight_gigabytes
  have hos : OsOk newMgr fun _ addr size =>
      if addr = 2 ^ 24 ∧ size = 2 ^ 33 - 2 ^ 24 then some addr else none := by
    intro len addr size p hp
    rw [Option.mem_def, Option.ite_none_right_eq_some] at hp
    obtain ⟨⟨rfl, rfl⟩, hp⟩ := hp
    cases hp
    decide
  rw [meets_of_limit_lt newMgr_ok hos rfl (by rw [hlimit]; decide), NoRange, htop, hbase]
  rintro (hle | hnone)
  · omega
  · refine hnone (2 ^ 24) (2 ^ 33 - 2 ^ 24) ⟨0, by decide, ⟨0, by decide, by decide,
      by decide, rfl, by decide, fun i hi => absurd hi (Nat.not_lt_zero i)⟩, by decide,
      fun i hi => absurd hi (Nat.not_lt_zero i)⟩

end Codrive.Aperture.Reserve
