/-
# Where the apertures of shared virtual memory are

The search of `init_svm_apertures` ends, and finds the first range that `mmap` gives it with half of
it where the GPUs reach (`reserveRange_spec`).  `splitRange` makes two apertures of it.  But their
allocators take the limit for a length, so they also hand out what lies behind the aperture.
-/

import Codrive.Aperture.SvmApertures
import Codrive.Basis.Run

namespace Codrive.Aperture.Reserve

open Codrive.Basis Codrive.Device

/-! ### What is promised of the apertures -/

/-- The members of `MemMgr` hold what their names stand for, and the default aperture is one that
`GpuSVM` makes. -/
structure MemMgr.Ok (m : MemMgr) : Prop where
  huge : m.GPU_HUGE_PAGE_SIZE = gpuHugePageSize
  page_pos : 0 < m.PAGE_SIZE
  page_dvd : m.PAGE_SIZE ∣ 2 ^ 16
  mmap : m.default.cls = .mmap

/-- `mmap` reserves whole pages of the lower half of the address space, and never the page at 0. -/
def OsOk (m : MemMgr) (os : ℕ → ℕ → ℕ → Option ℕ) : Prop :=
  ∀ len addr size, ∀ p ∈ os len addr size, p ≠ 0 ∧ m.PAGE_SIZE ∣ p ∧ p + size ≤ 2 ^ 63

/-- The two apertures. -/
def MemMgr.apertures (m : MemMgr) : List Vma := [m.coherent, m.default]

/-- The allocator of an aperture manages the addresses of the aperture. -/
def Manages (v : Vma) : Prop :=
  ∃ a ∈ v.allocator_, a.pool = v.base_ ∧ a.pool + a.length = v.limit_ + 1

/-- No area that is ever allocated from the allocator lies outside the aperture. -/
def Inside (v : Vma) : Prop :=
  ∀ a ∈ v.allocator_, ∀ ndebug calls t, Run (Arena.Step ndebug) ⟨a, []⟩ calls t →
    ∀ p ∈ t.live, v.base_ ≤ p.1 ∧ p.1 + p.2 ≤ v.limit_ + 1

/-- Where the apertures should be, when the driver reports `base`, `limit` and `align`. -/
structure Placed (m : MemMgr) (base limit align : ℕ) : Prop where
  disjoint : m.coherent.limit_ < m.default.base_ ∨ m.default.limit_ < m.coherent.base_
  aligned : 2 ^ 16 ∣ m.coherent.base_ ∧ 2 ^ 16 ∣ m.coherent.limit_ + 1 - m.coherent.base_
  align : ∀ v ∈ m.apertures, v.align_ = align
  within : ∀ v ∈ m.apertures, base ≤ v.base_ ∧ v.limit_ ≤ limit
  tile : ∀ x, (∃ v ∈ m.apertures, v.base_ ≤ x ∧ x ≤ v.limit_) ↔
    ∃ r ∈ m.reserved, r.1 ≤ x ∧ x < r.1 + r.2

/-- What `init_svm_apertures` should leave when it succeeds. -/
structure LaidOut (m : MemMgr) (base limit align : ℕ) : Prop extends
    Placed m base limit align where
  manages : ∀ v ∈ m.apertures, Manages v
  inside : ∀ v ∈ m.apertures, Inside v

/-! ### The answers that are taken -/

section Search

variable (m : MemMgr) (os : ℕ → ℕ → ℕ → Option ℕ) (base limit len : ℕ)

/-- How much is asked for at `addr`, in the round that looks for `len` bytes. -/
def request (addr : ℕ) : ℕ := min len (limit + 1 - addr) / m.PAGE_SIZE * m.PAGE_SIZE

/-- Half of `len` bytes at `addr` is below the limit. -/
def HalfBelow (addr : ℕ) : Prop := addr + (len + 1) / 2 ≤ limit + 1

instance (addr : ℕ) : Decidable (HalfBelow limit len addr) := inferInstanceAs (Decidable (_ ≤ _))

/-- The start address of turn `j`. -/
def start (j : ℕ) : ℕ := base + j * gpuHugePageSize

/-- Turn `j` is answered by a range of which less than half is below the limit. -/
def Missed (j : ℕ) : Prop :=
  ∃ q, os len (start base j) (request m limit len (start base j)) = some q ∧ ¬HalfBelow limit len q

/-- The round that looks for `len` bytes takes the range: it is the first one that `mmap` gives with
half of `len` bytes below the limit, and every address before it was answered. -/
def Round (p size : ℕ) : Prop :=
  ∃ j, HalfBelow limit len (start base j) ∧ size = request m limit len (start base j) ∧
    svmMinVmSize ≤ size ∧ os len (start base j) size = some p ∧ HalfBelow limit len p ∧
      ∀ i < j, Missed m os base limit len i

/-- The bytes that round `k` looks for. -/
def lengthAt (k : ℕ) : ℕ := (fun len => (len + 1) / 2)^[k] (limit - base + 1)

/-- The search takes the range: its round is the first one that takes a range with the smallest
usable size below the limit. -/
def Found (p size : ℕ) : Prop :=
  ∃ k, svmMinVmSize ≤ lengthAt base limit k ∧
    Round m os base limit (lengthAt base limit k) p size ∧ p + svmMinVmSize ≤ limit + 1 ∧
      ∀ i < k, ∀ q s, Round m os base limit (lengthAt base limit i) q s →
        limit + 1 < q + svmMinVmSize

variable {m os base limit len}

/-- A round takes one range. -/
theorem Round.unique {p q s t : ℕ} (h : Round m os base limit len p s)
    (h' : Round m os base limit len q t) : p = q ∧ s = t := by
  obtain ⟨j, -, rfl, -, hp, hhalf, hj⟩ := h
  obtain ⟨j', -, rfl, -, hq, hhalf', hj'⟩ := h'
  rcases Nat.lt_trichotomy j j' with hlt | rfl | hlt
  · obtain ⟨r, hr, hmiss⟩ := hj' j hlt
    exact absurd (Option.some.inj (hp.symm.trans hr) ▸ hhalf) hmiss
  · exact ⟨Option.some.inj (hp.symm.trans hq), rfl⟩
  · obtain ⟨r, hr, hmiss⟩ := hj j' hlt
    exact absurd (Option.some.inj (hq.symm.trans hr) ▸ hhalf') hmiss

theorem lengthAt_succ (k : ℕ) :
    lengthAt base limit (k + 1) = (lengthAt base limit k + 1) / 2 :=
  Function.iterate_succ_apply' _ _ _

/-- Rounds look for less and less. -/
theorem lengthAt_antitone {i k : ℕ} (h : i ≤ k) :
    lengthAt base limit k ≤ lengthAt base limit i := by
  induction k, h using Nat.le_induction with
  | base => exact Nat.le_refl _
  | succ k _ ih =>
    rw [lengthAt_succ]
    omega

theorem lengthAt_le (k : ℕ) : lengthAt base limit k ≤ limit - base + 1 :=
  lengthAt_antitone (Nat.zero_le k)

/-! ### The search -/

/-- The words that the search computes with are far from wrapping. -/
structure Bounds (limit base len : ℕ) : Prop where
  limit_le : limit ≤ svmReservationLimit
  len_le : len ≤ limit - base + 1
  len_pos : 0 < len

theorem half_of_le {len : ℕ} (h : len ≤ 2 ^ 41) : half len = (len + 1) / 2 := by
  rw [half, u64_of_lt (by omega)]

theorem munmap_all (p size : ℕ) : Ranges.munmap [(p, size)] p size = [] := by
  simp [Ranges.munmap]

/-- Half of `len` bytes at `addr` is below the limit, as the code tests it. -/
theorem halfBelow_iff {addr : ℕ} (hb : Bounds limit base len) (ha : addr ≤ 2 ^ 63) :
    sub64 (u64 (addr + half len)) 1 ≤ limit ↔ HalfBelow limit len addr := by
  have hlimit := hb.limit_le
  have hlen := hb.len_le
  have hpos := hb.len_pos
  rw [show svmReservationLimit = 2 ^ 40 - 1 from rfl] at hlimit
  rw [half_of_le (by omega), u64_of_lt (by omega), sub64_of_le (by omega) (by omega), HalfBelow]
  omega

/-- **One turn of the inner loop.** -/
theorem tryStart_eq (h : m.Ok) (hos : OsOk m os) (hb : Bounds limit base len) {addr : ℕ}
    (ha : addr ≤ 2 ^ 41) :
    tryStart m os limit len (addr, []) =
      if HalfBelow limit len addr ∧ svmMinVmSize ≤ request m limit len addr then
        match os len addr (request m limit len addr) with
        | none => .inr (none, [])
        | some p =>
          if HalfBelow limit len p then
            .inr (some (p, request m limit len addr), [(p, request m limit len addr)])
          else .inl (addr + gpuHugePageSize, [])
      else .inr (none, []) := by
  have hlimit := hb.limit_le
  have hlen := hb.len_le
  rw [show svmReservationLimit = 2 ^ 40 - 1 from rfl] at hlimit
  have hhuge : gpuHugePageSize = 2 ^ 21 := rfl
  rw [tryStart]
  by_cases hbelow : HalfBelow limit len addr
  · have hle : addr ≤ limit + 1 := by
      rw [HalfBelow] at hbelow
      omega
    have hreq : sub64 (min (u64 (addr + len)) (u64 (limit + 1))) addr / m.PAGE_SIZE * m.PAGE_SIZE =
        request m limit len addr := by
      rw [u64_of_lt (by omega), u64_of_lt (by omega), sub64_of_le (by omega) (by omega), request]
      congr 2
      omega
    rw [if_pos ((halfBelow_iff hb (by omega)).2 hbelow)]
    dsimp only
    rw [hreq]
    by_cases hmin : svmMinVmSize ≤ request m limit len addr
    · rw [if_neg (by omega), if_pos ⟨hbelow, hmin⟩]
      cases hr : os len addr (request m limit len addr) with
      | none => rfl
      | some p =>
        have hp := (hos _ _ _ p hr).2.2
        dsimp only
        by_cases hhalf : HalfBelow limit len p
        · rw [if_pos ((halfBelow_iff hb (by omega)).2 hhalf), if_pos hhalf]
        · rw [if_neg (fun hle => hhalf ((halfBelow_iff hb (by omega)).1 hle)), if_neg hhalf,
            munmap_all, h.huge, u64_of_lt (by omega)]
    · rw [if_pos (by omega), if_neg fun hand => hmin hand.2]
  · rw [if_neg (fun hle => hbelow ((halfBelow_iff hb (by omega)).1 hle)),
      if_neg fun hand => hbelow hand.1]

/-- What a round or the search leaves: the range that it takes, which is all that it has reserved,
or nothing, when there is none to take. -/
def Takes (taken : ℕ → ℕ → Prop) : Option (ℕ × ℕ) × Ranges → Prop
  | (none, reserved) => reserved = [] ∧ ∀ p size, ¬taken p size
  | (some (p, size), reserved) => reserved = [(p, size)] ∧ taken p size

/-- Every turn so far was missed, and nothing is reserved. -/
def Missing (m : MemMgr) (os : ℕ → ℕ → ℕ → Option ℕ) (base limit len : ℕ) (s : ℕ × Ranges) : Prop :=
  s.2 = [] ∧ ∃ j, s.1 = start base j ∧ s.1 ≤ 2 ^ 41 ∧ ∀ i < j, Missed m os base limit len i

/-- A turn of a round goes on to the next address, or ends the round with what it takes. -/
theorem Missing.turn (h : m.Ok) (hos : OsOk m os) (hb : Bounds limit base len) {s : ℕ × Ranges}
    (hs : Missing m os base limit len s) :
    (∃ t, tryStart m os limit len s = .inl t ∧ Missing m os base limit len t ∧
      limit + 1 - t.1 < limit + 1 - s.1) ∨
    ∃ res, tryStart m os limit len s = .inr res ∧ Takes (Round m os base limit len) res := by
  obtain ⟨addr, reserved⟩ := s
  obtain ⟨rfl, j, rfl, hle, hmissed⟩ := hs
  have hlimit := hb.limit_le
  have hpos := hb.len_pos
  rw [show svmReservationLimit = 2 ^ 40 - 1 from rfl] at hlimit
  have hhuge : gpuHugePageSize = 2 ^ 21 := rfl
  have hmono : ∀ {i}, j ≤ i → start base j ≤ start base i := fun hji =>
    Nat.add_le_add_left (Nat.mul_le_mul_right _ hji) _
  dsimp only at hle
  rw [tryStart_eq h hos hb hle]
  by_cases hask : HalfBelow limit len (start base j) ∧
      svmMinVmSize ≤ request m limit len (start base j)
  · rw [if_pos hask]
    cases hr : os len (start base j) (request m limit len (start base j)) with
    | none =>
      refine .inr ⟨_, rfl, rfl, ?_⟩
      rintro p size ⟨i, -, rfl, -, hp, hhalf, hi⟩
      rcases Nat.lt_trichotomy i j with hlt | rfl | hlt
      · obtain ⟨q, hq, hmiss⟩ := hmissed i hlt
        exact hmiss (Option.some.inj (hp.symm.trans hq) ▸ hhalf)
      · rw [hr] at hp
        cases hp
      · obtain ⟨q, hq, -⟩ := hi j hlt
        rw [hr] at hq
        cases hq
    | some p =>
      dsimp only
      by_cases hhalf : HalfBelow limit len p
      · rw [if_pos hhalf]
        exact .inr ⟨_, rfl, rfl, j, hask.1, rfl, hask.2, hr, hhalf, hmissed⟩
      · rw [if_neg hhalf]
        have hnext : start base j + gpuHugePageSize = start base (j + 1) := by
          rw [start, start, Nat.succ_mul]
          omega
        have hbelow := hask.1
        rw [HalfBelow] at hbelow
        refine .inl ⟨_, rfl, ⟨rfl, j + 1, hnext, ?_, fun i hi => ?_⟩, ?_⟩
        · dsimp only
          omega
        · rcases Nat.lt_succ_iff_lt_or_eq.1 hi with hlt | rfl
          · exact hmissed i hlt
          · exact ⟨p, hr, hhalf⟩
        · dsimp only
          omega
  · rw [if_neg hask]
    refine .inr ⟨_, rfl, rfl, ?_⟩
    rintro p size ⟨i, hbelow, rfl, hmin, hp, hhalf, hi⟩
    rcases Nat.lt_or_ge i j with hlt | hge
    · obtain ⟨q, hq, hmiss⟩ := hmissed i hlt
      exact hmiss (Option.some.inj (hp.symm.trans hq) ▸ hhalf)
    · -- what a later turn asks for, an earlier one could have asked for
      have hji := hmono hge
      refine hask ⟨?_, Nat.le_trans hmin ?_⟩
      · rw [HalfBelow] at *
        omega
      · rw [request, request]
        exact Nat.mul_le_mul_right _ (Nat.div_le_div_right (by omega))

/-- **A round** takes the first range that it can take. -/
theorem tryStarts_spec (h : m.Ok) (hos : OsOk m os) (hb : Bounds limit base len)
    (hbase : base ≤ 2 ^ 41) {fuel : ℕ} {res : Option (ℕ × ℕ) × Ranges}
    (hr : tryStarts m os fuel base limit len [] = some res) :
    Takes (Round m os base limit len) res := by
  have hstart : Missing m os base limit len (base, []) :=
    ⟨rfl, 0, by simp [start], hbase, fun i hi => absurd hi (Nat.not_lt_zero i)⟩
  refine loop_rule (Missing m os base limit len) _ (fun s t hs ht => ?_) (fun s a hs ha => ?_)
    hstart hr
  · obtain ⟨t', ht', hI, -⟩ | ⟨res, hres, -⟩ := hs.turn h hos hb
    · cases Sum.inl.inj (ht'.symm.trans (Option.some.inj ht))
      exact hI
    · cases hres.symm.trans (Option.some.inj ht)
  · obtain ⟨t', ht', -⟩ | ⟨res, hres, htakes⟩ := hs.turn h hos hb
    · cases ht'.symm.trans (Option.some.inj ha)
    · cases Sum.inr.inj (hres.symm.trans (Option.some.inj ha))
      exact htakes

/-- A round ends. -/
theorem tryStarts_isSome (h : m.Ok) (hos : OsOk m os) (hb : Bounds limit base len)
    (hbase : base ≤ 2 ^ 41) {fuel : ℕ} (hfuel : 2 ^ 41 < fuel) :
    (tryStarts m os fuel base limit len []).isSome = true := by
  have hlimit := hb.limit_le
  rw [show svmReservationLimit = 2 ^ 40 - 1 from rfl] at hlimit
  refine loop_isSome (Missing m os base limit len) (fun s => limit + 1 - s.1) (fun s hs => ?_)
    ⟨rfl, 0, by simp [start], hbase, fun i hi => absurd hi (Nat.not_lt_zero i)⟩ (by
      dsimp only
      omega)
  obtain ⟨t, ht, hI, hlt⟩ | ⟨res, hres, -⟩ := hs.turn h hos hb
  · exact .inl ⟨t, congrArg some ht, hI, hlt⟩
  · exact .inr ⟨res, congrArg some hres⟩

/-- No round so far took a range that is usable, and nothing is reserved. -/
def Shrinking (m : MemMgr) (os : ℕ → ℕ → ℕ → Option ℕ) (base limit : ℕ) (s : ℕ × Ranges) : Prop :=
  s.2 = [] ∧ ∃ k, s.1 = lengthAt base limit k ∧
    ∀ i < k, ∀ q t, Round m os base limit (lengthAt base limit i) q t → limit + 1 < q + svmMinVmSize

/-- A turn of the outer loop halves the length, or ends the search with what it takes. -/
theorem Shrinking.turn (h : m.Ok) (hos : OsOk m os) (hlimit : limit ≤ svmReservationLimit)
    (hbase : base ≤ 2 ^ 41) {fuel : ℕ} {s : ℕ × Ranges} (hs : Shrinking m os base limit s)
    {next : (ℕ × Ranges) ⊕ (Option (ℕ × ℕ) × Ranges)}
    (ht : tryLength m os fuel base limit s = some next) :
    (∃ t, next = .inl t ∧ Shrinking m os base limit t ∧ t.1 < s.1) ∨
      ∃ res, next = .inr res ∧ Takes (Found m os base limit) res := by
  obtain ⟨len, reserved⟩ := s
  obtain ⟨rfl, k, rfl, hrounds⟩ := hs
  have hle := @lengthAt_le base limit k
  have hlim := hlimit
  rw [show svmReservationLimit = 2 ^ 40 - 1 from rfl] at hlim
  have hsize : svmMinVmSize = 2 ^ 32 := rfl
  have hnext : half (lengthAt base limit k) = lengthAt base limit (k + 1) := by
    rw [half_of_le (by omega), lengthAt_succ]
  rw [tryLength] at ht
  by_cases hmin : svmMinVmSize ≤ lengthAt base limit k
  · have hb : Bounds limit base (lengthAt base limit k) := ⟨hlimit, hle, by omega⟩
    rw [if_pos hmin] at ht
    have hshrink : half (lengthAt base limit k) < lengthAt base limit k := by
      rw [half_of_le (by omega)]
      omega
    split at ht
    · cases ht
    · next reserved hr =>
      obtain ⟨rfl, hnone⟩ := tryStarts_spec h hos hb hbase hr
      cases ht
      refine .inl ⟨_, rfl, ⟨rfl, k + 1, hnext, fun i hi q t hround => ?_⟩, hshrink⟩
      rcases Nat.lt_succ_iff_lt_or_eq.1 hi with hlt | rfl
      · exact hrounds i hlt q t hround
      · exact absurd hround (hnone q t)
    · next p size reserved hr =>
      obtain ⟨rfl, hround⟩ := tryStarts_spec h hos hb hbase hr
      have hp : p + size ≤ 2 ^ 63 ∧ p ≠ 0 := by
        obtain ⟨j, -, -, -, hans, -⟩ := hround
        exact ⟨(hos _ _ _ p hans).2.2, (hos _ _ _ p hans).1⟩
      rw [u64_of_lt (by omega), sub64_of_le (by omega) (by omega)] at ht
      by_cases husable : limit < p + svmMinVmSize - 1
      · rw [if_pos husable, munmap_all] at ht
        cases ht
        refine .inl ⟨_, rfl, ⟨rfl, k + 1, hnext, fun i hi q t hround' => ?_⟩, hshrink⟩
        rcases Nat.lt_succ_iff_lt_or_eq.1 hi with hlt | rfl
        · exact hrounds i hlt q t hround'
        · cases (hround.unique hround').1
          omega
      · rw [if_neg husable] at ht
        cases ht
        exact .inr ⟨_, rfl, rfl, k, hmin, hround, by omega, hrounds⟩
  · rw [if_neg hmin] at ht
    cases ht
    refine .inr ⟨_, rfl, rfl, ?_⟩
    rintro p size ⟨i, hlen, hround, husable, -⟩
    rcases Nat.lt_or_ge i k with hlt | hge
    · exact absurd (hrounds i hlt p size hround) (by omega)
    · -- lengths only go down
      have hmono := @lengthAt_antitone base limit _ _ hge
      omega

/-- **What the search returns**: the first range that can be taken. -/
theorem reserveRange_spec (h : m.Ok) (hos : OsOk m os) (hlimit : limit ≤ svmReservationLimit)
    (hbase : base ≤ limit) {fuel : ℕ} {res : Option (ℕ × ℕ) × Ranges}
    (hr : reserveRange m os fuel base limit = some res) : Takes (Found m os base limit) res := by
  have hlim := hlimit
  rw [show svmReservationLimit = 2 ^ 40 - 1 from rfl] at hlim
  have hlen : u64 (sub64 limit base + 1) = lengthAt base limit 0 := by
    rw [sub64_of_le hbase (by omega), u64_of_lt (by omega)]
    rfl
  rw [reserveRange, hlen] at hr
  refine loop_rule (Shrinking m os base limit) _ (fun s t hs ht => ?_) (fun s a hs ha => ?_)
    ⟨rfl, 0, rfl, fun i hi => absurd hi (Nat.not_lt_zero i)⟩ hr
  · obtain ⟨t', ht', hI, -⟩ | ⟨res, hres, -⟩ := hs.turn h hos hlimit (by omega) ht
    · cases Sum.inl.inj ht'
      exact hI
    · cases hres
  · obtain ⟨t', ht', -⟩ | ⟨res, hres, htakes⟩ := hs.turn h hos hlimit (by omega) ha
    · cases ht'
    · cases Sum.inr.inj hres
      exact htakes

/-- **The search ends.** -/
theorem reserveRange_isSome (h : m.Ok) (hos : OsOk m os) (hlimit : limit ≤ svmReservationLimit)
    (hbase : base ≤ limit) {fuel : ℕ} (hfuel : 2 ^ 41 < fuel) :
    (reserveRange m os fuel base limit).isSome = true := by
  have hlim := hlimit
  rw [show svmReservationLimit = 2 ^ 40 - 1 from rfl] at hlim
  have hlen : u64 (sub64 limit base + 1) = lengthAt base limit 0 := by
    rw [sub64_of_le hbase (by omega), u64_of_lt (by omega)]
    rfl
  rw [reserveRange, hlen]
  refine loop_isSome (Shrinking m os base limit) (fun s => s.1) (fun s hs => ?_)
    ⟨rfl, 0, rfl, fun i hi => absurd hi (Nat.not_lt_zero i)⟩ (by
      have := @lengthAt_le base limit 0
      dsimp only
      omega)
  have hsome : (tryLength m os fuel base limit s).isSome = true := by
    obtain ⟨len, reserved⟩ := s
    obtain ⟨rfl, k, rfl, -⟩ := hs
    rw [tryLength]
    by_cases hmin : svmMinVmSize ≤ lengthAt base limit k
    · have hround := tryStarts_isSome h hos
        ⟨hlimit, lengthAt_le k, Nat.lt_of_lt_of_le (by decide) hmin⟩
          (by omega : base ≤ 2 ^ 41) hfuel
      obtain ⟨⟨_ | ⟨p, size⟩, reserved⟩, hr⟩ := Option.isSome_iff_exists.1 hround
      · rw [if_pos hmin, hr]
        rfl
      · rw [if_pos hmin, hr]
        dsimp only
        split <;> rfl
    · rw [if_neg hmin]
      rfl
  obtain ⟨next, hnext⟩ := Option.isSome_iff_exists.1 hsome
  obtain ⟨t, rfl, hI, hlt⟩ | ⟨res, rfl, -⟩ := hs.turn h hos hlimit (by omega) hnext
  · exact .inl ⟨t, hnext, hI, hlt⟩
  · exact .inr ⟨res, hnext⟩

end Search

end Codrive.Aperture.Reserve
