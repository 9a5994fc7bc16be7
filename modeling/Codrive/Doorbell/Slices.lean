/-
# Doorbells

`src/src/cmdio/linux/opu_doorbell.c`.  A device exposes an aperture of doorbells; it is cut into
slices of one size, the first for the queues of the kernel and each other for one process.  The
doorbells of the kernel's slice are handed out one by one from a bitmap, the slices of the
processes from an `ida`.

| here | source |
|---|---|
| `Finset ℕ` | the set bits of `doorbell_available_index`, the ids of `doorbell_ida` |
| `p : ℕ` as a doorbell | `doorbell_kernel_ptr + p`, in dwords |

`opu_get_kernel_doorbell` sets the bit it found before it looks whether it found one, so with no
doorbell left it sets the bit behind the bitmap.
-/

import Codrive.Basis.Bitmap
import Codrive.Basis.Run
import Mathlib.Data.Finset.Card
import Mathlib.Data.Finset.Range
import Mathlib.Data.Set.Lattice
import Mathlib.Order.CompletePartialOrder
import Mathlib.Tactic.Ring

namespace Codrive.Doorbell

open Codrive.Basis

/-- The error numbers of `opu_doorbell_init`. -/
inductive Errno where
  | enospc | enomem
  deriving DecidableEq, Repr

/-- `PAGE_SIZE`. -/
def pageSize : ℕ := 4096

/-- `OPU_MAX_NUM_OF_QUEUES_PER_PROCESS`. -/
def maxNumOfQueuesPerProcess : ℕ := 1024

/-- `roundup` of a `size_t`. -/
def roundup (x y : ℕ) : ℕ := (x + (y - 1)) % 2 ^ 64 / y * y

/-- `rounddown`. -/
def rounddown (x y : ℕ) : ℕ := x - x % y

/-- What `device_info` and `shared_resources` say of the doorbells of a device: a doorbell is of
whole dwords, and 1024 of them have their size in an `unsigned int`. -/
structure Resources where
  doorbell_size : ℕ
  doorbell_physical_address : ℕ
  doorbell_aperture_size : ℕ
  doorbell_start_offset : ℕ
  size_pos : 0 < doorbell_size
  dword_dvd : 4 ∣ doorbell_size
  size_lt : doorbell_size * 1024 < 2 ^ 32
  aperture_lt : doorbell_aperture_size < 2 ^ 64

/-- `struct opu_dev`, as the functions read it. -/
structure Dev where
  res : Resources
  max_doorbell_slices : ℕ
  doorbell_base : ℕ
  doorbell_base_dw_offset : ℕ

/-- `opu_doorbell_process_slice`. -/
def opuDoorbellProcessSlice (res : Resources) : ℕ :=
  roundup (res.doorbell_size * maxNumOfQueuesPerProcess) pageSize

/-- `opu_doorbell_init` of a device with `max_doorbell_slices`; `mapped` says whether `ioremap`
succeeds. -/
def opuDoorbellInit (res : Resources) (max_doorbell_slices : ℕ) (mapped : Bool) :
    Except Errno Dev :=
  let slice := opuDoorbellProcessSlice res
  let doorbell_start_offset := roundup res.doorbell_start_offset slice
  let doorbell_aperture_size := rounddown res.doorbell_aperture_size slice
  if doorbell_aperture_size > doorbell_start_offset then
    let doorbell_process_limit := (doorbell_aperture_size - doorbell_start_offset) / slice
    if mapped then
      .ok {
        res
        max_doorbell_slices :=
          if max_doorbell_slices = 0 ∨ doorbell_process_limit < max_doorbell_slices then
            doorbell_process_limit
          else max_doorbell_slices
        doorbell_base := (res.doorbell_physical_address + doorbell_start_offset) % 2 ^ 64
        doorbell_base_dw_offset := doorbell_start_offset / 4 }
    else .error .enomem
  else .error .enospc

/-- `opu_get_kernel_doorbell`: the doorbell, its `doorbell_off`, and the bitmap. -/
def opuGetKernelDoorbell (dev : Dev) (doorbell_available_index : Finset ℕ) :
    Option (ℕ × ℕ) × Finset ℕ :=
  let inx := findNextZeroBit doorbell_available_index maxNumOfQueuesPerProcess 0
  let doorbell_available_index := insert inx doorbell_available_index
  if inx ≥ maxNumOfQueuesPerProcess then (none, doorbell_available_index)
  else
    let inx := inx * (dev.res.doorbell_size / 4)
    (some (inx, (dev.doorbell_base_dw_offset + inx) % 2 ^ 32), doorbell_available_index)

/-- `opu_release_kernel_doorbell`. -/
def opuReleaseKernelDoorbell (dev : Dev) (doorbell_available_index : Finset ℕ) (db_addr : ℕ) :
    Finset ℕ :=
  let inx := db_addr % 2 ^ 32 * 4 / dev.res.doorbell_size
  doorbell_available_index.erase inx

/-- `opu_get_process_doorbells`; index 0 is the kernel's. -/
def opuGetProcessDoorbells (dev : Dev) (doorbell_index : ℕ) : ℕ :=
  (dev.doorbell_base + doorbell_index * opuDoorbellProcessSlice dev.res) % 2 ^ 64

/-- `opu_get_doorbell_dw_offset_in_bar`. -/
def opuGetDoorbellDwOffsetInBar (dev : Dev) (doorbell_index doorbell_id : ℕ) : ℕ :=
  (dev.doorbell_base_dw_offset + doorbell_index * opuDoorbellProcessSlice dev.res / 4 +
    doorbell_id * dev.res.doorbell_size / 4) % 2 ^ 32

/-- `ida_simple_get(ida, start, end)`: the least id from `start` on that is free and below `end`,
which is an `unsigned int` without a limit when it is 0 or too large. -/
def idaSimpleGet (ida : Finset ℕ) (start limit : ℕ) : Option ℕ :=
  let max := (limit + 2 ^ 64 - 1) % 2 ^ 32
  let max := if max ≥ 2 ^ 31 then 2 ^ 31 - 1 else max
  (List.range' start (max + 1 - start)).find? (· ∉ ida)

/-- `opu_alloc_process_doorbells`; `mem` says whether the `ida` gets its memory. -/
def opuAllocProcessDoorbells (dev : Dev) (mem : Bool) (doorbell_ida : Finset ℕ) :
    Option ℕ × Finset ℕ :=
  if mem then
    match idaSimpleGet doorbell_ida 1 dev.max_doorbell_slices with
    | some r => (some r, insert r doorbell_ida)
    | none => (none, doorbell_ida)
  else (none, doorbell_ida)

/-- `opu_free_process_doorbells`. -/
def opuFreeProcessDoorbells (doorbell_ida : Finset ℕ) (doorbell_index : ℕ) : Finset ℕ :=
  if doorbell_index ≠ 0 then doorbell_ida.erase doorbell_index else doorbell_ida

/-! ### Runs -/

/-- The doorbells of a device, and those the kernel has got and not released. -/
structure State where
  doorbell_available_index : Finset ℕ := ∅
  handed : List ℕ := []
  doorbell_ida : Finset ℕ := ∅

/-- The calls. -/
inductive Op where
  | get
  | release (db_addr : ℕ)
  | alloc (mem : Bool)
  | free (doorbell_index : ℕ)

/-- One call; a doorbell or a slice is given back by who has it. -/
inductive State.Step (dev : Dev) (s : State) : Op → State → Prop
  | get : s.Step dev .get
      { s with
        doorbell_available_index := (opuGetKernelDoorbell dev s.doorbell_available_index).2
        handed := (opuGetKernelDoorbell dev s.doorbell_available_index).1.toList.map Prod.fst ++
          s.handed }
  | release {db_addr : ℕ} : db_addr ∈ s.handed → s.Step dev (.release db_addr)
      { s with
        doorbell_available_index :=
          opuReleaseKernelDoorbell dev s.doorbell_available_index db_addr
        handed := s.handed.erase db_addr }
  | alloc (mem : Bool) : s.Step dev (.alloc mem)
      { s with doorbell_ida := (opuAllocProcessDoorbells dev mem s.doorbell_ida).2 }
  | free {doorbell_index : ℕ} : doorbell_index ∈ s.doorbell_ida →
      s.Step dev (.free doorbell_index)
        { s with doorbell_ida := opuFreeProcessDoorbells s.doorbell_ida doorbell_index }

/-- A doorbell that can be handed out. -/
def Available (doorbell_available_index : Finset ℕ) (i : ℕ) : Prop :=
  i < maxNumOfQueuesPerProcess ∧ i ∉ doorbell_available_index

/-- The addresses of a slice. -/
def Slice (dev : Dev) (doorbell_index : ℕ) : Set ℕ :=
  {a | ∃ k < opuDoorbellProcessSlice dev.res,
    a = (opuGetProcessDoorbells dev doorbell_index + k) % 2 ^ 64}

/-- The addresses of the aperture. -/
def Aperture (dev : Dev) : Set ℕ :=
  {a | ∃ k < dev.res.doorbell_aperture_size,
    a = (dev.res.doorbell_physical_address + k) % 2 ^ 64}

/-- **What is handed out is kept apart.** -/
structure State.Apart (dev : Dev) (s : State) : Prop where
  distinct : s.handed.Nodup
  /-- The doorbells of the kernel lie in its slice. -/
  inside : ∀ p ∈ s.handed, 4 * p + dev.res.doorbell_size ≤ opuDoorbellProcessSlice dev.res
  /-- A doorbell is available or handed out. -/
  available : ∀ i < maxNumOfQueuesPerProcess, Available s.doorbell_available_index i ↔
    i * (dev.res.doorbell_size / 4) ∉ s.handed
  /-- A release makes its doorbell available and no other. -/
  release : ∀ p ∈ s.handed, ∀ i,
    Available (opuReleaseKernelDoorbell dev s.doorbell_available_index p) i ↔
      Available s.doorbell_available_index i ∨ i < maxNumOfQueuesPerProcess ∧
        i * (dev.res.doorbell_size / 4) = p
  slices : ∀ i ∈ insert 0 s.doorbell_ida, ∀ j ∈ insert 0 s.doorbell_ida, i ≠ j →
    Disjoint (Slice dev i) (Slice dev j)
  aperture : ∀ i ∈ insert 0 s.doorbell_ida, Slice dev i ⊆ Aperture dev
  /-- The doorbell a process finds in the BAR is in its slice, if an `unsigned int` of dwords
  reaches it. -/
  in_bar : dev.res.doorbell_aperture_size ≤ 2 ^ 34 → ∀ i ∈ insert 0 s.doorbell_ida,
    ∀ doorbell_id < maxNumOfQueuesPerProcess, ∀ b < dev.res.doorbell_size,
      (dev.res.doorbell_physical_address + 4 * opuGetDoorbellDwOffsetInBar dev i doorbell_id +
        b) % 2 ^ 64 ∈ Slice dev i

/-- **A get with no doorbell left fails and changes nothing.** -/
def State.FullGetFails (dev : Dev) (s : State) : Prop :=
  (∀ i, ¬Available s.doorbell_available_index i) →
    opuGetKernelDoorbell dev s.doorbell_available_index = (none, s.doorbell_available_index)

/-- The steps that keep this: a get finds a doorbell. -/
def State.StepOk (s : State) : Op → Prop
  | .get => ∃ i, Available s.doorbell_available_index i
  | _ => True

section

variable {res : Resources} {dev : Dev} {s t : State} {op : Op} {ops : List Op}
variable {max_doorbell_slices : ℕ} {mapped : Bool}

/-! ### Sizes -/

theorem le_roundup {x y : ℕ} (hy : 0 < y) (h : x + y ≤ 2 ^ 64) : x ≤ roundup x y := by
  have hdiv := Nat.div_add_mod' (x + (y - 1)) y
  have hmod := Nat.mod_lt (x + (y - 1)) hy
  unfold roundup
  rw [Nat.mod_eq_of_lt (by omega)]
  omega

/-- A slice has room for 1024 doorbells. -/
theorem slice_spec : res.doorbell_size * 1024 ≤ opuDoorbellProcessSlice res ∧
    0 < opuDoorbellProcessSlice res := by
  have hsize := res.size_lt
  have hpos := res.size_pos
  have hle : res.doorbell_size * 1024 ≤ opuDoorbellProcessSlice res :=
    le_roundup (by decide) (show res.doorbell_size * 1024 + 4096 ≤ 2 ^ 64 by omega)
  exact ⟨hle, by omega⟩

theorem dvd_slice : 4 ∣ opuDoorbellProcessSlice res :=
  Dvd.dvd.mul_left (by decide) _

/-- The dwords of a doorbell. -/
theorem dwords_spec : 0 < res.doorbell_size / 4 ∧
    res.doorbell_size / 4 * 4 = res.doorbell_size := by
  have hpos := res.size_pos
  have hdvd := res.dword_dvd
  omega

/-- **Accepted slices lie in the aperture**, all of them. -/
theorem opuDoorbellInit_spec (h : opuDoorbellInit res max_doorbell_slices mapped = .ok dev) :
    dev.res = res ∧ 0 < dev.max_doorbell_slices ∧ ∃ start, 4 ∣ start ∧
      start + dev.max_doorbell_slices * opuDoorbellProcessSlice res ≤
        res.doorbell_aperture_size ∧
      dev.doorbell_base = (res.doorbell_physical_address + start) % 2 ^ 64 ∧
      dev.doorbell_base_dw_offset = start / 4 := by
  have hslice := (@slice_spec res).2
  unfold opuDoorbellInit at h
  dsimp only at h
  -- both ends of the slices are multiples of their size
  obtain ⟨a, ha⟩ : ∃ a, roundup res.doorbell_start_offset (opuDoorbellProcessSlice res) =
      a * opuDoorbellProcessSlice res := ⟨_, rfl⟩
  obtain ⟨b, hb⟩ : ∃ b, rounddown res.doorbell_aperture_size (opuDoorbellProcessSlice res) =
      b * opuDoorbellProcessSlice res := by
    refine ⟨res.doorbell_aperture_size / opuDoorbellProcessSlice res, ?_⟩
    have hdiv := Nat.div_add_mod' res.doorbell_aperture_size (opuDoorbellProcessSlice res)
    unfold rounddown
    omega
  have hle : b * opuDoorbellProcessSlice res ≤ res.doorbell_aperture_size := by
    rw [← hb]
    exact Nat.sub_le _ _
  rw [ha, hb] at h
  split at h
  · rename_i hlt
    have hab : a < b := Nat.lt_of_mul_lt_mul_right hlt
    have hlimit : (b * opuDoorbellProcessSlice res - a * opuDoorbellProcessSlice res) /
        opuDoorbellProcessSlice res = b - a := by
      rw [← Nat.sub_mul, Nat.mul_div_cancel _ hslice]
    rw [hlimit] at h
    split at h
    · cases h
      dsimp only
      have hmax : ∀ m, m ≤ b - a →
          a * opuDoorbellProcessSlice res + m * opuDoorbellProcessSlice res ≤
            res.doorbell_aperture_size := by
        intro m hm
        rw [← Nat.add_mul]
        exact (Nat.mul_le_mul_right _ (by omega)).trans hle
      refine ⟨rfl, ?_, a * opuDoorbellProcessSlice res, dvd_slice.mul_left a, hmax _ ?_, rfl, rfl⟩
      · split <;> omega
      · split <;> omega
    · cases h
  · cases h

/-- The addresses of a slice, counted from the start of the aperture. -/
theorem mem_slice {start i a : ℕ}
    (hbase : dev.doorbell_base = (dev.res.doorbell_physical_address + start) % 2 ^ 64) :
    a ∈ Slice dev i ↔ ∃ k, start + i * opuDoorbellProcessSlice dev.res ≤ k ∧
      k < start + (i + 1) * opuDoorbellProcessSlice dev.res ∧
        a = (dev.res.doorbell_physical_address + k) % 2 ^ 64 := by
  unfold Slice opuGetProcessDoorbells
  rw [hbase, Nat.add_mul, Nat.one_mul]
  generalize i * opuDoorbellProcessSlice dev.res = m
  constructor
  · rintro ⟨k, hk, rfl⟩
    exact ⟨start + m + k, by omega, by omega, by omega⟩
  · rintro ⟨k, h₁, h₂, rfl⟩
    exact ⟨k - (start + m), by omega, by omega⟩

/-- **Two slices share no address.** -/
theorem disjoint_slices (h : opuDoorbellInit res max_doorbell_slices mapped = .ok dev) {i j : ℕ}
    (hij : i < j) (hj : j < dev.max_doorbell_slices) : Disjoint (Slice dev i) (Slice dev j) := by
  obtain ⟨rfl, -, start, -, hle, hbase, -⟩ := opuDoorbellInit_spec h
  have hlt := dev.res.aperture_lt
  rw [Set.disjoint_left]
  intro a hi hj'
  obtain ⟨k, -, hk, rfl⟩ := (mem_slice hbase).1 hi
  obtain ⟨l, hl, hl', heq⟩ := (mem_slice hbase).1 hj'
  have h₁ : (i + 1) * opuDoorbellProcessSlice dev.res ≤ j * opuDoorbellProcessSlice dev.res :=
    Nat.mul_le_mul_right _ hij
  have h₂ : (j + 1) * opuDoorbellProcessSlice dev.res ≤
      dev.max_doorbell_slices * opuDoorbellProcessSlice dev.res := Nat.mul_le_mul_right _ hj
  omega

/-- A slice lies in the aperture. -/
theorem slice_subset (h : opuDoorbellInit res max_doorbell_slices mapped = .ok dev) {i : ℕ}
    (hi : i < dev.max_doorbell_slices) : Slice dev i ⊆ Aperture dev := by
  obtain ⟨rfl, -, start, -, hle, hbase, -⟩ := opuDoorbellInit_spec h
  intro a ha
  obtain ⟨k, -, hk, rfl⟩ := (mem_slice hbase).1 ha
  have hmul : (i + 1) * opuDoorbellProcessSlice dev.res ≤
      dev.max_doorbell_slices * opuDoorbellProcessSlice dev.res := Nat.mul_le_mul_right _ hi
  exact ⟨k, by omega, rfl⟩

/-- The offset of a doorbell in the BAR leads to its slice. -/
theorem dwOffset_mem_slice (h : opuDoorbellInit res max_doorbell_slices mapped = .ok dev)
    {i doorbell_id b : ℕ} (hbar : dev.res.doorbell_aperture_size ≤ 2 ^ 34)
    (hi : i < dev.max_doorbell_slices) (hid : doorbell_id < 1024)
    (hb : b < dev.res.doorbell_size) :
    (dev.res.doorbell_physical_address + 4 * opuGetDoorbellDwOffsetInBar dev i doorbell_id + b) %
      2 ^ 64 ∈ Slice dev i := by
  obtain ⟨rfl, -, start, hstart, hle, hbase, hdw⟩ := opuDoorbellInit_spec h
  have hslices : (i + 1) * opuDoorbellProcessSlice dev.res ≤
      dev.max_doorbell_slices * opuDoorbellProcessSlice dev.res := Nat.mul_le_mul_right _ hi
  have hids : (doorbell_id + 1) * dev.res.doorbell_size ≤ 1024 * dev.res.doorbell_size :=
    Nat.mul_le_mul_right _ hid
  have hroom := (@slice_spec dev.res).1
  have hi4 : 4 ∣ i * opuDoorbellProcessSlice dev.res := dvd_slice.mul_left i
  have hid4 : 4 ∣ doorbell_id * dev.res.doorbell_size := dev.res.dword_dvd.mul_left _
  rw [mem_slice hbase]
  unfold opuGetDoorbellDwOffsetInBar
  rw [hdw]
  rw [Nat.add_mul, Nat.one_mul] at hslices hids ⊢
  generalize i * opuDoorbellProcessSlice dev.res = m at *
  generalize doorbell_id * dev.res.doorbell_size = d at *
  have hoffset : 4 * ((start / 4 + m / 4 + d / 4) % 2 ^ 32) = start + m + d := by
    rw [Nat.mod_eq_of_lt (by omega)]
    omega
  rw [hoffset]
  exact ⟨start + m + d + b, by omega, by omega, by rw [Nat.add_assoc]⟩

/-! ### The bitmap and the ids -/

/-- `ida_simple_get` gives a free id in its range. -/
theorem idaSimpleGet_spec {ida : Finset ℕ} {start limit r : ℕ} (hlimit : 0 < limit)
    (h : idaSimpleGet ida start limit = some r) : start ≤ r ∧ r < limit ∧ r ∉ ida := by
  unfold idaSimpleGet at h
  dsimp only at h
  have hmem := List.mem_range'_1.1 (List.mem_of_find?_eq_some h)
  have hfree := List.find?_some h
  refine ⟨hmem.1, ?_, by simpa using hfree⟩
  split at hmem <;> omega

/-- What the doorbells and slices in use have in common. -/
structure State.Inv (dev : Dev) (s : State) : Prop where
  nodup : s.handed.Nodup
  bits_lt : ∀ i ∈ s.doorbell_available_index, i < maxNumOfQueuesPerProcess
  /-- A bit that is set stands for the doorbell handed out. -/
  handed : ∀ p, p ∈ s.handed ↔
    ∃ i ∈ s.doorbell_available_index, i * (dev.res.doorbell_size / 4) = p
  ids : ∀ i ∈ s.doorbell_ida, 0 < i ∧ i < dev.max_doorbell_slices

theorem index_inj {i j : ℕ}
    (h : i * (dev.res.doorbell_size / 4) = j * (dev.res.doorbell_size / 4)) : i = j :=
  Nat.eq_of_mul_eq_mul_right dwords_spec.1 h

/-- A doorbell and its index. -/
theorem release_index {i : ℕ} (hi : i < maxNumOfQueuesPerProcess) :
    i * (dev.res.doorbell_size / 4) % 2 ^ 32 * 4 / dev.res.doorbell_size = i := by
  obtain ⟨hpos, hsize⟩ := @dwords_spec dev.res
  have hlt := dev.res.size_lt
  have hle : i * (dev.res.doorbell_size / 4) ≤ 1024 * (dev.res.doorbell_size / 4) :=
    Nat.mul_le_mul_right _ hi.le
  rw [Nat.mod_eq_of_lt (by omega), Nat.mul_assoc, hsize]
  exact Nat.mul_div_cancel _ dev.res.size_pos

/-- The slices in use, the kernel's among them. -/
theorem State.Inv.index_lt (hs : s.Inv dev)
    (h : opuDoorbellInit res max_doorbell_slices mapped = .ok dev) {i : ℕ}
    (hi : i ∈ insert 0 s.doorbell_ida) : i < dev.max_doorbell_slices := by
  rcases Finset.mem_insert.1 hi with rfl | hi
  · exact (opuDoorbellInit_spec h).2.1
  · exact (hs.ids i hi).2

/-- **The invariant keeps apart what is handed out.** -/
theorem State.Inv.apart (h : opuDoorbellInit res max_doorbell_slices mapped = .ok dev)
    (hs : s.Inv dev) : s.Apart dev where
  distinct := hs.nodup
  inside p hp := by
    obtain ⟨i, hi, rfl⟩ := (hs.handed p).1 hp
    have hlt := hs.bits_lt i hi
    have hroom := (@slice_spec dev.res).1
    obtain ⟨-, hsize⟩ := @dwords_spec dev.res
    have hmul : (i + 1) * dev.res.doorbell_size ≤ 1024 * dev.res.doorbell_size :=
      Nat.mul_le_mul_right _ hlt
    calc 4 * (i * (dev.res.doorbell_size / 4)) + dev.res.doorbell_size
        = i * (dev.res.doorbell_size / 4 * 4) + dev.res.doorbell_size := by ring
      _ = (i + 1) * dev.res.doorbell_size := by rw [hsize]; ring
      _ ≤ opuDoorbellProcessSlice dev.res := by omega
  available i hi := by
    rw [hs.handed]
    constructor
    · rintro ⟨-, hfree⟩ ⟨j, hj, hij⟩
      exact hfree (index_inj hij ▸ hj)
    · exact fun hfree => ⟨hi, fun hmem => hfree ⟨i, hmem, rfl⟩⟩
  release p hp i := by
    obtain ⟨j, hj, rfl⟩ := (hs.handed p).1 hp
    have hlt := hs.bits_lt j hj
    unfold Available opuReleaseKernelDoorbell
    dsimp only
    rw [release_index hlt, Finset.mem_erase]
    constructor
    · rintro ⟨hi, hfree⟩
      by_cases hij : i = j
      · exact .inr ⟨hi, by rw [hij]⟩
      · exact .inl ⟨hi, fun hmem => hfree ⟨hij, hmem⟩⟩
    · rintro (⟨hi, hfree⟩ | ⟨hi, hij⟩)
      · exact ⟨hi, fun hmem => hfree hmem.2⟩
      · exact ⟨hi, fun hmem => hmem.1 (index_inj hij)⟩
  slices i hi j hj hij := by
    rcases Nat.lt_or_gt_of_ne hij with hlt | hlt
    · exact disjoint_slices h hlt (hs.index_lt h hj)
    · exact (disjoint_slices h hlt (hs.index_lt h hi)).symm
  aperture i hi := slice_subset h (hs.index_lt h hi)
  in_bar hbar i hi _ hid _ hb := dwOffset_mem_slice h hbar (hs.index_lt h hi) hid hb

/-- A get finds the first doorbell that is available. -/
theorem opuGetKernelDoorbell_of_available {b : Finset ℕ} (h : ∃ i, Available b i) :
    ∃ i off, Available b i ∧ opuGetKernelDoorbell dev b =
      (some (i * (dev.res.doorbell_size / 4), off), insert i b) := by
  obtain ⟨-, hle, hset, hclear⟩ :=
    findNextZeroBit_spec b (Nat.zero_le maxNumOfQueuesPerProcess)
  obtain ⟨j, hj, hfree⟩ := h
  have hlt : findNextZeroBit b maxNumOfQueuesPerProcess 0 < maxNumOfQueuesPerProcess := by
    by_contra hge
    exact hfree (hset j (Nat.zero_le j) (by omega))
  have hget : opuGetKernelDoorbell dev b = _ := if_neg (Nat.not_le.2 hlt)
  exact ⟨_, _, ⟨hlt, hclear hlt⟩, hget⟩

/-- A get with no doorbell left sets the bit behind the bitmap. -/
theorem opuGetKernelDoorbell_of_full {b : Finset ℕ} (h : ∀ i, ¬Available b i) :
    opuGetKernelDoorbell dev b = (none, insert maxNumOfQueuesPerProcess b) := by
  obtain ⟨-, hle, -, hclear⟩ := findNextZeroBit_spec b (Nat.zero_le maxNumOfQueuesPerProcess)
  have heq : findNextZeroBit b maxNumOfQueuesPerProcess 0 = maxNumOfQueuesPerProcess := by
    by_contra hne
    exact h _ ⟨by omega, hclear (by omega)⟩
  unfold opuGetKernelDoorbell
  dsimp only
  rw [heq, if_pos (Nat.le_refl _)]

/-- **A step keeps the invariant.** -/
theorem State.Inv.step (h : opuDoorbellInit res max_doorbell_slices mapped = .ok dev)
    (hs : s.Inv dev) (hok : s.StepOk op) (hstep : s.Step dev op t) : t.Inv dev := by
  cases hstep with
  | get =>
    obtain ⟨i, off, ⟨hi, hfree⟩, hget⟩ := @opuGetKernelDoorbell_of_available dev _ hok
    rw [hget]
    have hnew : i * (dev.res.doorbell_size / 4) ∉ s.handed := by
      rw [hs.handed]
      rintro ⟨j, hj, hij⟩
      exact hfree (index_inj hij ▸ hj)
    refine ⟨List.nodup_cons.2 ⟨hnew, hs.nodup⟩, fun j hj => ?_, fun p => ?_, hs.ids⟩
    · rcases Finset.mem_insert.1 hj with rfl | hj
      · exact hi
      · exact hs.bits_lt j hj
    · show p ∈ i * (dev.res.doorbell_size / 4) :: s.handed ↔ _
      simp only [List.mem_cons, Finset.exists_mem_insert, hs.handed, eq_comm]
  | @release p hp =>
    obtain ⟨i, hi, rfl⟩ := (hs.handed p).1 hp
    have hrelease : opuReleaseKernelDoorbell dev s.doorbell_available_index
        (i * (dev.res.doorbell_size / 4)) = s.doorbell_available_index.erase i := by
      unfold opuReleaseKernelDoorbell
      dsimp only
      rw [release_index (hs.bits_lt i hi)]
    rw [hrelease]
    refine ⟨hs.nodup.erase _, fun j hj => hs.bits_lt j (Finset.mem_of_mem_erase hj), fun p => ?_,
      hs.ids⟩
    rw [hs.nodup.mem_erase_iff, hs.handed]
    constructor
    · rintro ⟨hne, j, hj, rfl⟩
      exact ⟨j, Finset.mem_erase.2 ⟨fun hij => hne (by rw [hij]), hj⟩, rfl⟩
    · rintro ⟨j, hj, rfl⟩
      obtain ⟨hne, hj⟩ := Finset.mem_erase.1 hj
      exact ⟨fun hij => hne (index_inj hij), j, hj, rfl⟩
  | alloc mem =>
    refine ⟨hs.nodup, hs.bits_lt, hs.handed, fun i hi => ?_⟩
    dsimp only at hi
    unfold opuAllocProcessDoorbells at hi
    split at hi
    · split at hi
      · rename_i r hr
        rcases Finset.mem_insert.1 hi with rfl | hi
        · obtain ⟨hpos, hlt, -⟩ := idaSimpleGet_spec (opuDoorbellInit_spec h).2.1 hr
          exact ⟨hpos, hlt⟩
        · exact hs.ids i hi
      · exact hs.ids i hi
    · exact hs.ids i hi
  | free =>
    refine ⟨hs.nodup, hs.bits_lt, hs.handed, fun i hi => hs.ids i ?_⟩
    dsimp only at hi
    unfold opuFreeProcessDoorbells at hi
    split at hi
    · exact Finset.mem_of_mem_erase hi
    · exact hi

theorem State.inv_init : State.Inv dev {} :=
  ⟨List.nodup_nil, fun _ hi => absurd hi (Finset.notMem_empty _), fun p => by simp,
    fun _ hi => absurd hi (Finset.notMem_empty _)⟩

/-- **Doorbells and slices are kept apart in every run**, and a get with no doorbell left fails
without a trace exactly while there is one. -/
theorem State.apart_of_run (h : opuDoorbellInit res max_doorbell_slices mapped = .ok dev)
    (hrun : Run (Guarded StepOk (Step dev)) {} ops s) :
    s.Apart dev ∧ (s.FullGetFails dev ↔ ∃ i, Available s.doorbell_available_index i) := by
  have hinv : s.Inv dev :=
    hrun.inv (I := State.Inv dev) (fun _ _ _ hi hs => hi.step h hs.1 hs.2) inv_init
  refine ⟨hinv.apart h, fun hfails => ?_, fun ⟨i, hi⟩ hfull => absurd hi (hfull i)⟩
  by_contra hfull
  rw [not_exists] at hfull
  have hget : insert maxNumOfQueuesPerProcess s.doorbell_available_index =
      s.doorbell_available_index := by
    have hfails := hfails hfull
    rw [opuGetKernelDoorbell_of_full hfull] at hfails
    exact congrArg Prod.snd hfails
  have hbit : maxNumOfQueuesPerProcess ∈ s.doorbell_available_index :=
    Finset.insert_eq_self.1 hget
  exact absurd (hinv.bits_lt _ hbit) (Nat.lt_irrefl _)

/-- Doorbells of 4 bytes in an aperture of 64 KB, of which another driver has the first 5 KB. -/
def Resources.sample : Resources where
  doorbell_size := 4
  doorbell_physical_address := 0xe0000000
  doorbell_aperture_size := 0x10000
  doorbell_start_offset := 0x1400
  size_pos := by decide
  dword_dvd := by decide
  size_lt := by decide
  aperture_lt := by decide

/-- The device of `Resources.sample`: 14 slices from the third page on. -/
def Dev.sample : Dev where
  res := .sample
  max_doorbell_slices := 14
  doorbell_base := 0xe0002000
  doorbell_base_dw_offset := 0x800

theorem opuDoorbellInit_sample : opuDoorbellInit .sample 0 true = .ok .sample := by
  have hslice : opuDoorbellProcessSlice .sample = 4096 := by decide
  have hstart : roundup Resources.sample.doorbell_start_offset 4096 = 8192 := by decide
  have haperture : rounddown Resources.sample.doorbell_aperture_size 4096 = 65536 := by decide
  unfold opuDoorbellInit
  dsimp only
  rw [hslice, hstart, haperture]
  rfl

/-- Two doorbells and a slice are handed out, and a doorbell is released. -/
theorem State.apart_of_run_two : ∃ s : State, s.handed = [1] ∧ s.doorbell_ida = {1} ∧
    s.Apart .sample ∧ (s.FullGetFails .sample ↔ ∃ i, Available s.doorbell_available_index i) := by
  have hrun : Run (Guarded StepOk (Step .sample)) {} [.get, .get, .alloc true, .release 0] _ :=
    .cons ⟨⟨0, by decide, by decide⟩, .get⟩
      (.cons ⟨⟨2, by decide, by decide⟩, .get⟩
        (.cons ⟨trivial, .alloc true⟩ (.cons ⟨trivial, .release (by decide)⟩ (.nil _))))
  exact ⟨_, by decide, by decide, apart_of_run opuDoorbellInit_sample hrun⟩

/-- As long as there are doorbells, each get finds one. -/
theorem State.run_gets {n : ℕ} (hn : n ≤ maxNumOfQueuesPerProcess) : ∃ s : State,
    Run (Guarded StepOk (Step dev)) {} (List.replicate n .get) s ∧
      s.doorbell_available_index.card = n := by
  induction n with
  | zero => exact ⟨{}, .nil _, rfl⟩
  | succ n ih =>
    obtain ⟨s, hrun, hcard⟩ := ih (by omega)
    have hfree : ∃ i, Available s.doorbell_available_index i := by
      obtain ⟨i, hi, hfree⟩ := Finset.exists_mem_notMem_of_card_lt_card
        (show s.doorbell_available_index.card < (Finset.range maxNumOfQueuesPerProcess).card by
          rw [hcard, Finset.card_range]
          omega)
      exact ⟨i, Finset.mem_range.1 hi, hfree⟩
    obtain ⟨i, off, ⟨-, hclear⟩, hget⟩ := @opuGetKernelDoorbell_of_available dev _ hfree
    have hnext : Run (Guarded StepOk (Step dev)) {} (List.replicate n .get ++ [.get]) _ :=
      hrun.snoc ⟨(show s.StepOk .get from hfree), .get⟩
    rw [← List.replicate_succ'] at hnext
    refine ⟨_, hnext, ?_⟩
    show (opuGetKernelDoorbell dev s.doorbell_available_index).2.card = n + 1
    rw [hget, Finset.card_insert_of_notMem hclear, hcard]

/-- **The 1025th get sets a bit behind the bitmap.** -/
theorem State.full_get_sets_a_bit : ∃ s : State,
    Run (Step .sample) {} (List.replicate 1024 .get) s ∧
      (opuGetKernelDoorbell .sample s.doorbell_available_index).1 = none ∧
      1024 ∉ s.doorbell_available_index ∧
      1024 ∈ (opuGetKernelDoorbell .sample s.doorbell_available_index).2 ∧
      ¬s.FullGetFails .sample := by
  obtain ⟨s, hrun, hcard⟩ := @run_gets .sample 1024 (Nat.le_refl _)
  have hinv : s.Inv .sample := hrun.inv (I := State.Inv .sample)
    (fun _ _ _ hi hs => hi.step opuDoorbellInit_sample hs.1 hs.2) inv_init
  have hall : s.doorbell_available_index = Finset.range 1024 :=
    Finset.eq_of_subset_of_card_le (fun i hi => Finset.mem_range.2 (hinv.bits_lt i hi))
      (by rw [hcard, Finset.card_range])
  have hfull : ∀ i, ¬Available s.doorbell_available_index i := by
    rintro i ⟨hi, hfree⟩
    exact hfree (hall ▸ Finset.mem_range.2 hi)
  have hget := @opuGetKernelDoorbell_of_full .sample _ hfull
  have hbit : 1024 ∉ s.doorbell_available_index := by
    rw [hall, Finset.mem_range]
    exact Nat.lt_irrefl _
  refine ⟨s, hrun.mono fun _ _ _ hs => hs.2, by rw [hget], hbit, ?_, fun hfails => ?_⟩
  · rw [hget]
    exact Finset.mem_insert_self ..
  · have hsame := congrArg Prod.snd (hget.symm.trans (hfails hfull))
    exact hbit (Finset.insert_eq_self.1 hsame)

end

end Codrive.Doorbell
