/-
# What the allocation map is for

`Spec` is the runtime as its callers see it: the live allocations by their base addresses, each with
its notifiers as a multiset, and the calls to `FreeMemory` on their way.  `State.abs` reads it off
the runtime's state, and `Inv` is what holds in the states of a run.

A pointer is in at most one allocation, because regions hand out memory that nobody has
(`Regions.Rounds`).  That is why the entry before `upper_bound` is the right one
(`Inv.floor_of_contains`).
-/

import Codrive.Runtime.Memory

namespace Codrive.Runtime

open Codrive.Basis

/-! ### The abstract runtime -/

/-- A live allocation. -/
structure Allocation where
  region : ℕ
  size : ℕ
  notifiers : Multiset Notifier

/-- A call to `FreeMemory` that has taken an allocation out of the map. -/
structure Freeing where
  ptr : ℕ
  region : ℕ
  size : ℕ
  todo : Multiset Notifier
  called : Multiset Notifier
  phase : Phase

/-- A notifier is called. -/
def Freeing.call (f : Freeing) (n : Notifier) (todo : Multiset Notifier) (throws : Bool) :
    Freeing :=
  { f with
    todo
    called := n ::ₘ f.called
    phase := if throws then .thrown else .notifying }

/-- The runtime, as its callers see it. -/
structure Spec where
  live : ℕ → Option Allocation := fun _ => none
  frees : List Freeing := []

/-- The pointer is in the allocation `A` at the address `a`. -/
def Spec.Contains (S : Spec) (ptr a : ℕ) (A : Allocation) : Prop :=
  S.live a = some A ∧ a ≤ ptr ∧ ptr < a + A.size

/-- The allocation at an address has become this one. -/
def Spec.set (S : Spec) (a : ℕ) (A : Option Allocation) : Spec :=
  { S with live := Function.update S.live a A }

/-- **What the calls do.** -/
inductive Spec.Step : Spec → Op × Result → Spec → Prop
  | allocated {S : Spec} {region size flags} {answer : Answer} (h : answer.status = .success)
      (hsize : size ≤ answer.size) (hnew : S.live answer.address = none) :
    Step S (.allocate region size flags answer, .status .success)
      (S.set answer.address (some ⟨region, answer.size, 0⟩))
  | failed {S region size flags} {answer : Answer} (h : answer.status ≠ .success) :
    Step S (.allocate region size flags answer, .status answer.status) S
  | freeNull {S answer} : Step S (.free 0 answer, .status .success) S
  | freeUnknown {S : Spec} {ptr answer} (hptr : ptr ≠ 0) (h : S.live ptr = none) :
    Step S (.free ptr answer, .status .invalidAllocation) S
  | free {S : Spec} {ptr answer A} (hptr : ptr ≠ 0) (h : S.live ptr = some A)
      (hA : A.notifiers = 0) :
    Step S (.free ptr answer, .status answer)
      { S.set ptr none with
        frees := S.frees ++ [⟨ptr, A.region, A.size, 0, 0, .released⟩] }
  | freeNotifying {S : Spec} {ptr answer A} (hptr : ptr ≠ 0) (h : S.live ptr = some A) :
    Step S (.free ptr answer, .notifying)
      { S.set ptr none with
        frees := S.frees ++ [⟨ptr, A.region, A.size, A.notifiers, 0, .notifying⟩] }
  | notify {S : Spec} {i} {throws : Bool} {f n todo} (h : S.frees[i]? = some f)
      (hf : f.phase = .notifying) (hn : f.todo = n ::ₘ todo) :
    Step S (.notify i throws, .called n)
      { S with frees := S.frees.set i (f.call n todo throws) }
  | release {S : Spec} {i answer f} (h : S.frees[i]? = some f) (hf : f.phase = .notifying)
      (hn : f.todo = 0) :
    Step S (.release i answer, .status answer)
      { S with frees := S.frees.set i { f with phase := .released } }
  | register {S : Spec} {ptr callback user_data a A} (h : S.Contains ptr a A) :
    Step S (.register ptr callback user_data, .status .success)
      (S.set a (some { A with notifiers := ⟨ptr, callback, user_data⟩ ::ₘ A.notifiers }))
  | registerOutside {S : Spec} {ptr callback user_data} (h : ∀ a A, ¬S.Contains ptr a A) :
    Step S (.register ptr callback user_data, .status .invalidAllocation) S
  | deregister {S : Spec} {ptr callback a A} (h : S.Contains ptr a A)
      (hn : ∃ n ∈ A.notifiers, n.matches ptr callback = true) :
    Step S (.deregister ptr callback, .status .success)
      (S.set a (some { A with
        notifiers := A.notifiers.filter fun n => n.matches ptr callback = false }))
  | deregisterUnknown {S : Spec} {ptr callback}
      (h : ∀ a A, S.Contains ptr a A → ∀ n ∈ A.notifiers, n.matches ptr callback = false) :
    Step S (.deregister ptr callback, .status .invalidArgument) S
  | queryInvalid {S ptr err thunkInfo block_info} :
    Step S (.query ptr 0 err thunkInfo block_info, .info .invalidArgument none) S
  | query {S : Spec} {ptr size err thunkInfo block_info a A} {info : PointerInfo}
      (h : S.Contains ptr a A) (ha : info.agentBaseAddress = a) (hb : info.hostBaseAddress = a)
      (hsize : info.sizeInBytes = A.size) :
    Step S (.query ptr size err thunkInfo block_info, .info .success (some info)) S
  | queryOutside {S : Spec} {ptr size err} {thunkInfo : HsaPointerInfo} {block_info}
      {info : PointerInfo} (h : ∀ a A, ¬S.Contains ptr a A)
      (ha : info.agentBaseAddress = thunkInfo.GPUAddress)
      (hb : info.hostBaseAddress = thunkInfo.CPUAddress)
      (hsize : info.sizeInBytes = thunkInfo.SizeInBytes) :
    Step S (.query ptr size err thunkInfo block_info, .info .success (some info)) S

/-! ### The runtime's state, read so -/

/-- What the entry is for its callers. -/
def AllocationRegion.abs (mem : AllocationRegion) : Option Allocation :=
  mem.region.map fun region => ⟨region, mem.size, (mem.notifiers.getD [] : Multiset Notifier)⟩

def FreeCall.abs (f : FreeCall) : Freeing where
  ptr := f.ptr
  region := f.region
  size := f.size
  todo := (f.notifiers.drop f.called.length : Multiset Notifier)
  called := (f.called : Multiset Notifier)
  phase := f.phase

/-- **The runtime, as its callers see it.** -/
def State.abs (s : State) : Spec where
  live a := (s.allocation_map.find? a).bind AllocationRegion.abs
  frees := s.frees.map FreeCall.abs

/-- The memory in the map. -/
def blocks (m : AllocationMap) : Multiset Block :=
  (m.entries.map fun e => ⟨e.2.region.getD 0, e.1, e.2.size⟩ : List Block)

/-- The memory that calls to `FreeMemory` have not given back. -/
def pending (frees : List FreeCall) : Multiset Block :=
  ((frees.filter fun f => f.phase ≠ .released).map FreeCall.block : List Block)

/-- **What a region may hand out**: as much as is asked for, or more, of what nobody has. -/
structure Regions.Rounds (R : Regions) : Prop where
  size_le : ∀ {held region size flags a n}, R held region size flags ⟨.success, a, n⟩ → size ≤ n
  ne_null : ∀ {held region size flags a n}, R held region size flags ⟨.success, a, n⟩ → a ≠ 0
  lt : ∀ {held region size flags a n}, R held region size flags ⟨.success, a, n⟩ → a + n < 2 ^ 64
  apart : ∀ {held region size flags a n}, R held region size flags ⟨.success, a, n⟩ →
    ∀ b ∈ held, a ≠ b.address ∧ (a + n ≤ b.address ∨ b.address + b.size ≤ a)

/-! ### The invariant -/

/-- The entries of the map: memory that is there, and apart from the others'. -/
structure Apart (m : AllocationMap) : Prop where
  region : ∀ {a mem}, m.find? a = some mem → mem.region.isSome = true
  ne_null : ∀ {a mem}, m.find? a = some mem → a ≠ 0
  lt : ∀ {a mem}, m.find? a = some mem → a + mem.size < 2 ^ 64
  apart : ∀ {a mem b mem'}, m.find? a = some mem → m.find? b = some mem' → a < b →
    a + mem.size ≤ b

/-- **The invariant.** -/
structure Inv (s : State) : Prop where
  apart : Apart s.allocation_map
  gone : ∀ f ∈ s.frees, f.phase ≠ .released → s.allocation_map.find? f.ptr = none
  called : ∀ f ∈ s.frees, f.called <+: f.notifiers ∧
    (f.phase = .released → f.called = f.notifiers)
  books : s.handed = s.returned + (blocks s.allocation_map + pending s.frees)

variable {s : State} {m : AllocationMap} {ptr a : ℕ} {mem : AllocationRegion} {A : Allocation}

theorem abs_eq_some (h : mem.abs = some A) :
    ∃ region, mem.region = some region ∧
      A = ⟨region, mem.size, (mem.notifiers.getD [] : Multiset Notifier)⟩ := by
  obtain ⟨region, hregion, rfl⟩ := Option.map_eq_some_iff.1 h
  exact ⟨region, hregion, rfl⟩

/-- What regions have of the runtime is in the map or on its way back. -/
theorem Inv.held (h : Inv s) : s.held = blocks s.allocation_map + pending s.frees := by
  unfold State.held
  rw [h.books]
  exact add_tsub_cancel_left _ _

theorem Apart.inRange_iff (h : Apart m) (hmem : m.find? a = some mem) :
    inRange ptr (a, mem) = true ↔ a ≤ ptr ∧ ptr < a + mem.size := by
  unfold inRange
  rw [u64_of_lt (h.lt hmem), Bool.and_eq_true, decide_eq_true_eq, decide_eq_true_eq]

/-- **The entry before `upper_bound`** is the one the pointer is in. -/
theorem Apart.floor_of_inRange (h : Apart m) (hmem : m.find? a = some mem)
    (hin : inRange ptr (a, mem) = true) : m.floor? ptr = some (a, mem) := by
  obtain ⟨hle, hlt⟩ := (h.inRange_iff hmem).1 hin
  cases hfloor : m.floor? ptr with
  | none =>
    have hgt := OrderedMap.floor?_eq_none hfloor _ (OrderedMap.find?_eq_some_iff.1 hmem)
    exact absurd hle (Nat.not_le.2 hgt)
  | some e =>
    obtain ⟨hfind, hb, hmax⟩ := OrderedMap.floor?_eq_some hfloor
    have hab : a ≤ e.1 := hmax _ (OrderedMap.find?_eq_some_iff.1 hmem) hle
    rcases Nat.eq_or_lt_of_le hab with rfl | hab
    · rw [Option.some.inj (hmem.symm.trans hfind)]
    · have := h.apart hmem hfind hab
      omega

end Codrive.Runtime
