/-
# Asynchronous copies

A device works on the copies that it has been given, in any order and byte by byte.  A copy starts
when the signal that it depends on has been observed with the value 0, and decrements its completion
signal when all its bytes have been moved.

Two parts of the state are there for the statements alone: `held` is what a region holds that has
not been copied on, and `extent` is where the bytes of a region that have been touched end.
-/

import Mathlib.Algebra.GroupWithZero.Nat
import Mathlib.Data.Finset.Card
import Mathlib.Data.Finset.Range
import Mathlib.Logic.Function.Basic
import Mathlib.Order.Lattice
import Mathlib.Tactic.Common

namespace Codrive.Basis

/-- A copy that a device has been given; `todo` are the offsets of the bytes that it has not moved
yet. -/
structure AsyncCopy (ρ κ : Type) where
  dst : ρ × ℕ
  src : ρ × ℕ
  size : ℕ
  dep : Option κ
  completion : κ
  todo : Finset ℕ

/-- Memory in regions, signals, and the copies that have not finished. -/
structure CopyDevice (ρ κ : Type) where
  mem : ρ → ℕ → UInt8
  signal : κ → ℤ
  running : List (AsyncCopy ρ κ)
  held : ρ → Option ℕ
  extent : ρ → ℕ

namespace CopyDevice

variable {ρ κ : Type} [DecidableEq ρ] [DecidableEq κ]

/-- The extents, when some bytes from a place on have been touched. -/
def touch (extent : ρ → ℕ) (place : ρ × ℕ) (size : ℕ) : ρ → ℕ :=
  Function.update extent place.1 (max (extent place.1) (place.2 + size))

/-- A bound that the touched bytes meet is kept. -/
theorem touch_le {extent : ρ → ℕ} {place : ρ × ℕ} {size bound : ℕ} {r : ρ} (h : extent r ≤ bound)
    (hplace : place.1 = r → place.2 + size ≤ bound) : touch extent place size r ≤ bound := by
  rw [touch, Function.update_apply]
  split
  · rename_i heq
    subst heq
    exact max_le h (hplace rfl)
  · exact h

/-- What has been touched stays so. -/
theorem le_touch (extent : ρ → ℕ) (place : ρ × ℕ) (size : ℕ) (r : ρ) :
    extent r ≤ touch extent place size r := by
  rw [touch, Function.update_apply]
  split
  · rename_i heq
    subst heq
    exact le_max_left _ _
  · exact Nat.le_refl _

/-- The bytes that are touched. -/
theorem add_le_touch (extent : ρ → ℕ) (place : ρ × ℕ) (size : ℕ) :
    place.2 + size ≤ touch extent place size place.1 := by
  rw [touch, Function.update_self]
  exact le_max_right _ _

/-- A signal is set. -/
def store (s : CopyDevice ρ κ) (signal : κ) (value : ℤ) : CopyDevice ρ κ :=
  { s with signal := Function.update s.signal signal value }

/-- The host copies. -/
def memcpy (s : CopyDevice ρ κ) (dst src : ρ × ℕ) (size : ℕ) : CopyDevice ρ κ :=
  { s with
    mem := fun r x =>
      if r = dst.1 ∧ dst.2 ≤ x ∧ x < dst.2 + size then s.mem src.1 (src.2 + (x - dst.2))
      else s.mem r x
    held := Function.update (Function.update s.held dst.1 (some src.2)) src.1 none
    extent := touch (touch s.extent src size) dst size }

/-- The device is given a copy.  One of no bytes is not performed. -/
def asyncCopy (s : CopyDevice ρ κ) (dst src : ρ × ℕ) (size : ℕ) (dep : Option κ)
    (completion : κ) : CopyDevice ρ κ :=
  if size = 0 then s
  else
    { s with
      running := s.running ++ [⟨dst, src, size, dep, completion, Finset.range size⟩]
      held := Function.update s.held dst.1 (some src.2)
      extent := touch (touch s.extent src size) dst size }

section Extent

variable (s : CopyDevice ρ κ) (dst src : ρ × ℕ) (size : ℕ) (dep : Option κ) (completion : κ)

theorem extent_le_memcpy (r : ρ) : s.extent r ≤ (s.memcpy dst src size).extent r :=
  (le_touch _ _ _ _).trans (le_touch _ _ _ _)

theorem add_le_extent_memcpy : dst.2 + size ≤ (s.memcpy dst src size).extent dst.1 :=
  add_le_touch _ _ _

theorem extent_le_asyncCopy (r : ρ) :
    s.extent r ≤ (s.asyncCopy dst src size dep completion).extent r := by
  rw [asyncCopy]
  split
  · exact Nat.le_refl _
  · exact (le_touch _ _ _ _).trans (le_touch _ _ _ _)

theorem add_le_extent_asyncCopy (h : dst.2 ≤ s.extent dst.1) :
    dst.2 + size ≤ (s.asyncCopy dst src size dep completion).extent dst.1 := by
  rw [asyncCopy]
  split
  · rename_i hzero
    rw [hzero]
    exact h
  · exact add_le_touch _ _ _

end Extent

/-- The device has been given a copy, and its completion signal has been set to 1 before. -/
structure Given (s : CopyDevice ρ κ) (c : AsyncCopy ρ κ) (t : CopyDevice ρ κ) : Prop where
  mem : t.mem = s.mem
  signal : t.signal = Function.update s.signal c.completion 1
  running : t.running = s.running ++ [c]
  held : t.held = Function.update s.held c.dst.1 (some c.src.2)
  extent : t.extent = touch (touch s.extent c.src c.size) c.dst c.size

theorem given_asyncCopy (s : CopyDevice ρ κ) (dst src : ρ × ℕ) {size : ℕ} (h : size ≠ 0)
    (dep : Option κ) (completion : κ) :
    s.Given ⟨dst, src, size, dep, completion, Finset.range size⟩
      ((s.store completion 1).asyncCopy dst src size dep completion) := by
  rw [asyncCopy, if_neg h]
  exact ⟨rfl, rfl, rfl, rfl, rfl⟩

/-- A step of the device. -/
inductive Step (s : CopyDevice ρ κ) : CopyDevice ρ κ → Prop
  /-- A copy observes that the signal that it depends on is 0. -/
  | start {front back : List (AsyncCopy ρ κ)} {c : AsyncCopy ρ κ} {d : κ}
      (hrunning : s.running = front ++ c :: back) (hdep : c.dep = some d) (hzero : s.signal d = 0) :
      Step s { s with running := front ++ { c with dep := none } :: back }
  /-- A copy moves a byte. -/
  | move {front back : List (AsyncCopy ρ κ)} {c : AsyncCopy ρ κ} {i : ℕ}
      (hrunning : s.running = front ++ c :: back) (hdep : c.dep = none) (hi : i ∈ c.todo) :
      Step s { s with
        mem := Function.update s.mem c.dst.1
          (Function.update (s.mem c.dst.1) (c.dst.2 + i) (s.mem c.src.1 (c.src.2 + i)))
        running := front ++ { c with todo := c.todo.erase i } :: back }
  /-- A copy finishes. -/
  | finish {front back : List (AsyncCopy ρ κ)} {c : AsyncCopy ρ κ}
      (hrunning : s.running = front ++ c :: back) (hdep : c.dep = none) (htodo : c.todo = ∅) :
      Step s { s with
        signal := Function.update s.signal c.completion (s.signal c.completion - 1)
        running := front ++ back
        held := Function.update s.held c.src.1 none }

end CopyDevice

/-! ### The device comes to an end -/

/-- The steps that a copy still takes. -/
def AsyncCopy.work {ρ κ : Type} (c : AsyncCopy ρ κ) : ℕ :=
  c.todo.card + 1 + if c.dep.isSome then 1 else 0

namespace CopyDevice

variable {ρ κ : Type} [DecidableEq ρ] [DecidableEq κ] {s t : CopyDevice ρ κ}

/-- The steps that the device still takes. -/
def work (s : CopyDevice ρ κ) : ℕ := (s.running.map AsyncCopy.work).sum

theorem work_of_running {front back : List (AsyncCopy ρ κ)} {c : AsyncCopy ρ κ}
    (h : s.running = front ++ c :: back) :
    s.work = (front.map AsyncCopy.work).sum + (c.work + (back.map AsyncCopy.work).sum) := by
  rw [work, h, List.map_append, List.sum_append, List.map_cons, List.sum_cons]

theorem Given.work_eq {c : AsyncCopy ρ κ} (h : s.Given c t) : t.work = s.work + c.work := by
  rw [work, work, h.running, List.map_append, List.sum_append, List.map_cons, List.map_nil,
    List.sum_singleton]

/-- **Every step of the device** leaves it less to do. -/
theorem Step.work_lt (h : s.Step t) : t.work < s.work := by
  cases h with
  | start hrunning hdep hzero =>
    rw [work_of_running hrunning, work_of_running rfl]
    simp [AsyncCopy.work, hdep]
  | move hrunning hdep hi =>
    rw [work_of_running hrunning, work_of_running rfl]
    have := Finset.card_erase_lt_of_mem hi
    simp only [AsyncCopy.work]
    omega
  | finish hrunning hdep htodo =>
    rw [work_of_running hrunning, work, List.map_append, List.sum_append, AsyncCopy.work]
    omega

/-- A device that has nothing to do takes no step. -/
theorem Step.running_ne_nil (h : s.Step t) : s.running ≠ [] := by
  intro hnil
  have hzero : s.work = 0 := by
    rw [work, hnil]
    rfl
  have := h.work_lt
  omega

theorem Step.extent_eq (h : s.Step t) : t.extent = s.extent := by
  cases h <;> rfl

/-- **The device can take a step**, if what a copy depends on is 0 or some copy depends on
nothing. -/
theorem exists_step (hne : s.running ≠ [])
    (hdep : ∀ c ∈ s.running, ∀ d, c.dep = some d →
      s.signal d = 0 ∨ ∃ c' ∈ s.running, c'.dep = none) : ∃ t, s.Step t := by
  have hnone : ∀ c ∈ s.running, c.dep = none → ∃ t, s.Step t := fun c hc hdep => by
    obtain ⟨front, back, hrunning⟩ := List.append_of_mem hc
    obtain htodo | ⟨i, hi⟩ := c.todo.eq_empty_or_nonempty
    · exact ⟨_, .finish hrunning hdep htodo⟩
    · exact ⟨_, .move hrunning hdep hi⟩
  obtain ⟨c, hc⟩ := List.exists_mem_of_ne_nil _ hne
  cases hd : c.dep with
  | none => exact hnone c hc hd
  | some d =>
    obtain hzero | ⟨c', hc', hdep'⟩ := hdep c hc d hd
    · obtain ⟨front, back, hrunning⟩ := List.append_of_mem hc
      exact ⟨_, .start hrunning hd hzero⟩
    · exact hnone c' hc' hdep'

end CopyDevice

end Codrive.Basis
