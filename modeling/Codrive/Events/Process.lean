/-
# The events of a process

`src/src/cmdio/linux/opu_events.c` and `opu_events.h`: the events of a process, the ids they get
and the page of signal slots.  A signal or debug event has a slot in the page, and its id is the
number of the slot; the ids of all other events are in the upper half of the id space.

| here | source |
|---|---|
| `OrderedMap ℕ Event` | `event_idr` |
| `none` as a page | `signal_page == NULL` |
| `(w, i)` in `wq` | the entry of waiter `i` of the wait `w` |

What is allocated is an argument: whether `kzalloc`, `__get_free_pages` and `idr_alloc` get memory.
-/

import Codrive.Basis.OrderedMap
import Mathlib.Algebra.GroupWithZero.Nat
import Mathlib.Algebra.Ring.Int.Defs
import Mathlib.Data.List.Range
import Mathlib.Order.Nat

namespace Codrive.Events

open Codrive.Basis

/-- The error numbers of the event functions. -/
inductive Errno where
  | enomem | enospc | einval | ebusy | efault | eintr | erestartsys | eio
  deriving DecidableEq, Repr

/-- `OPU_EVENT_TYPE_*`. -/
inductive EventType where
  | signal | hwException | debug | memory
  | other (type : ℕ)
  deriving DecidableEq, Repr

/-- The types with a slot: `event_can_be_gpu_signaled`. -/
def EventType.isSignal : EventType → Bool
  | .signal | .debug => true
  | _ => false

/-- `struct opu_event`. -/
structure Event where
  event_id : ℕ
  type : EventType
  auto_reset : Bool
  signaled : Bool := false
  wq : List (ℕ × ℕ) := []
  deriving DecidableEq, Repr

/-- `event_can_be_gpu_signaled`. -/
def eventCanBeGpuSignaled (ev : Event) : Bool := ev.type.isSignal

/-- `event_can_be_cpu_signaled`. -/
def eventCanBeCpuSignaled (ev : Event) : Bool := ev.type = .signal

/-- `OPU_SIGNAL_EVENT_LIMIT`. -/
def signalEventLimit : ℕ := 4096

/-- `INT_MAX`. -/
def intMax : ℕ := 2 ^ 31 - 1

/-- `OPU_FIRST_NONSIGNAL_EVENT_ID`. -/
def firstNonsignalEventId : ℕ := intMax / 2 + 1

/-- `OPU_LAST_NONSIGNAL_EVENT_ID`. -/
def lastNonsignalEventId : ℕ := intMax

/-- `UNSIGNALED_EVENT_SLOT`. -/
def unsignaledEventSlot : ℕ := 2 ^ 64 - 1

/-- `OPU_MMAP_TYPE_EVENTS`. -/
def mmapTypeEvents : ℕ := 2 * 2 ^ 62

/-- `struct opu_signal_page`: the memory from `kernel_address` on, of which `size` bytes belong to
the page. -/
structure SignalPage where
  size : ℕ
  slots : ℕ → ℕ
  /-- A write went past the end. -/
  overrun : Bool := false

/-- `page_slots(page)[id] = value`. -/
def SignalPage.write (page : SignalPage) (id value : ℕ) : SignalPage :=
  { page with
    slots := Function.update page.slots id value
    overrun := page.overrun || page.size < (id + 1) * 8 }

/-- `memset(kernel_address, UNSIGNALED_EVENT_SLOT, OPU_SIGNAL_EVENT_LIMIT * 8)`. -/
def SignalPage.clear (page : SignalPage) : SignalPage :=
  { page with
    slots := fun id => if id < signalEventLimit then unsignaledEventSlot else page.slots id
    overrun := page.overrun || page.size < signalEventLimit * 8 }

/-- What `struct opu_process` keeps of its events. -/
structure Process where
  event_idr : OrderedMap ℕ Event := .empty
  signal_page : Option SignalPage := none
  signal_mapped_size : ℕ := 0
  signal_event_count : ℤ := 0

/-- What a call gets. -/
structure Memory where
  /-- `kzalloc` of the event or of the page's descriptor. -/
  object : Bool := true
  /-- `allocate_signal_page`. -/
  page : Bool := true
  /-- The memory of `idr_alloc`. -/
  idr : Bool := true

/-- A `size_t` as an argument of type `int`. -/
def toInt (n : ℕ) : ℤ := if n % 2 ^ 32 < 2 ^ 31 then n % 2 ^ 32 else n % 2 ^ 32 - 2 ^ 32

/-- The largest id `idr_alloc` gives: an `end` that is not positive stands for no limit but
`INT_MAX`. -/
def idrMax (limit : ℤ) : ℕ := if limit > 0 then limit.toNat - 1 else intMax

/-- `idr_alloc(idr, ptr, start, end)`: the least free id from `start` on, which one of the first
`n + 1` is when there are `n` entries. -/
def idrAlloc (mem : Memory) (idr : OrderedMap ℕ Event) (start : ℕ) (limit : ℤ) : Except Errno ℕ :=
  if !mem.idr then .error .enomem
  else
    match (List.range (idr.entries.length + 1)).find? fun k => (idr.find? (start + k)).isNone with
    | some k => if start + k ≤ idrMax limit then .ok (start + k) else .error .enospc
    | none => .error .enospc

/-- The page of `allocate_signal_page`. -/
def allocateSignalPage : SignalPage :=
  SignalPage.clear { size := signalEventLimit * 8, slots := fun _ => 0 }

/-- The page a signal event finds: `if (!p->signal_page) p->signal_page = ...`. -/
def ensureSignalPage (mem : Memory) (p : Process) : Except Errno (SignalPage × Process) :=
  match p.signal_page with
  | some page => .ok (page, p)
  | none =>
    if mem.page then
      .ok (allocateSignalPage,
        { p with signal_page := some allocateSignalPage, signal_mapped_size := 256 * 8 })
    else .error .enomem

/-- `allocate_event_notification_slot`. -/
def allocateEventNotificationSlot (mem : Memory) (p : Process) (ev : Event) :
    Except Errno ℕ × Process :=
  match ensureSignalPage mem p with
  | .error e => (.error e, p)
  | .ok (page, p) =>
    match idrAlloc mem p.event_idr 0 (toInt (p.signal_mapped_size / 8)) with
    | .error e => (.error e, p)
    | .ok id =>
      (.ok id, { p with
        event_idr := p.event_idr.set id { ev with event_id := id }
        signal_page := some (page.write id unsignaledEventSlot) })

/-- `create_signal_event`. -/
def createSignalEvent (mem : Memory) (p : Process) (ev : Event) : Except Errno ℕ × Process :=
  if p.signal_mapped_size ≠ 0 ∧ p.signal_event_count = ((p.signal_mapped_size / 8 : ℕ) : ℤ) then
    (.error .enospc, p)
  else
    match allocateEventNotificationSlot mem p ev with
    | (.error e, p) => (.error e, p)
    | (.ok id, p) => (.ok id, { p with signal_event_count := p.signal_event_count + 1 })

/-- `create_other_event`: the end of its range overflows to `INT_MIN`. -/
def createOtherEvent (mem : Memory) (p : Process) (ev : Event) : Except Errno ℕ × Process :=
  match idrAlloc mem p.event_idr firstNonsignalEventId (toInt (lastNonsignalEventId + 1)) with
  | .error e => (.error e, p)
  | .ok id => (.ok id, { p with event_idr := p.event_idr.set id { ev with event_id := id } })

/-- What `opu_event_create` writes for its caller. -/
structure Created where
  event_id : ℕ
  event_trigger_data : ℕ
  event_page_offset : ℕ
  /-- Written for signal and debug events only. -/
  event_slot_index : Option ℕ
  deriving DecidableEq, Repr

/-- `opu_event_create`. -/
def opuEventCreate (mem : Memory) (p : Process) (type : EventType) (auto_reset : Bool) :
    Except Errno Created × Process :=
  if !mem.object then (.error .enomem, p)
  else
    let ev : Event := { event_id := 0, type, auto_reset }
    match type with
    | .signal | .debug =>
      match createSignalEvent mem p ev with
      | (.error e, p) => (.error e, p)
      | (.ok id, p) => (.ok {
          event_id := id
          event_trigger_data := id
          event_page_offset := mmapTypeEvents
          event_slot_index := some id }, p)
    | _ =>
      match createOtherEvent mem p ev with
      | (.error e, p) => (.error e, p)
      | (.ok id, p) => (.ok {
          event_id := id
          event_trigger_data := id
          event_page_offset := 0
          event_slot_index := none }, p)

/-- `lookup_event_by_id`. -/
def lookupEventById (p : Process) (id : ℕ) : Option Event := p.event_idr.find? id

/-- `destroy_event`, its waiters apart. -/
def destroyEvent (p : Process) (ev : Event) : Process :=
  { p with
    signal_event_count := p.signal_event_count - if ev.type.isSignal then 1 else 0
    event_idr := p.event_idr.erase ev.event_id }

/-- `opu_event_destroy`. -/
def opuEventDestroy (p : Process) (event_id : ℕ) : Option Errno × Process :=
  match lookupEventById p event_id with
  | some ev => (none, destroyEvent p ev)
  | none => (some .einval, p)

/-- `set_event`, its waiters apart: an event that resets itself stays unsignaled when a waiter is
woken. -/
def setEvent (ev : Event) : Event := { ev with signaled := !ev.auto_reset || ev.wq.isEmpty }

/-- `opu_event_page_set` of a buffer of `size` bytes that holds `slots`. -/
def opuEventPageSet (mem : Memory) (p : Process) (slots : ℕ → ℕ) (size : ℕ) :
    Option Errno × Process :=
  match p.signal_page with
  | some _ => (some .ebusy, p)
  | none =>
    if !mem.object then (some .enomem, p)
    else
      (none, { p with
        signal_page := some (SignalPage.clear { size, slots })
        signal_mapped_size := size })

/-! ### What an allocation gives -/

section

variable {mem : Memory} {idr : OrderedMap ℕ Event} {start id : ℕ} {limit : ℤ}

/-- **`idr_alloc` gives a free id** in its range. -/
theorem idrAlloc_spec (h : idrAlloc mem idr start limit = .ok id) :
    start ≤ id ∧ idr.find? id = none ∧ id ≤ idrMax limit := by
  unfold idrAlloc at h
  split at h
  · cases h
  split at h
  · rename_i k hk
    split at h
    · cases h
      have hfree := List.find?_some hk
      simp only [Option.isNone_iff_eq_none] at hfree
      exact ⟨Nat.le_add_right .., hfree, by assumption⟩
    · cases h
  · cases h

/-- `opu_event_create` is one of the two creations. -/
theorem opuEventCreate_snd {p : Process} {type : EventType} {auto_reset : Bool} :
    (opuEventCreate mem p type auto_reset).2 =
      if mem.object = true then
        if type.isSignal = true then
          (createSignalEvent mem p { event_id := 0, type, auto_reset }).2
        else (createOtherEvent mem p { event_id := 0, type, auto_reset }).2
      else p := by
  unfold opuEventCreate
  cases mem.object with
  | false => rfl
  | true =>
    rw [if_neg (by decide), if_pos rfl]
    cases type with
    | signal | debug =>
      show _ = (createSignalEvent mem p _).2
      dsimp only
      split <;> rename_i hc <;> rw [hc]
    | hwException | memory | other =>
      show _ = (createOtherEvent mem p _).2
      dsimp only
      split <;> rename_i hc <;> rw [hc]

/-- **A new event is not signaled and nobody waits for it**; the other events stay as they are. -/
theorem opuEventCreate_event_idr {p : Process} {type : EventType} {auto_reset : Bool} :
    (opuEventCreate mem p type auto_reset).2.event_idr = p.event_idr ∨
      ∃ id, lookupEventById p id = none ∧ (opuEventCreate mem p type auto_reset).2.event_idr =
        p.event_idr.set id { event_id := id, type, auto_reset } := by
  rw [opuEventCreate_snd]
  split
  swap
  · exact .inl rfl
  split
  · unfold createSignalEvent
    split
    · exact .inl rfl
    unfold allocateEventNotificationSlot
    cases he : ensureSignalPage mem p with
    | error e => exact .inl rfl
    | ok r =>
      obtain ⟨page, q⟩ := r
      have hidr : q.event_idr = p.event_idr := by
        unfold ensureSignalPage at he
        split at he
        · cases he
          rfl
        · split at he
          · cases he
            rfl
          · cases he
      dsimp only
      cases hid : idrAlloc mem q.event_idr 0 (toInt (q.signal_mapped_size / 8)) with
      | error e => exact .inl hidr
      | ok id =>
        rw [hidr] at hid
        refine .inr ⟨id, (idrAlloc_spec hid).2.1, ?_⟩
        dsimp only
        rw [hidr]
  · unfold createOtherEvent
    cases hid : idrAlloc mem p.event_idr firstNonsignalEventId
        (toInt (lastNonsignalEventId + 1)) with
    | error e => exact .inl rfl
    | ok id => exact .inr ⟨id, (idrAlloc_spec hid).2.1, rfl⟩

end

end Codrive.Events
