/-
# Event ids and signal slots over runs

Creations, destructions and page registrations of one process, in
`src/src/cmdio/linux/opu_events.c`.  The ids of signal and debug events are slots of the page in
use, as many as user mode has mapped; all other ids lie above them.

`opu_event_page_set` takes a page of any size.  It clears `OPU_SIGNAL_EVENT_LIMIT` slots of it, and
its size is the limit of the ids from then on: a page that is too small is written past its end, one
of no bytes sets no limit at all, and one that is too large reaches into the upper half of the ids.
-/

import Codrive.Events.Process
import Codrive.Basis.Run
import Mathlib.Tactic.Linarith

namespace Codrive.Events

open Codrive.Basis

/-- The calls. -/
inductive Op where
  | create (mem : Memory) (type : EventType) (auto_reset : Bool)
  | destroy (event_id : ℕ)
  | pageSet (mem : Memory) (slots : ℕ → ℕ) (size : ℕ)

/-- One call. -/
def Process.call (p : Process) : Op → Process
  | .create mem type auto_reset => (opuEventCreate mem p type auto_reset).2
  | .destroy event_id => (opuEventDestroy p event_id).2
  | .pageSet mem slots size => (opuEventPageSet mem p slots size).2

def Process.Step (p : Process) (op : Op) (q : Process) : Prop := q = p.call op

/-- The slots of the page in use. -/
def Process.slotLimit (p : Process) : ℕ := p.signal_mapped_size / 8

/-- The live events. -/
def Process.events (p : Process) : List Event := p.event_idr.entries.map Prod.snd

/-- **Ids and slots are in order.** -/
structure Process.Tidy (p : Process) : Prop where
  unique : (p.events.map Event.event_id).Nodup
  count : p.signal_event_count = p.events.countP (·.type.isSignal)
  count_le : p.signal_event_count ≤ p.slotLimit
  /-- A signal or debug event has a slot of the page. -/
  below : ∀ ev ∈ p.events, ev.type.isSignal = true → ev.event_id < p.slotLimit
  above : ∀ ev ∈ p.events, ev.type.isSignal = false → p.slotLimit ≤ ev.event_id
  /-- Nothing was written outside the page. -/
  inside : ∀ page, p.signal_page = some page → page.overrun = false

/-- **A new event is unsignaled**, in its slot. -/
def Process.CreatesUnsignaled (p : Process) : Prop :=
  ∀ mem type auto_reset created q, type.isSignal = true →
    opuEventCreate mem p type auto_reset = (.ok created, q) →
      ∃ page, q.signal_page = some page ∧ page.slots created.event_id = unsignaledEventSlot

/-- The pages that are registered: at least the slots that are cleared, and none that has the id of
an event without a slot. -/
def Process.StepOk (p : Process) : Op → Prop
  | .pageSet mem _ size => p.signal_page = none → mem.object = true →
      signalEventLimit * 8 ≤ size ∧ size / 8 ≤ firstNonsignalEventId
  | _ => True

section

variable {mem : Memory} {p q : Process} {ev : Event} {id : ℕ} {op : Op} {ops : List Op}

/-- The invariant. -/
structure Process.Inv (p : Process) : Prop where
  ids : ∀ e ∈ p.event_idr.entries, e.2.event_id = e.1
  below : ∀ ev ∈ p.events, ev.type.isSignal = true → ev.event_id < p.slotLimit
  above : ∀ ev ∈ p.events, ev.type.isSignal = false → firstNonsignalEventId ≤ ev.event_id
  limit : p.slotLimit ≤ firstNonsignalEventId
  count : p.signal_event_count = p.events.countP (·.type.isSignal)
  count_le : p.signal_event_count ≤ p.slotLimit
  page : ∀ page, p.signal_page = some page → page.overrun = false ∧
    signalEventLimit * 8 ≤ page.size ∧ 8 ≤ p.signal_mapped_size ∧
      p.signal_mapped_size ≤ page.size
  no_page : p.signal_page = none → p.signal_mapped_size = 0

/-- The invariant is what was promised. -/
theorem Process.Inv.tidy (h : p.Inv) : p.Tidy where
  unique := by
    have hids : p.events.map Event.event_id = p.event_idr.entries.map Prod.fst := by
      unfold Process.events
      rw [List.map_map]
      exact List.map_congr_left fun e he => h.ids e he
    rw [hids]
    exact (List.pairwise_map.2 p.event_idr.sorted).imp fun hlt => hlt.ne
  count := h.count
  count_le := h.count_le
  below := h.below
  above ev hev hs := h.limit.trans (h.above ev hev hs)
  inside page hpage := (h.page page hpage).1

/-- The events with a new one among them. -/
theorem events_set (hid : p.event_idr.find? id = none) : ∃ A B, p.events = A ++ B ∧
    (p.event_idr.set id ev).entries.map Prod.snd = A ++ ev :: B := by
  obtain ⟨A, B, hl, hA, hB⟩ := OrderedMap.exists_entries_of_find?_none hid
  refine ⟨A.map Prod.snd, B.map Prod.snd, ?_, ?_⟩
  · unfold Process.events
    rw [hl, List.map_append]
  · rw [OrderedMap.entries_set_of_lt id ev hl hA hB, List.map_append, List.map_cons]

/-- **An event is listed under a free id** in the range of its type. -/
theorem Process.Inv.list (h : p.Inv) (hid : p.event_idr.find? id = none)
    (hbelow : ev.type.isSignal = true → id < p.slotLimit)
    (habove : ev.type.isSignal = false → firstNonsignalEventId ≤ id)
    {count : ℤ} (hcount : count = p.signal_event_count + if ev.type.isSignal then 1 else 0)
    (hle : count ≤ p.slotLimit) {page : Option SignalPage}
    (hpage : ∀ q, page = some q → q.overrun = false ∧ signalEventLimit * 8 ≤ q.size ∧
      8 ≤ p.signal_mapped_size ∧ p.signal_mapped_size ≤ q.size)
    (hnone : page = none → p.signal_mapped_size = 0) :
    Process.Inv { p with
      event_idr := p.event_idr.set id { ev with event_id := id }
      signal_page := page
      signal_event_count := count } := by
  obtain ⟨A, B, hAB, hset⟩ := @events_set p { ev with event_id := id } id hid
  have hbelow' := h.below
  have habove' := h.above
  have hcount' := h.count
  rw [hAB] at hbelow' habove' hcount'
  have hmem : ∀ {P : Event → Prop}, (∀ x ∈ A ++ B, P x) → P { ev with event_id := id } →
      ∀ x ∈ A ++ { ev with event_id := id } :: B, P x := by
    intro P hall hnew x hx
    rcases List.mem_append.1 hx with hx | hx
    · exact hall x (List.mem_append_left _ hx)
    · rcases List.mem_cons.1 hx with rfl | hx
      · exact hnew
      · exact hall x (List.mem_append_right _ hx)
  constructor
  · intro e he
    rcases OrderedMap.mem_insertEntry he with rfl | he
    · rfl
    · exact h.ids e he
  · show ∀ x ∈ (p.event_idr.set id { ev with event_id := id }).entries.map Prod.snd, _
    rw [hset]
    exact hmem hbelow' hbelow
  · show ∀ x ∈ (p.event_idr.set id { ev with event_id := id }).entries.map Prod.snd, _
    rw [hset]
    exact hmem habove' habove
  · exact h.limit
  · show count = (((p.event_idr.set id { ev with event_id := id }).entries.map Prod.snd).countP
      (fun x : Event => x.type.isSignal) : ℤ)
    rw [hset, hcount, hcount']
    simp only [List.countP_append, List.countP_cons]
    split <;> push_cast <;> omega
  · exact hle
  · exact hpage
  · exact hnone

/-- The page that `allocate_event_notification_slot` finds or allocates. -/
theorem Process.Inv.ensure (h : p.Inv) {page : SignalPage}
    (he : ensureSignalPage mem p = .ok (page, q)) : q.Inv ∧ q.signal_page = some page ∧
      q.event_idr = p.event_idr ∧ q.signal_event_count = p.signal_event_count ∧
      (p.signal_mapped_size ≠ 0 → q = p) ∧
      (p.signal_mapped_size = 0 → q.signal_event_count = 0 ∧ 0 < q.slotLimit) := by
  unfold ensureSignalPage at he
  split at he
  · rename_i page' hpage
    cases he
    have hsize := (h.page page hpage).2.2.1
    exact ⟨h, hpage, rfl, rfl, fun _ => rfl, fun h0 => by omega⟩
  · rename_i hnone
    split at he
    · cases he
      have hsize : p.signal_mapped_size = 0 := h.no_page hnone
      have hlimit : p.slotLimit = 0 := by
        unfold Process.slotLimit
        rw [hsize]
      -- without a page there is no event with a slot
      have hzero : p.signal_event_count = 0 := by
        have hle := h.count_le
        have hcount := h.count
        omega
      refine ⟨⟨h.ids, fun ev hev hs => ?_, h.above, ?_, h.count, ?_, fun page' hp => ?_, ?_⟩, rfl,
        rfl, rfl, fun hne => absurd hsize hne, fun _ => ⟨hzero, ?_⟩⟩
      · have hlt := h.below ev hev hs
        omega
      · exact show 256 * 8 / 8 ≤ firstNonsignalEventId by decide
      · show p.signal_event_count ≤ (256 * 8 / 8 : ℕ)
        omega
      · cases hp
        exact ⟨rfl, Nat.le_refl _, show 8 ≤ 256 * 8 by decide,
          show 256 * 8 ≤ signalEventLimit * 8 by decide⟩
      · exact fun hp => nomatch hp
      · exact show 0 < 256 * 8 / 8 by decide
    · cases he

/-- `create_signal_event` of an event with a slot. -/
theorem Process.Inv.createSignalEvent (h : p.Inv) (hs : ev.type.isSignal = true) :
    (createSignalEvent mem p ev).2.Inv := by
  unfold Events.createSignalEvent
  split
  · exact h
  rename_i hroom
  unfold allocateEventNotificationSlot
  cases he : ensureSignalPage mem p with
  | error e => exact h
  | ok r =>
    obtain ⟨page, q⟩ := r
    obtain ⟨hq, hpage, hidr, hcount, hsame, hfresh⟩ := h.ensure he
    have hsize := hq.page page hpage
    dsimp only
    cases hid : idrAlloc mem q.event_idr 0 (toInt (q.signal_mapped_size / 8)) with
    | error e => exact hq
    | ok id =>
      obtain ⟨-, hfree, hmax⟩ := idrAlloc_spec hid
      have hlimit := hq.limit
      have hpos : 0 < q.slotLimit := by
        unfold Process.slotLimit
        omega
      -- the slot limit is a positive `int`
      have hint : idrMax (toInt (q.signal_mapped_size / 8)) = q.slotLimit - 1 := by
        have hlt : q.slotLimit < 2 ^ 31 := hlimit.trans_lt (by decide)
        have hto : toInt q.slotLimit = q.slotLimit := by
          unfold toInt
          rw [if_pos (by omega)]
          omega
        show idrMax (toInt q.slotLimit) = q.slotLimit - 1
        rw [hto]
        unfold idrMax
        rw [if_pos (by omega), Int.toNat_natCast]
      rw [hint] at hmax
      -- the limit was not reached
      have hle : q.signal_event_count + 1 ≤ q.slotLimit := by
        by_cases h0 : p.signal_mapped_size = 0
        · have hzero := (hfresh h0).1
          omega
        · obtain rfl := hsame h0
          have hne : q.signal_event_count ≠ (q.slotLimit : ℤ) := fun heq => hroom ⟨h0, heq⟩
          have hle := hq.count_le
          omega
      have hin : ¬page.size < (id + 1) * 8 := by
        have hdiv : q.slotLimit * 8 ≤ q.signal_mapped_size := Nat.div_mul_le_self _ _
        omega
      refine hq.list hfree (fun _ => by omega) (fun hns => by simp [hs] at hns)
        (by rw [hs, if_pos rfl]) hle (fun page' hp => ?_) fun hp => nomatch hp
      cases hp
      refine ⟨?_, hsize.2⟩
      show (page.overrun || decide (page.size < (id + 1) * 8)) = false
      rw [hsize.1, Bool.false_or, decide_eq_false hin]

/-- `create_other_event` of an event without a slot. -/
theorem Process.Inv.createOtherEvent (h : p.Inv) (hs : ev.type.isSignal = false) :
    (createOtherEvent mem p ev).2.Inv := by
  unfold Events.createOtherEvent
  cases hid : idrAlloc mem p.event_idr firstNonsignalEventId
      (toInt (lastNonsignalEventId + 1)) with
  | error e => exact h
  | ok id =>
    obtain ⟨hstart, hfree, -⟩ := idrAlloc_spec hid
    exact h.list hfree (fun hsig => by simp [hs] at hsig) (fun _ => hstart)
      (by simp [hs]) h.count_le h.page h.no_page

/-- `opu_event_destroy` of a live event. -/
theorem Process.Inv.destroy (h : p.Inv) (hev : p.event_idr.find? id = some ev) :
    (destroyEvent p ev).Inv := by
  obtain ⟨A, B, hl⟩ := OrderedMap.exists_entries_of_find? hev
  have hid : ev.event_id = id := h.ids (id, ev) (OrderedMap.mem_of_find? hev)
  subst hid
  have hkeep : ∀ e ∈ (p.event_idr.erase ev.event_id).entries, e ∈ p.event_idr.entries := by
    intro e he
    rw [OrderedMap.entries_erase_of_entries hl] at he
    rw [hl]
    exact (List.mem_append.1 he).elim (List.mem_append_left _) fun he =>
      List.mem_append_right _ (List.mem_cons_of_mem _ he)
  have hevents : ∀ x ∈ (destroyEvent p ev).events, x ∈ p.events := by
    intro x hx
    obtain ⟨e, he, rfl⟩ := List.mem_map.1 hx
    exact List.mem_map_of_mem (hkeep e he)
  have hcount := h.count
  have hle := h.count_le
  unfold Process.events at hcount
  rw [hl] at hcount
  simp only [List.map_append, List.map_cons, List.countP_append, List.countP_cons] at hcount
  refine ⟨fun e he => h.ids e (hkeep e he), fun x hx => h.below x (hevents x hx),
    fun x hx => h.above x (hevents x hx), h.limit, ?_, ?_, h.page, h.no_page⟩
  · unfold Process.events destroyEvent
    dsimp only
    rw [OrderedMap.entries_erase_of_entries hl, List.map_append, List.countP_append, hcount]
    split <;> push_cast <;> omega
  · show p.signal_event_count - (if ev.type.isSignal then 1 else 0) ≤ (p.slotLimit : ℤ)
    split <;> omega

/-- **A call keeps the invariant** if it registers no page that is too small or too large. -/
theorem Process.Inv.call (h : p.Inv) (hok : p.StepOk op) : (p.call op).Inv := by
  cases op with
  | create mem type auto_reset =>
    show (opuEventCreate mem p type auto_reset).2.Inv
    rw [opuEventCreate_snd]
    split
    · split
      · rename_i hs
        exact h.createSignalEvent hs
      · rename_i hs
        exact h.createOtherEvent (by simpa using hs)
    · exact h
  | destroy event_id =>
    show (opuEventDestroy p event_id).2.Inv
    unfold opuEventDestroy lookupEventById
    split
    · exact h.destroy (by assumption)
    · exact h
  | pageSet mem slots size =>
    show (opuEventPageSet mem p slots size).2.Inv
    unfold opuEventPageSet
    split
    · exact h
    rename_i hnone
    split
    · exact h
    · rename_i hmem
      obtain ⟨hsmall, hlarge⟩ := hok hnone (by simpa using hmem)
      have hsize := h.no_page hnone
      have hlimit : p.slotLimit = 0 := by
        unfold Process.slotLimit
        rw [hsize]
      have hle := h.count_le
      have hcount := h.count
      refine ⟨h.ids, fun ev hev hs => ?_, h.above, hlarge, h.count, ?_, fun page hp => ?_,
        fun hp => nomatch hp⟩
      · have hlt := h.below ev hev hs
        omega
      · show p.signal_event_count ≤ ((size / 8 : ℕ) : ℤ)
        omega
      · cases hp
        have hclear : ¬size < signalEventLimit * 8 := by omega
        refine ⟨?_, hsmall, ?_, Nat.le_refl _⟩
        · show (false || decide (size < signalEventLimit * 8)) = false
          rw [Bool.false_or, decide_eq_false hclear]
        · exact Nat.le_trans (by decide) hsmall

theorem Process.inv_init : Process.Inv {} where
  ids _ he := absurd he List.not_mem_nil
  below _ hev := absurd hev List.not_mem_nil
  above _ hev := absurd hev List.not_mem_nil
  limit := Nat.zero_le _
  count := rfl
  count_le := Int.le_refl _
  page _ hp := nomatch hp
  no_page _ := rfl

/-- `create_signal_event` writes the slot of the event. -/
theorem createSignalEvent_slot (h : createSignalEvent mem p ev = (.ok id, q)) :
    ∃ page, q.signal_page = some page ∧ page.slots id = unsignaledEventSlot := by
  unfold createSignalEvent at h
  split at h
  · cases h
  unfold allocateEventNotificationSlot at h
  cases he : ensureSignalPage mem p with
  | error e =>
    rw [he] at h
    cases h
  | ok r =>
    obtain ⟨page, q'⟩ := r
    rw [he] at h
    dsimp only at h
    cases hid : idrAlloc mem q'.event_idr 0 (toInt (q'.signal_mapped_size / 8)) with
    | error e =>
      rw [hid] at h
      cases h
    | ok id' =>
      rw [hid] at h
      cases h
      exact ⟨_, rfl, Function.update_self ..⟩

theorem Process.createsUnsignaled (p : Process) : p.CreatesUnsignaled := by
  intro mem type auto_reset created q hs h
  unfold opuEventCreate at h
  split at h
  · cases h
  dsimp only at h
  cases type with
  | signal | debug =>
    dsimp only at h
    split at h
    · cases h
    · cases h
      exact createSignalEvent_slot (by assumption)
  | hwException | memory | other => cases hs

/-- **Ids and slots stay in order in every run** that registers no page of fewer than 4096 slots and
none of more than `2 ^ 30`. -/
theorem Process.slots_of_run (h : Run (Guarded StepOk Step) {} ops p) :
    p.Tidy ∧ p.CreatesUnsignaled := by
  refine ⟨(h.inv (I := Process.Inv) (fun s op t hs hstep => ?_) inv_init).tidy,
    p.createsUnsignaled⟩
  obtain ⟨hok, rfl⟩ := hstep
  exact hs.call hok

/-- Events of both kinds with a page of 32 KB: the signal event has slot 0. -/
theorem Process.slots_of_run_two : ∃ p : Process, p.events.map Event.event_id = [0, 2 ^ 30] ∧
    p.signal_event_count = 1 ∧ p.Tidy ∧ p.CreatesUnsignaled := by
  refine ⟨_, ?_, ?_, slots_of_run (show Run (Guarded StepOk Step) {} [.create {} .memory false,
      .pageSet {} (fun _ => 0) 32768, .create {} .debug false, .create {} .signal true,
      .destroy 1] _ from
    .cons ⟨trivial, rfl⟩ (.cons ⟨fun _ _ => by decide, rfl⟩ (.cons ⟨trivial, rfl⟩
      (.cons ⟨trivial, rfl⟩ (.cons ⟨trivial, rfl⟩ (.nil _))))))⟩
  · decide
  · decide

/-- **A page of one page of memory is written past its end** when it is registered. -/
theorem Process.small_page_is_overrun : ∃ p page, Run Step {} [.pageSet {} (fun _ => 0) 4096] p ∧
    p.signal_page = some page ∧ page.size = 4096 ∧ page.overrun = true ∧ ¬p.Tidy := by
  refine ⟨_, _, .cons rfl (.nil _), rfl, rfl, rfl, fun h => ?_⟩
  exact absurd (h.inside _ rfl) (by decide)

end

end Codrive.Events
