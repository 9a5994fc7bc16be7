/-
# Signals of the device

A device writes the slot of an event and raises an interrupt, which brings `valid_id_bits` low bits
of the number of the slot.  `opu_signal_event_interrupt` of `src/src/cmdio/linux/opu_events.c`
looks for a signaled event with such an id, and looks at all events when it finds none; it may
acknowledge another slot than the one that raised it.  Each call acknowledges a signaled slot while
there is one, so as many calls as there were signals leave none.

The searches stop at `OPU_SIGNAL_EVENT_LIMIT`, though a page may have more slots.
-/

import Codrive.Events.Process
import Mathlib.Data.Finset.Card
import Mathlib.Data.Finset.Range
import Mathlib.Data.Multiset.ZeroCons

namespace Codrive.Events

open Codrive.Basis

/-- `page_slots(p->signal_page)[id] != UNSIGNALED_EVENT_SLOT`. -/
def Process.isSignaled (p : Process) (id : ℕ) : Bool :=
  p.signal_page.any fun page => page.slots id ≠ unsignaledEventSlot

/-- The process, and the events on which `set_event` was called. -/
structure Irq where
  p : Process
  set : List ℕ := []

/-- `set_event_from_interrupt`. -/
def setEventFromInterrupt (s : Irq) (ev : Option Event) : Irq :=
  match ev with
  | some ev =>
    if eventCanBeGpuSignaled ev then
      { p := { s.p with
          signal_page := s.p.signal_page.map fun page => page.write ev.event_id unsignaledEventSlot
          event_idr := s.p.event_idr.set ev.event_id (setEvent ev) }
        set := ev.event_id :: s.set }
    else s
  | none => s

/-- The stepped search of `lookup_signaled_event_by_partial_id` from `id` on; there are at most
`fuel` ids to look at. -/
def searchPartialId (p : Process) (step : ℕ) : ℕ → ℕ → Option Event
  | 0, _ => none
  | fuel + 1, id =>
    if id < signalEventLimit then
      if p.isSignaled id then
        (lookupEventById p id).or (searchPartialId p step fuel (id + step))
      else searchPartialId p step fuel (id + step)
    else none

/-- `lookup_signaled_event_by_partial_id`. -/
def lookupSignaledEventByPartialId (p : Process) (id bits : ℕ) : Option Event :=
  if p.signal_page.isNone ∨ id ≥ signalEventLimit then none
  else if bits > 31 ∨ 2 ^ bits ≥ signalEventLimit then
    if !p.isSignaled id then none else lookupEventById p id
  else searchPartialId p (2 ^ bits) signalEventLimit id

/-- The exhaustive search, over the events `ids` or the slots `ids`. -/
def scanSignaled (ids : List ℕ) (s : Irq) : Irq :=
  ids.foldl (fun s id =>
    if s.p.isSignaled id then setEventFromInterrupt s (lookupEventById s.p id) else s) s

/-- `opu_signal_event_interrupt`. -/
def opuSignalEventInterrupt (p : Process) (partial_id valid_id_bits : ℕ) : Irq :=
  let ev := if valid_id_bits ≠ 0 then
      lookupSignaledEventByPartialId p partial_id valid_id_bits
    else none
  match ev with
  | some ev => setEventFromInterrupt { p } (some ev)
  | none =>
    if p.signal_page.isSome then
      if p.signal_event_count < (signalEventLimit / 64 : ℕ) then
        scanSignaled ((p.event_idr.entries.map Prod.fst).takeWhile (· < signalEventLimit)) { p }
      else scanSignaled (List.range signalEventLimit) { p }
    else { p }

/-! ### Signals and calls -/

/-- What happens: the device writes a slot, or an interrupt is processed. -/
inductive Action where
  | signal (slot value : ℕ)
  | call (partial_id valid_id_bits : ℕ)
  deriving DecidableEq

def Process.act (p : Process) : Action → Irq
  | .signal slot value =>
    { p := { p with signal_page := p.signal_page.map fun page =>
        { page with slots := Function.update page.slots slot value } } }
  | .call partial_id valid_id_bits => opuSignalEventInterrupt p partial_id valid_id_bits

/-- The process after some actions. -/
def Process.after (p : Process) : List Action → Process
  | [] => p
  | a :: l => (p.act a).p.after l

/-- The events set meanwhile. -/
def Process.sets (p : Process) : List Action → List ℕ
  | [] => []
  | a :: l => (p.act a).set ++ (p.act a).p.sets l

/-- A live signal or debug event has this slot. -/
def Process.Live (p : Process) (id : ℕ) : Prop :=
  ∃ ev, lookupEventById p id = some ev ∧ ev.type.isSignal = true

/-- **Each signal has a later call of its own**, with the low bits of its slot; `owed` are the slots
whose call is still to come.  There may be other calls. -/
inductive Answers : Multiset ℕ → List Action → Prop
  | done : Answers 0 []
  | signal {owed : Multiset ℕ} {l : List Action} {slot value : ℕ} : value ≠ unsignaledEventSlot →
      Answers (slot ::ₘ owed) l → Answers owed (.signal slot value :: l)
  | answer {owed : Multiset ℕ} {l : List Action} {slot valid_id_bits : ℕ} : Answers owed l →
      Answers (slot ::ₘ owed) (.call (slot % 2 ^ valid_id_bits) valid_id_bits :: l)
  | spurious {owed : Multiset ℕ} {l : List Action} {partial_id valid_id_bits : ℕ} :
      Answers owed l → Answers owed (.call partial_id valid_id_bits :: l)

/-- **What is promised of the signals.** -/
structure Served (p : Process) (l : List Action) : Prop where
  /-- No slot of a live event stays signaled. -/
  acknowledged : ∀ id, p.Live id → (p.after l).isSignaled id = false
  /-- The event of a slot that was signaled at the start is set. -/
  set_first : ∀ id, p.Live id → p.isSignaled id = true → id ∈ p.sets l
  /-- So is the event of a slot that is signaled later, after that. -/
  set_later : ∀ id, p.Live id → ∀ A value B, l = A ++ .signal id value :: B →
    id ∈ ((p.after A).act (.signal id value)).p.sets B
  /-- A call sets the events of signaled slots only, each once. -/
  only : ∀ A partial_id valid_id_bits B, l = A ++ .call partial_id valid_id_bits :: B →
    ((p.after A).act (.call partial_id valid_id_bits)).set.Nodup ∧
      ∀ id ∈ ((p.after A).act (.call partial_id valid_id_bits)).set,
        (p.after A).isSignaled id = true

/-- No live event behind the limit of the searches is signaled. -/
def NoneBeyond (p : Process) (l : List Action) : Prop :=
  ∀ id, p.Live id → signalEventLimit ≤ id →
    p.isSignaled id = false ∧ ∀ value, .signal id value ∉ l

section

variable {p q : Process} {s : Irq} {ev : Event} {id id' partial_id valid_id_bits : ℕ}
variable {ids : List ℕ} {l : List Action} {owed : Multiset ℕ} {a : Action}

/-- A process whose events can be signaled: the events below the limit have a slot. -/
structure Process.Ready (p : Process) : Prop where
  page : p.signal_page.isSome = true
  ids : ∀ id ev, lookupEventById p id = some ev → ev.event_id = id
  signals : ∀ id ev, lookupEventById p id = some ev → id < signalEventLimit →
    ev.type.isSignal = true

/-- A live event below the limit is signaled. -/
def Process.Pending (p : Process) (id : ℕ) : Prop :=
  id < signalEventLimit ∧ p.Live id ∧ p.isSignaled id = true

/-- **Pending events are served**: the slots of `new` are acknowledged and their events set. -/
structure Serves (s t : Irq) (new : List ℕ) : Prop where
  ready : t.p.Ready
  live : ∀ id, t.p.Live id ↔ s.p.Live id
  set : t.set = new ++ s.set
  nodup : new.Nodup
  pending : ∀ id ∈ new, s.p.Pending id
  signaled : ∀ id, t.p.isSignaled id = true ↔ s.p.isSignaled id = true ∧ id ∉ new

theorem isSignaled_write (h : p.signal_page.isSome = true) {value : ℕ} :
    Process.isSignaled
        { p with signal_page := p.signal_page.map fun page => page.write id value } id' =
      if id' = id then decide (value ≠ unsignaledEventSlot) else p.isSignaled id' := by
  obtain ⟨page, hpage⟩ := Option.isSome_iff_exists.1 h
  unfold Process.isSignaled SignalPage.write
  rw [hpage]
  by_cases hid : id' = id
  · subst hid
    simp
  · simp [hid]

/-- `set_event_from_interrupt` of a pending event. -/
theorem setEventFromInterrupt_serves (hs : s.p.Ready) (hev : lookupEventById s.p id = some ev)
    (hid : id < signalEventLimit) (hsignaled : s.p.isSignaled id = true) :
    Serves s (setEventFromInterrupt s (some ev)) [id] := by
  have hsig := hs.signals id ev hev hid
  have heq := hs.ids id ev hev
  subst heq
  have hlookup : ∀ id', lookupEventById (setEventFromInterrupt s (some ev)).p id' =
      if id' = ev.event_id then some (setEvent ev) else lookupEventById s.p id' := by
    intro id'
    unfold setEventFromInterrupt eventCanBeGpuSignaled lookupEventById
    simp only [hsig, if_true]
    exact OrderedMap.find?_set ..
  constructor
  · refine ⟨?_, fun id' ev' h => ?_, fun id' ev' h hlt => ?_⟩
    · unfold setEventFromInterrupt eventCanBeGpuSignaled
      simp [hsig, hs.page]
    · rw [hlookup] at h
      split at h
      · cases h
        rename_i hid'
        exact hid'.symm
      · exact hs.ids id' ev' h
    · rw [hlookup] at h
      split at h
      · cases h
        exact hsig
      · exact hs.signals id' ev' h hlt
  · intro id'
    unfold Process.Live
    rw [hlookup]
    split
    · rename_i hid'
      subst hid'
      rw [hev]
      simp [setEvent, hsig]
    · rfl
  · unfold setEventFromInterrupt eventCanBeGpuSignaled
    simp [hsig]
  · exact List.nodup_singleton _
  · intro id' hid'
    obtain rfl := List.mem_singleton.1 hid'
    exact ⟨hid, ⟨ev, hev, hsig⟩, hsignaled⟩
  · intro id'
    have hwrite := @isSignaled_write s.p ev.event_id id' hs.page unsignaledEventSlot
    unfold setEventFromInterrupt eventCanBeGpuSignaled
    simp only [hsig, if_true]
    refine (iff_of_eq (congrArg (· = true) hwrite)).trans ?_
    by_cases hid' : id' = ev.event_id <;> simp [hid']

theorem Serves.refl (hs : s.p.Ready) : Serves s s [] where
  ready := hs
  live _ := Iff.rfl
  set := rfl
  nodup := List.nodup_nil
  pending _ hid := absurd hid List.not_mem_nil
  signaled _ := by simp

/-- What is pending afterwards was pending and is not served. -/
theorem Serves.pending_iff {t : Irq} {new : List ℕ} (h : Serves s t new) :
    t.p.Pending id ↔ s.p.Pending id ∧ id ∉ new := by
  unfold Process.Pending
  rw [h.live, h.signaled]
  constructor
  · rintro ⟨hlt, hlive, hsig, hnew⟩
    exact ⟨⟨hlt, hlive, hsig⟩, hnew⟩
  · rintro ⟨⟨hlt, hlive, hsig⟩, hnew⟩
    exact ⟨hlt, hlive, hsig, hnew⟩

theorem Serves.trans {t u : Irq} {new new' : List ℕ} (h : Serves s t new)
    (h' : Serves t u new') : Serves s u (new' ++ new) where
  ready := h'.ready
  live id := (h'.live id).trans (h.live id)
  set := by rw [h'.set, h.set, List.append_assoc]
  nodup := List.nodup_append'.2 ⟨h'.nodup, h.nodup, fun id hid =>
    (h.pending_iff.1 (h'.pending id hid)).2⟩
  pending id hid := (List.mem_append.1 hid).elim
    (fun hid => (h.pending_iff.1 (h'.pending id hid)).1) (h.pending id)
  signaled id := by
    rw [h'.signaled, h.signaled, List.mem_append, not_or]
    tauto

/-! ### What the searches find -/

/-- The stepped search finds a signaled event below the limit. -/
theorem searchPartialId_spec {step fuel : ℕ} (h : searchPartialId p step fuel id = some ev) :
    ∃ id', lookupEventById p id' = some ev ∧ id' < signalEventLimit ∧
      p.isSignaled id' = true := by
  induction fuel generalizing id with
  | zero => cases h
  | succ fuel ih =>
    unfold searchPartialId at h
    split at h
    · rename_i hlt
      split at h
      · rename_i hsig
        rcases Option.or_eq_some_iff.1 h with h | ⟨-, h⟩
        · exact ⟨id, h, hlt, hsig⟩
        · exact ih h
      · exact ih h
    · cases h

/-- Each search finds a signaled event below the limit. -/
theorem lookupSignaledEventByPartialId_spec
    (h : lookupSignaledEventByPartialId p id valid_id_bits = some ev) :
    ∃ id', lookupEventById p id' = some ev ∧ id' < signalEventLimit ∧
      p.isSignaled id' = true := by
  unfold lookupSignaledEventByPartialId at h
  split at h
  · cases h
  rename_i hid
  split at h
  · split at h
    · cases h
    · rename_i hsig
      exact ⟨id, h, by simp only [not_or] at hid; omega, by simpa using hsig⟩
  · exact searchPartialId_spec h

/-- **A scan serves what is pending** among the ids it looks at. -/
theorem scanSignaled_spec (hs : s.p.Ready) (hids : ∀ id ∈ ids, id < signalEventLimit) :
    ∃ new, Serves s (scanSignaled ids s) new ∧ ∀ id ∈ ids, s.p.Pending id → id ∈ new := by
  induction ids generalizing s with
  | nil => exact ⟨[], .refl hs, fun _ hid => absurd hid List.not_mem_nil⟩
  | cons id ids ih =>
    -- the first id, then the others
    obtain ⟨t, new, ht, hserves, hfirst⟩ : ∃ t new, (if s.p.isSignaled id then
        setEventFromInterrupt s (lookupEventById s.p id) else s) = t ∧ Serves s t new ∧
          (s.p.Pending id → id ∈ new) := by
      by_cases hsig : s.p.isSignaled id = true
      · rw [if_pos hsig]
        cases hev : lookupEventById s.p id with
        | none =>
          refine ⟨s, [], rfl, .refl hs, fun hp => ?_⟩
          obtain ⟨ev, hev', -⟩ := hp.2.1
          rw [hev] at hev'
          cases hev'
        | some ev =>
          exact ⟨_, [id], rfl, setEventFromInterrupt_serves hs hev
            (hids id (List.mem_cons_self ..)) hsig, fun _ => List.mem_singleton.2 rfl⟩
      · rw [if_neg hsig]
        exact ⟨s, [], rfl, .refl hs, fun hp => absurd hp.2.2 hsig⟩
    obtain ⟨new', hserves', hothers⟩ :=
      ih hserves.ready fun id' hid' => hids id' (List.mem_cons_of_mem _ hid')
    refine ⟨new' ++ new, ?_, fun id' hid' hp => ?_⟩
    · unfold scanSignaled at hserves' ⊢
      rw [List.foldl_cons, ht]
      exact hserves.trans hserves'
    · by_cases hnew : id' ∈ new
      · exact List.mem_append_right _ hnew
      · rcases List.mem_cons.1 hid' with rfl | hid'
        · exact absurd (hfirst hp) hnew
        · exact List.mem_append_left _ (hothers id' hid' (hserves.pending_iff.2 ⟨hp, hnew⟩))

/-- The scan over the events sees each live event below the limit. -/
theorem mem_takeWhile_keys (h : p.Live id) (hid : id < signalEventLimit) :
    id ∈ (p.event_idr.entries.map Prod.fst).takeWhile (· < signalEventLimit) := by
  obtain ⟨ev, hev, -⟩ := h
  obtain ⟨A, B, hl⟩ := OrderedMap.exists_entries_of_find? hev
  have hsorted := p.event_idr.sorted
  rw [hl, List.pairwise_append] at hsorted
  rw [hl, List.map_append, List.map_cons, List.takeWhile_append_of_pos, List.takeWhile_cons,
    if_pos (by simpa using hid)]
  · exact List.mem_append_right _ (List.mem_cons_self ..)
  · intro k hk
    obtain ⟨e, he, rfl⟩ := List.mem_map.1 hk
    have hlt : e.1 < id := hsorted.2.2 e he (id, ev) (List.mem_cons_self ..)
    simpa using hlt.trans hid

/-- **A call serves a pending event if there is one.** -/
theorem opuSignalEventInterrupt_spec (hp : p.Ready) :
    Serves { p } (opuSignalEventInterrupt p partial_id valid_id_bits)
        (opuSignalEventInterrupt p partial_id valid_id_bits).set ∧
      ((∃ id, p.Pending id) →
        (opuSignalEventInterrupt p partial_id valid_id_bits).set ≠ []) := by
  -- it is enough to say which events are served
  suffices h : ∃ new, Serves { p } (opuSignalEventInterrupt p partial_id valid_id_bits) new ∧
      ((∃ id, p.Pending id) → new ≠ []) by
    obtain ⟨new, hserves, hne⟩ := h
    have hset : (opuSignalEventInterrupt p partial_id valid_id_bits).set = new := by
      rw [hserves.set]
      exact List.append_nil new
    rw [hset]
    exact ⟨hserves, hne⟩
  have hscan : ∀ ids : List ℕ, (∀ id ∈ ids, id < signalEventLimit) →
      (∀ id, p.Pending id → id ∈ ids) →
        ∃ new, Serves { p } (scanSignaled ids { p }) new ∧ ((∃ id, p.Pending id) → new ≠ []) := by
    intro ids hids hall
    obtain ⟨new, hserves, hnew⟩ := @scanSignaled_spec { p } ids hp hids
    exact ⟨new, hserves, fun ⟨id, hid⟩ => List.ne_nil_of_mem (hnew id (hall id hid) hid)⟩
  unfold opuSignalEventInterrupt
  dsimp only
  split
  · rename_i ev hev
    split at hev
    · obtain ⟨id, hlookup, hlt, hsig⟩ := lookupSignaledEventByPartialId_spec hev
      exact ⟨[id], @setEventFromInterrupt_serves { p } ev id hp hlookup hlt hsig,
        fun _ => List.cons_ne_nil _ _⟩
    · cases hev
  · rw [if_pos hp.page]
    split
    · exact hscan _ (fun id hid => by simpa using List.all_eq_true.1 List.all_takeWhile id hid)
        fun id hid => mem_takeWhile_keys hid.2.1 hid.1
    · exact hscan _ (fun id hid => List.mem_range.1 hid) fun id hid => List.mem_range.2 hid.1

/-! ### Counting what is pending -/

open Classical in
/-- The pending events. -/
noncomputable def Process.pendings (p : Process) : Finset ℕ :=
  (Finset.range signalEventLimit).filter p.Pending

theorem mem_pendings : id ∈ p.pendings ↔ p.Pending id := by
  classical
  exact Finset.mem_filter.trans ⟨fun h => h.2, fun h => ⟨Finset.mem_range.2 h.1, h⟩⟩

/-- After a call, one event less is pending. -/
theorem card_pendings_call (hp : p.Ready) :
    (p.act (.call partial_id valid_id_bits)).p.pendings.card ≤ p.pendings.card - 1 := by
  obtain ⟨hserves, hne⟩ := @opuSignalEventInterrupt_spec p partial_id valid_id_bits hp
  have hsub : (p.act (.call partial_id valid_id_bits)).p.pendings ⊆ p.pendings := fun id hid =>
    mem_pendings.2 (hserves.pending_iff.1 (mem_pendings.1 hid)).1
  rcases p.pendings.eq_empty_or_nonempty with hempty | ⟨id, hid⟩
  · have hle := Finset.card_le_card hsub
    rw [hempty, Finset.card_empty] at hle
    omega
  · obtain ⟨id', hid'⟩ := List.exists_mem_of_ne_nil _ (hne ⟨id, mem_pendings.1 hid⟩)
    have hlt := Finset.card_lt_card (Finset.ssubset_iff_subset_ne.2 ⟨hsub, fun heq => ?_⟩)
    · omega
    · have hmem : id' ∈ p.pendings := mem_pendings.2 (hserves.pending id' hid')
      rw [← heq] at hmem
      exact (hserves.pending_iff.1 (mem_pendings.1 hmem)).2 hid'

/-- A signal changes the slot. -/
theorem isSignaled_signal (hp : p.Ready) {slot value : ℕ} :
    (p.act (.signal slot value)).p.isSignaled id =
      if id = slot then decide (value ≠ unsignaledEventSlot) else p.isSignaled id := by
  obtain ⟨page, hpage⟩ := Option.isSome_iff_exists.1 hp.page
  unfold Process.act Process.isSignaled
  rw [hpage]
  by_cases hid : id = slot
  · subst hid
    simp
  · simp [hid]

/-- After a signal, one event more is pending. -/
theorem card_pendings_signal (hp : p.Ready) {slot value : ℕ} :
    (p.act (.signal slot value)).p.pendings.card ≤ p.pendings.card + 1 := by
  refine (Finset.card_le_card fun id hid => ?_).trans (Finset.card_insert_le slot p.pendings)
  obtain ⟨hlt, hlive, hsig⟩ := mem_pendings.1 hid
  rw [isSignaled_signal hp] at hsig
  by_cases heq : id = slot
  · exact heq ▸ Finset.mem_insert_self ..
  · rw [if_neg heq] at hsig
    exact Finset.mem_insert_of_mem (mem_pendings.2 ⟨hlt, hlive, hsig⟩)

/-! ### Runs -/

theorem Process.Ready.act (hp : p.Ready) : (p.act a).p.Ready := by
  cases a with
  | signal slot value =>
    refine ⟨?_, hp.ids, hp.signals⟩
    unfold Process.act
    rw [Option.isSome_map]
    exact hp.page
  | call partial_id valid_id_bits => exact (opuSignalEventInterrupt_spec hp).1.ready

theorem Process.Ready.live_act (hp : p.Ready) : (p.act a).p.Live id ↔ p.Live id := by
  cases a with
  | signal slot value => rfl
  | call partial_id valid_id_bits => exact (opuSignalEventInterrupt_spec hp).1.live id

theorem Process.Ready.after (hp : p.Ready) : (p.after l).Ready := by
  induction l generalizing p with
  | nil => exact hp
  | cons a l ih => exact ih hp.act

theorem Process.Ready.live_after (hp : p.Ready) : (p.after l).Live id ↔ p.Live id := by
  induction l generalizing p with
  | nil => rfl
  | cons a l ih => exact (ih hp.act).trans hp.live_act

theorem after_append {A B : List Action} : p.after (A ++ B) = (p.after A).after B := by
  induction A generalizing p with
  | nil => rfl
  | cons a A ih => exact ih

/-- **When each pending event has a call still to come, none is pending in the end.** -/
theorem Answers.pendings_after (h : Answers owed l) (hp : p.Ready)
    (hle : p.pendings.card ≤ Multiset.card owed) : (p.after l).pendings = ∅ := by
  induction h generalizing p with
  | done => exact Finset.card_eq_zero.1 (Nat.le_zero.1 hle)
  | @signal owed l slot value hvalue h ih =>
    refine ih hp.act ?_
    rw [Multiset.card_cons]
    exact (card_pendings_signal hp).trans (Nat.succ_le_succ hle)
  | @answer owed l slot valid_id_bits h ih =>
    refine ih hp.act ?_
    rw [Multiset.card_cons] at hle
    have hcall := @card_pendings_call p (slot % 2 ^ valid_id_bits) valid_id_bits hp
    omega
  | @spurious owed l partial_id valid_id_bits h ih =>
    refine ih hp.act ?_
    have hcall := @card_pendings_call p partial_id valid_id_bits hp
    omega

/-- What a device writes is a signal. -/
theorem Answers.value_ne (h : Answers owed l) :
    ∀ slot value, .signal slot value ∈ l → value ≠ unsignaledEventSlot := by
  induction h with
  | done => exact fun _ _ hmem => absurd hmem List.not_mem_nil
  | @signal owed l slot value hvalue h ih =>
    intro slot' value' hmem
    rcases List.mem_cons.1 hmem with heq | hmem
    · cases heq
      exact hvalue
    · exact ih slot' value' hmem
  | answer h ih | spurious h ih =>
    intro slot' value' hmem
    rcases List.mem_cons.1 hmem with heq | hmem
    · cases heq
    · exact ih slot' value' hmem

/-- A slot stays signaled until its event is set. -/
theorem isSignaled_after (hp : p.Ready)
    (hvalue : ∀ slot value, .signal slot value ∈ l → value ≠ unsignaledEventSlot)
    (hsig : p.isSignaled id = true) :
    (p.after l).isSignaled id = true ∨ id < signalEventLimit ∧ id ∈ p.sets l := by
  induction l generalizing p with
  | nil => exact .inl hsig
  | cons a l ih =>
    have hrest := fun h => ih (p := (p.act a).p) hp.act
      (fun slot value hmem => hvalue slot value (List.mem_cons_of_mem _ hmem)) h
    have hnext : (p.act a).p.isSignaled id = true ∨
        id < signalEventLimit ∧ id ∈ (p.act a).set := by
      cases a with
      | signal slot value =>
        left
        rw [isSignaled_signal hp]
        split
        · exact decide_eq_true (hvalue slot value (List.mem_cons_self ..))
        · exact hsig
      | call partial_id valid_id_bits =>
        have hserves := (@opuSignalEventInterrupt_spec p partial_id valid_id_bits hp).1
        by_cases hset : id ∈ (opuSignalEventInterrupt p partial_id valid_id_bits).set
        · exact .inr ⟨(hserves.pending id hset).1, hset⟩
        · exact .inl ((hserves.signaled id).2 ⟨hsig, hset⟩)
    rcases hnext with hsig | ⟨hlt, hset⟩
    · exact (hrest hsig).imp_right fun h => ⟨h.1, List.mem_append_right _ h.2⟩
    · exact .inr ⟨hlt, List.mem_append_left _ hset⟩

/-- A slot that is never signaled stays so. -/
theorem not_isSignaled_after (hp : p.Ready) (hnone : ∀ value, .signal id value ∉ l)
    (hsig : p.isSignaled id = false) : (p.after l).isSignaled id = false := by
  induction l generalizing p with
  | nil => exact hsig
  | cons a l ih =>
    refine ih hp.act (fun value hmem => hnone value (List.mem_cons_of_mem _ hmem)) ?_
    cases a with
    | signal slot value =>
      rw [isSignaled_signal hp, if_neg, hsig]
      rintro rfl
      exact hnone value (List.mem_cons_self ..)
    | call partial_id valid_id_bits =>
      have hserves := (@opuSignalEventInterrupt_spec p partial_id valid_id_bits hp).1
      rw [Bool.eq_false_iff]
      intro h
      have hbefore := ((hserves.signaled id).1 h).1
      rw [hsig] at hbefore
      cases hbefore

/-- **Signals are served exactly when none is behind the limit** of the searches. -/
theorem Process.served_iff (hp : p.Ready) (h : Answers owed l)
    (howed : ∀ id, p.Live id → p.isSignaled id = true → id ∈ owed) :
    Served p l ↔ NoneBeyond p l := by
  have hvalue := h.value_ne
  -- each pending event has a call still to come
  have hcard : p.pendings.card ≤ Multiset.card owed := by
    refine (Finset.card_le_card fun id hid => ?_).trans owed.toFinset_card_le
    obtain ⟨-, hlive, hsig⟩ := mem_pendings.1 hid
    exact Multiset.mem_toFinset.2 (howed id hlive hsig)
  have hempty := h.pendings_after hp hcard
  constructor
  · intro hserved id hlive hlimit
    -- a slot behind the limit stays signaled
    have hstays : ∀ {q : Process} {l' : List Action}, q.Ready →
        (∀ slot value, .signal slot value ∈ l' → value ≠ unsignaledEventSlot) →
          q.isSignaled id = true → (q.after l').isSignaled id = true := by
      intro q l' hq hvalue' hsig
      rcases isSignaled_after hq hvalue' hsig with hsig | ⟨hlt, -⟩
      · exact hsig
      · exact absurd hlt (Nat.not_lt.2 hlimit)
    have hend := hserved.acknowledged id hlive
    constructor
    · rw [Bool.eq_false_iff]
      intro hsig
      rw [hstays hp hvalue hsig] at hend
      cases hend
    · intro value hmem
      obtain ⟨A, B, rfl⟩ := List.append_of_mem hmem
      have hsig : ((p.after A).act (.signal id value)).p.isSignaled id = true := by
        rw [isSignaled_signal hp.after, if_pos rfl]
        exact decide_eq_true (hvalue id value hmem)
      have hlast := @hstays _ B hp.after.act (fun slot value' hmem' =>
        hvalue slot value' (List.mem_append_right _ (List.mem_cons_of_mem _ hmem'))) hsig
      rw [after_append] at hend
      rw [show ((p.after A).after (.signal id value :: B)).isSignaled id = true from hlast] at hend
      cases hend
  · intro hnone
    have hack : ∀ id, p.Live id → (p.after l).isSignaled id = false := by
      intro id hlive
      by_cases hlt : id < signalEventLimit
      · rw [Bool.eq_false_iff]
        intro hsig
        have hpend := mem_pendings.2 ⟨hlt, hp.live_after.2 hlive, hsig⟩
        rw [hempty] at hpend
        exact absurd hpend (Finset.notMem_empty id)
      · obtain ⟨hsig, hl⟩ := hnone id hlive (Nat.not_lt.1 hlt)
        exact not_isSignaled_after hp hl hsig
    refine ⟨hack, fun id hlive hsig => ?_, fun id hlive A value B hl => ?_,
      fun A partial_id valid_id_bits B hl => ?_⟩
    · rcases isSignaled_after hp hvalue hsig with hsig | ⟨-, hset⟩
      · rw [hack id hlive] at hsig
        cases hsig
      · exact hset
    · subst hl
      have hsig : ((p.after A).act (.signal id value)).p.isSignaled id = true := by
        rw [isSignaled_signal hp.after, if_pos rfl]
        exact decide_eq_true
          (hvalue id value (List.mem_append_right _ (List.mem_cons_self ..)))
      rcases isSignaled_after (l := B) hp.after.act (fun slot value' hmem' => hvalue slot value'
          (List.mem_append_right _ (List.mem_cons_of_mem _ hmem'))) hsig with hsig | ⟨-, hset⟩
      · have hend := hack id hlive
        rw [after_append] at hend
        rw [show ((p.after A).after (.signal id value :: B)).isSignaled id = true from hsig]
          at hend
        cases hend
      · exact hset
    · have hserves := (@opuSignalEventInterrupt_spec (p.after A) partial_id valid_id_bits
        hp.after).1
      exact ⟨hserves.nodup, fun id hid => (hserves.pending id hid).2.2⟩

/-- Two slots with the same low bit: the interrupt of slot 2 serves slot 0. -/
theorem Process.served_iff_two : ∃ p : Process,
    p.sets [.signal 2 0, .signal 0 1, .call 0 1, .call 0 1] = [0, 2] ∧
      Served p [.signal 2 0, .signal 0 1, .call 0 1, .call 0 1] := by
  refine ⟨{
    event_idr := ⟨[(0, ⟨0, .signal, true, false, []⟩), (2, ⟨2, .debug, false, false, []⟩)],
      by simp⟩
    signal_page := some ⟨32768, fun _ => unsignaledEventSlot, false⟩
    signal_mapped_size := 32768
    signal_event_count := 2 }, by decide, (served_iff ⟨rfl, fun id ev h => ?_, fun id ev h _ => ?_⟩
      (show Answers 0 [.signal 2 0, .signal 0 1, .call (0 % 2 ^ 1) 1, .call (2 % 2 ^ 1) 1] from
        .signal (by decide) (.signal (by decide) (.answer (.answer .done))))
      fun id _ h => ?_).2 fun id hlive hid => ?_⟩
  · have hmem := OrderedMap.mem_of_find? h
    simp only [List.mem_cons, Prod.mk.injEq, List.not_mem_nil, or_false] at hmem
    rcases hmem with ⟨rfl, rfl⟩ | ⟨rfl, rfl⟩ <;> rfl
  · have hmem := OrderedMap.mem_of_find? h
    simp only [List.mem_cons, Prod.mk.injEq, List.not_mem_nil, or_false] at hmem
    rcases hmem with ⟨rfl, rfl⟩ | ⟨rfl, rfl⟩ <;> rfl
  · exact absurd h (by simp [isSignaled])
  · obtain ⟨ev, h, -⟩ := hlive
    have hmem := OrderedMap.mem_of_find? h
    simp only [List.mem_cons, Prod.mk.injEq, List.not_mem_nil, or_false] at hmem
    rcases hmem with ⟨rfl, rfl⟩ | ⟨rfl, rfl⟩ <;> exact absurd hid (by decide)

/-- **A signal behind the limit of the searches is missed**: in a page of 64 KB, the event with id
4096 is signaled and never set. -/
theorem Process.signal_behind_the_limit_is_missed : ∃ p : Process, p.Ready ∧ p.Live 4096 ∧
    Answers 0 [.signal 4096 0, .call (4096 % 2 ^ 16) 16] ∧
    p.sets [.signal 4096 0, .call (4096 % 2 ^ 16) 16] = [] ∧
      ¬Served p [.signal 4096 0, .call (4096 % 2 ^ 16) 16] := by
  refine ⟨{
    event_idr := ⟨[(4096, ⟨4096, .signal, true, false, []⟩)], by simp⟩
    signal_page := some ⟨65536, fun _ => unsignaledEventSlot, false⟩
    signal_mapped_size := 65536
    signal_event_count := 1 }, ⟨rfl, fun id ev h => ?_, fun id ev h _ => ?_⟩,
      ⟨_, rfl, rfl⟩, .signal (by decide) (.answer .done), by decide, fun h => ?_⟩
  · obtain ⟨rfl, rfl⟩ : id = 4096 ∧ ev = _ := by
      simpa using OrderedMap.mem_of_find? h
    rfl
  · obtain ⟨rfl, rfl⟩ : id = 4096 ∧ ev = _ := by
      simpa using OrderedMap.mem_of_find? h
    rfl
  · exact absurd (h.acknowledged 4096 ⟨_, rfl, rfl⟩) (by decide)

end

end Codrive.Events
