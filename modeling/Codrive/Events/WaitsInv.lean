/-
# The invariant of waits and events

What the steps of waits and events keep: the waiters in a queue belong to waits that have not
returned, a signal is taken once, and a wait that ends with success has taken what it needs.  That
no signal is lost is kept by the steps that do not end a wait without success while it alone holds
a signal.

| invariant | field |
|---|---|
| an event is listed under its id | `ids` |
| a waiter in a queue points to the event of the queue | `queued` |
| a signaled event was set, and nobody has taken the signal | `signaled` |
| an activated waiter has a signal of its event | `activated` |
-/

import Codrive.Events.Waits

namespace Codrive.Events

open Codrive.Basis

namespace State

section

variable {s t : State} {ev ev' : Event} {id : ℕ} {w : ℕ} {x : ℕ × ℕ} {wait : Wait} {phase : Phase}
variable {woken : ℕ × ℕ → Bool} {events : List (Option ℕ)} {op : WaitOp} {ops : List WaitOp}

/-- The invariant. -/
structure Inv (s : State) : Prop where
  ids : ∀ id ev, lookupEventById s.p id = some ev → ev.event_id = id
  queued : ∀ id ev, lookupEventById s.p id = some ev → ∀ x ∈ ev.wq, ∃ wait,
    s.waits x.1 = some wait ∧ (∀ ret wait_result, wait.phase ≠ .returned ret wait_result) ∧
      wait.events[x.2]? = some (some id) ∧ ∃ type, (s.waiters x).event = some (id, type)
  since_live : ∀ id n, s.since id = some n → ∃ ev, lookupEventById s.p id = some ev
  signaled : ∀ id ev, lookupEventById s.p id = some ev → ev.signaled = true →
    ∃ n ≤ s.now, s.since id = some n ∧
      (ev.auto_reset = true → ∀ g ∈ s.grants, g.event_id = id → g.signal ≠ n)
  before : ∀ g ∈ s.grants, g.signal ≤ g.moment ∧ g.moment ≤ s.now
  once : ∀ g ∈ s.grants, ∀ g' ∈ s.grants, g.auto_reset = true → g'.auto_reset = true →
    g'.event_id = g.event_id → g'.signal = g.signal → g'.moment = g.moment
  activated : ∀ x, (s.waiters x).activated = true → ∃ wait, s.waits x.1 = some wait ∧
    s.Granted x.1 wait x.2
  done : ∀ w wait, s.waits w = some wait →
    wait.phase = .leaving none .complete ∨ wait.phase = .returned none .complete →
      wait.Needs fun i => (s.waiters (w, i)).activated = true

/-- No signal is lost. -/
def NoneLost (s : State) : Prop :=
  ∀ id ev n, lookupEventById s.p id = some ev → ev.auto_reset = true → s.since id = some n →
    ev.signaled = true ∨
      ∃ g ∈ s.grants, g.event_id = id ∧ g.signal = n ∧ s.Hopeful g.waiter.1

/-- The invariant is what was promised, lost signals apart. -/
theorem Inv.promise (h : s.Inv) (hn : s.NoneLost) : s.Promise where
  none_lost := hn
  registered id ev hev x hx := by
    obtain ⟨wait, hwait, hphase, -⟩ := h.queued id ev hev x hx
    exact ⟨wait, hwait, hphase⟩
  earned w wait hwait hphase := by
    refine (h.done w wait hwait (.inr hphase)).imp fun i hi => ?_
    obtain ⟨wait', hwait', hgrant⟩ := h.activated (w, i) hi
    rw [hwait] at hwait'
    cases hwait'
    exact hgrant
  before := h.before
  once := h.once

theorem lookup_put : lookupEventById (s.put ev).p id =
    if id = ev.event_id then some ev else lookupEventById s.p id :=
  OrderedMap.find?_set ..

theorem Inv.tick (h : s.Inv) : s.tick.Inv where
  ids := h.ids
  queued := h.queued
  since_live := h.since_live
  signaled id ev hev hs := by
    obtain ⟨n, hn, hsince⟩ := h.signaled id ev hev hs
    exact ⟨n, Nat.le_succ_of_le hn, hsince⟩
  before g hg := ⟨(h.before g hg).1, Nat.le_succ_of_le (h.before g hg).2⟩
  once := h.once
  activated := h.activated
  done := h.done

theorem inv_init : Inv {} where
  ids _ _ h := nomatch h
  queued _ _ h := nomatch h
  since_live _ _ h := nomatch h
  signaled _ _ h := nomatch h
  before _ h := nomatch h
  once _ h := nomatch h
  activated _ h := nomatch h
  done _ _ h := nomatch h

/-! ### Events -/

theorem lookup_setEvent : lookupEventById (s.setEvent ev woken).p id = if id = ev.event_id then
    some { Events.setEvent ev with wq := ev.wq.filter fun x => !woken x }
      else lookupEventById s.p id :=
  lookup_put

theorem since_setEvent : (s.setEvent ev woken).since id =
    if id = ev.event_id then some s.now else s.since id :=
  Function.update_apply ..

/-- **An event is set**, at a moment of its own. -/
theorem Inv.setEvent (h : s.Inv) (hev : lookupEventById s.p id = some ev)
    (hnew : ∀ g ∈ s.grants, g.signal < s.now) : (s.setEvent ev woken).Inv := by
  have heq := h.ids id ev hev
  subst heq
  have hlookup : ∀ id ev', lookupEventById (s.setEvent ev woken).p id = some ev' →
      id = ev.event_id ∧ ev' = { Events.setEvent ev with wq := ev.wq.filter fun x => !woken x } ∨
        id ≠ ev.event_id ∧ lookupEventById s.p id = some ev' := by
    intro id ev' h
    rw [lookup_setEvent] at h
    split at h
    · rename_i hid
      exact .inl ⟨hid, (Option.some.inj h).symm⟩
    · rename_i hid
      exact .inr ⟨hid, h⟩
  have hgrant : ∀ g ∈ (s.setEvent ev woken).grants, g ∈ s.grants ∨
      g.event_id = ev.event_id ∧ g.signal = s.now ∧ g.moment = s.now ∧ g.waiter ∈ ev.wq := by
    intro g hg
    rcases List.mem_append.1 hg with hg | hg
    · obtain ⟨x, hx, rfl⟩ := List.mem_map.1 hg
      exact .inr ⟨rfl, rfl, rfl, hx⟩
    · exact .inl hg
  have hevent : ∀ x, ((s.setEvent ev woken).waiters x).event = (s.waiters x).event := by
    intro x
    unfold State.setEvent
    dsimp only
    split <;> rfl
  constructor
  · intro id ev' h'
    rcases hlookup id ev' h' with ⟨rfl, rfl⟩ | ⟨-, h'⟩
    · rfl
    · exact h.ids id ev' h'
  · intro id ev' h' x hx
    rw [hevent]
    rcases hlookup id ev' h' with ⟨rfl, rfl⟩ | ⟨-, h'⟩
    · exact h.queued _ ev hev x (List.mem_filter.1 hx).1
    · exact h.queued id ev' h' x hx
  · intro id n hsince
    rw [since_setEvent] at hsince
    rw [lookup_setEvent]
    split
    · exact ⟨_, rfl⟩
    · rename_i hid
      exact h.since_live id n ((if_neg hid).symm.trans hsince)
  · intro id ev' h' hs
    rcases hlookup id ev' h' with ⟨rfl, rfl⟩ | ⟨hid, h'⟩
    · refine ⟨s.now, Nat.le_refl _, since_setEvent.trans (if_pos rfl), fun hauto g hg _ => ?_⟩
      -- an event that resets itself is signaled only when nobody waits
      have hempty : ev.wq = [] := by
        have hauto' : ev.auto_reset = true := hauto
        simpa [Events.setEvent, hauto'] using hs
      rcases hgrant g hg with hg | ⟨-, -, -, hx⟩
      · exact (hnew g hg).ne
      · rw [hempty] at hx
        exact absurd hx List.not_mem_nil
    · obtain ⟨n, hn, hsince, hfree⟩ := h.signaled id ev' h' hs
      refine ⟨n, hn, (since_setEvent.trans (if_neg hid)).trans hsince,
        fun hauto g hg heq => ?_⟩
      rcases hgrant g hg with hg | ⟨hid', -⟩
      · exact hfree hauto g hg heq
      · exact absurd (heq.symm.trans hid') hid
  · intro g hg
    rcases hgrant g hg with hg | ⟨-, hsignal, hmoment, -⟩
    · exact h.before g hg
    · rw [hsignal, hmoment]
      exact ⟨Nat.le_refl _, Nat.le_refl _⟩
  · intro g hg g' hg' hauto hauto' hid hsignal
    rcases hgrant g hg with hg | ⟨-, hnow, hmoment, -⟩ <;>
      rcases hgrant g' hg' with hg' | ⟨-, hnow', hmoment', -⟩
    · exact h.once g hg g' hg' hauto hauto' hid hsignal
    · exact absurd (hnow'.symm.trans hsignal).symm (hnew g hg).ne
    · exact absurd (hsignal.trans hnow) (hnew g' hg').ne
    · rw [hmoment, hmoment']
  · intro x hx
    by_cases hmem : x ∈ ev.wq
    · obtain ⟨wait, hwait, -, hid, -⟩ := h.queued _ ev hev x hmem
      exact ⟨wait, hwait, _, List.mem_append_left _ (List.mem_map_of_mem hmem), rfl, hid⟩
    · have hx' : (s.waiters x).activated = true := by
        unfold State.setEvent at hx
        dsimp only at hx
        rwa [if_neg hmem] at hx
      obtain ⟨wait, hwait, g, hg, hgx⟩ := h.activated x hx'
      exact ⟨wait, hwait, g, List.mem_append_right _ hg, hgx⟩
  · intro w wait hwait hphase
    refine (h.done w wait hwait hphase).imp fun i hi => ?_
    unfold State.setEvent
    dsimp only
    split
    · rfl
    · exact hi

/-- A signal that activates a waiter with hope, or nobody, is not lost. -/
theorem NoneLost.setEvent (h : s.NoneLost) (hs : s.Inv) (hev : lookupEventById s.p id = some ev)
    (hok : ev.auto_reset = true → ev.wq ≠ [] → ∃ x ∈ ev.wq, s.Hopeful x.1) :
    (s.setEvent ev woken).NoneLost := by
  have heq := hs.ids id ev hev
  subst heq
  intro id ev' n hev' hauto hsince
  rw [lookup_setEvent] at hev'
  rw [since_setEvent] at hsince
  split at hev'
  · rename_i hid
    subst hid
    cases hev'
    have hn : s.now = n := Option.some.inj ((if_pos rfl).symm.trans hsince)
    by_cases hwq : ev.wq = []
    · exact .inl (by simp [Events.setEvent, hwq])
    · obtain ⟨x, hx, hhope⟩ := hok hauto hwq
      exact .inr ⟨_, List.mem_append_left _ (List.mem_map_of_mem hx), rfl, hn, hhope⟩
  · rename_i hid
    rw [if_neg hid] at hsince
    rcases h id ev' n hev' hauto hsince with hsig | ⟨g, hg, hgid, hgn, hhope⟩
    · exact .inl hsig
    · exact .inr ⟨g, List.mem_append_right _ hg, hgid, hgn, hhope⟩

/-- **An event is reset.** -/
theorem Inv.opuResetEvent (h : s.Inv) : (s.opuResetEvent id).2.Inv := by
  unfold State.opuResetEvent
  cases hev : lookupEventById s.p id with
  | none => exact h
  | some ev =>
    dsimp only
    split
    swap
    · exact h
    have heq := h.ids id ev hev
    subst heq
    have hlookup : ∀ id ev', lookupEventById (s.put { ev with signaled := false }).p id = some ev' →
        id = ev.event_id ∧ ev' = { ev with signaled := false } ∨
          id ≠ ev.event_id ∧ lookupEventById s.p id = some ev' := by
      intro id ev' h
      rw [lookup_put] at h
      split at h
      · rename_i hid
        exact .inl ⟨hid, (Option.some.inj h).symm⟩
      · rename_i hid
        exact .inr ⟨hid, h⟩
    refine ⟨fun id ev' h' => ?_, fun id ev' h' => ?_, fun id n hsince => ?_,
      fun id ev' h' hs => ?_, h.before, h.once, h.activated, h.done⟩
    · rcases hlookup id ev' h' with ⟨rfl, rfl⟩ | ⟨-, h'⟩
      · rfl
      · exact h.ids id ev' h'
    · rcases hlookup id ev' h' with ⟨rfl, rfl⟩ | ⟨-, h'⟩
      · exact h.queued _ ev hev
      · exact h.queued id ev' h'
    · dsimp only at hsince ⊢
      rw [Function.update_apply] at hsince
      split at hsince
      · cases hsince
      · rename_i hid
        rw [lookup_put, if_neg hid]
        exact h.since_live id n hsince
    · rcases hlookup id ev' h' with ⟨rfl, rfl⟩ | ⟨hid, h'⟩
      · cases hs
      · obtain ⟨n, hn, hsince, hfree⟩ := h.signaled id ev' h' hs
        refine ⟨n, hn, ?_, hfree⟩
        dsimp only
        rw [Function.update_apply, if_neg hid, hsince]

theorem NoneLost.opuResetEvent (h : s.NoneLost) : (s.opuResetEvent id).2.NoneLost := by
  unfold State.opuResetEvent
  cases hev : lookupEventById s.p id with
  | none => exact h
  | some ev =>
    dsimp only
    split
    swap
    · exact h
    intro id' ev' n hev' hauto hsince
    dsimp only at hev' hsince
    rw [Function.update_apply] at hsince
    rw [lookup_put] at hev'
    split at hsince
    · cases hsince
    · rename_i hid
      rw [if_neg hid] at hev'
      exact h id' ev' n hev' hauto hsince

/-- **An event is destroyed**: its waiters lose it. -/
theorem Inv.opuEventDestroy (h : s.Inv) : (s.opuEventDestroy id).2.Inv := by
  unfold State.opuEventDestroy
  cases hev : lookupEventById s.p id with
  | none => exact h
  | some ev =>
    have heq := h.ids id ev hev
    subst heq
    have hlookup : ∀ id, lookupEventById (destroyEvent s.p ev) id =
        if id = ev.event_id then none else lookupEventById s.p id :=
      OrderedMap.find?_erase s.p.event_idr ev.event_id
    have hkept : ∀ id ev', lookupEventById (destroyEvent s.p ev) id = some ev' →
        id ≠ ev.event_id ∧ lookupEventById s.p id = some ev' := by
      intro id ev' h
      rw [hlookup] at h
      split at h
      · cases h
      · rename_i hid
        exact ⟨hid, h⟩
    refine ⟨fun id ev' h' => h.ids id ev' (hkept id ev' h').2, fun id ev' h' x hx => ?_,
      fun id n hsince => ?_, fun id ev' h' hs => ?_, h.before, h.once, fun x hx => ?_,
      fun w wait hwait hphase => ?_⟩
    · obtain ⟨hid, h'⟩ := hkept id ev' h'
      obtain ⟨wait, hwait, hphase, hidx, type, htype⟩ := h.queued id ev' h' x hx
      refine ⟨wait, hwait, hphase, hidx, type, ?_⟩
      dsimp only
      -- a waiter is in one queue only
      rw [if_neg, htype]
      intro hmem
      obtain ⟨-, -, -, -, type', htype'⟩ := h.queued _ ev hev x hmem
      rw [htype] at htype'
      cases htype'
      exact hid rfl
    · dsimp only at hsince ⊢
      rw [Function.update_apply] at hsince
      split at hsince
      · cases hsince
      · rename_i hid
        rw [hlookup, if_neg hid]
        exact h.since_live id n hsince
    · obtain ⟨hid, h'⟩ := hkept id ev' h'
      obtain ⟨n, hn, hsince, hfree⟩ := h.signaled id ev' h' hs
      refine ⟨n, hn, ?_, hfree⟩
      dsimp only
      rw [Function.update_apply, if_neg hid, hsince]
    · refine h.activated x ?_
      dsimp only at hx
      split at hx
      · exact hx
      · exact hx
    · refine (h.done w wait hwait hphase).imp fun i hi => ?_
      dsimp only
      split
      · exact hi
      · exact hi

theorem NoneLost.opuEventDestroy (h : s.NoneLost) (hs : s.Inv) :
    (s.opuEventDestroy id).2.NoneLost := by
  unfold State.opuEventDestroy
  cases hev : lookupEventById s.p id with
  | none => exact h
  | some ev =>
    have heq := hs.ids id ev hev
    subst heq
    intro id' ev' n hev' hauto hsince
    dsimp only at hev' hsince
    rw [Function.update_apply] at hsince
    split at hsince
    · cases hsince
    · rename_i hid
      have hlookup : lookupEventById (destroyEvent s.p ev) id' = lookupEventById s.p id' :=
        (OrderedMap.find?_erase s.p.event_idr ev.event_id id').trans (if_neg hid)
      rw [hlookup] at hev'
      exact h id' ev' n hev' hauto hsince

/-- The events after a creation. -/
theorem lookup_opuEventCreate {mem : Memory} {type : EventType} {auto_reset : Bool}
    (hev : lookupEventById (s.opuEventCreate mem type auto_reset).p id = some ev) :
    lookupEventById s.p id = some ev ∨
      lookupEventById s.p id = none ∧ ev = { event_id := id, type, auto_reset } := by
  have hlookup : lookupEventById (s.opuEventCreate mem type auto_reset).p id =
      (Events.opuEventCreate mem s.p type auto_reset).2.event_idr.find? id := rfl
  rw [hlookup] at hev
  rcases @opuEventCreate_event_idr mem s.p type auto_reset with hidr | ⟨id', hnone, hidr⟩
  · rw [hidr] at hev
    exact .inl hev
  · rw [hidr, OrderedMap.find?_set] at hev
    split at hev
    · rename_i hid
      subst hid
      exact .inr ⟨hnone, (Option.some.inj hev).symm⟩
    · exact .inl hev

/-- **An event is created.** -/
theorem Inv.opuEventCreate (h : s.Inv) {mem : Memory} {type : EventType} {auto_reset : Bool} :
    (s.opuEventCreate mem type auto_reset).Inv := by
  refine ⟨fun id ev hev => ?_, fun id ev hev x hx => ?_, fun id n hsince => ?_,
    fun id ev hev hs => ?_, h.before, h.once, h.activated, h.done⟩
  · rcases lookup_opuEventCreate hev with hev | ⟨-, rfl⟩
    · exact h.ids id ev hev
    · rfl
  · rcases lookup_opuEventCreate hev with hev | ⟨-, rfl⟩
    · exact h.queued id ev hev x hx
    · exact absurd hx List.not_mem_nil
  · obtain ⟨ev, hev⟩ := h.since_live id n hsince
    have hlookup : lookupEventById (s.opuEventCreate mem type auto_reset).p id =
        (Events.opuEventCreate mem s.p type auto_reset).2.event_idr.find? id := rfl
    rw [hlookup]
    rcases @opuEventCreate_event_idr mem s.p type auto_reset with hidr | ⟨id', -, hidr⟩
    · exact ⟨ev, hidr ▸ hev⟩
    · rw [hidr, OrderedMap.find?_set]
      split
      · exact ⟨_, rfl⟩
      · exact ⟨ev, hev⟩
  · rcases lookup_opuEventCreate hev with hev | ⟨-, rfl⟩
    · exact h.signaled id ev hev hs
    · cases hs

theorem NoneLost.opuEventCreate (h : s.NoneLost) (hs : s.Inv) {mem : Memory} {type : EventType}
    {auto_reset : Bool} : (s.opuEventCreate mem type auto_reset).NoneLost := by
  intro id ev n hev hauto hsince
  rcases lookup_opuEventCreate hev with hev | ⟨hnone, -⟩
  · exact h id ev n hev hauto hsince
  · obtain ⟨ev', hev'⟩ := hs.since_live id n hsince
    rw [hnone] at hev'
    cases hev'

/-! ### The end of a wait -/

/-- A wait in its loop is left, or a wait that has left its loop returns. -/
theorem Inv.setPhase (h : s.Inv) (hwait : s.waits w = some wait)
    (hneeds : phase = .leaving none .complete ∨ phase = .returned none .complete →
      wait.Needs fun i => (s.waiters (w, i)).activated = true)
    (hqueued : ∀ ret wait_result, phase = .returned ret wait_result →
      ∀ id ev, lookupEventById s.p id = some ev → ∀ x ∈ ev.wq, x.1 ≠ w) :
    (s.setPhase w phase).Inv := by
  have hwaits : ∀ w', (s.setPhase w phase).waits w' =
      if w' = w then some { wait with phase } else s.waits w' := by
    intro w'
    unfold State.setPhase
    dsimp only
    rw [Function.update_apply, hwait]
    rfl
  refine ⟨h.ids, fun id ev hev x hx => ?_, h.since_live, h.signaled, h.before, h.once,
    fun x hx => ?_, fun w' wait' hwait' hphase => ?_⟩
  · obtain ⟨wait', hwait', hphase, hidx, htype⟩ := h.queued id ev hev x hx
    rw [hwaits]
    split
    · rename_i hx'
      rw [hx', hwait] at hwait'
      cases hwait'
      exact ⟨_, rfl, fun ret wait_result heq => hqueued ret wait_result heq id ev hev x hx hx',
        hidx, htype⟩
    · exact ⟨wait', hwait', hphase, hidx, htype⟩
  · obtain ⟨wait', hwait', hgrant⟩ := h.activated x hx
    rw [hwaits]
    split
    · rename_i hx'
      rw [hx', hwait] at hwait'
      cases hwait'
      exact ⟨_, rfl, hgrant⟩
    · exact ⟨wait', hwait', hgrant⟩
  · rw [hwaits] at hwait'
    split at hwait'
    · rename_i hw
      subst hw
      cases hwait'
      exact hneeds hphase
    · exact h.done w' wait' hwait' hphase

/-- **No signal is lost when a wait goes on** with hope, or holds no signal alone. -/
theorem NoneLost.setPhase (h : s.NoneLost) (hwait : s.waits w = some wait)
    (hok : phase.hopeful = true ∨ s.HoldsNoneAlone w) : (s.setPhase w phase).NoneLost := by
  have hhopeful : ∀ w', (s.setPhase w phase).Hopeful w' ↔
      if w' = w then phase.hopeful = true else s.Hopeful w' := by
    intro w'
    unfold State.Hopeful State.setPhase
    dsimp only
    rw [Function.update_apply, hwait]
    split
    · simp
    · rfl
  intro id ev n hev hauto hsince
  rcases h id ev n hev hauto hsince with hsig | ⟨g, hg, hgid, hgn, hhope⟩
  · exact .inl hsig
  · by_cases hgw : g.waiter.1 = w
    · rcases hok with hok | hok
      · exact .inr ⟨g, hg, hgid, hgn, (hhopeful _).2 (by rw [if_pos hgw]; exact hok)⟩
      · subst hgid hgn
        refine (hok g hg hgw ev hev hauto hsince).imp_right ?_
        rintro ⟨g', hg', hgid', hgn', hne, hhope'⟩
        exact ⟨g', hg', hgid', hgn', (hhopeful _).2 (by rw [if_neg hne]; exact hhope')⟩
    · exact .inr ⟨g, hg, hgid, hgn, (hhopeful _).2 (by rw [if_neg hgw]; exact hhope)⟩

theorem lookup_freeWaiters {n : ℕ} (hev : lookupEventById (s.freeWaiters w n).p id = some ev) :
    ∃ ev', lookupEventById s.p id = some ev' ∧ ev = { ev' with wq := ev'.wq.filter fun x =>
      !(x.1 = w && x.2 < n && (s.waiters x).event.isSome) } := by
  have hlookup : lookupEventById (s.freeWaiters w n).p id = _ := OrderedMap.find?_mapValues ..
  rw [hlookup] at hev
  obtain ⟨ev', hev', heq⟩ := Option.map_eq_some_iff.1 hev
  exact ⟨ev', hev', heq.symm⟩

theorem Inv.freeWaiters (h : s.Inv) {n : ℕ} : (s.freeWaiters w n).Inv := by
  refine ⟨fun id ev hev => ?_, fun id ev hev x hx => ?_, fun id k hsince => ?_,
    fun id ev hev hs => ?_, h.before, h.once, h.activated, h.done⟩
  · obtain ⟨ev', hev', rfl⟩ := lookup_freeWaiters hev
    exact h.ids id ev' hev'
  · obtain ⟨ev', hev', rfl⟩ := lookup_freeWaiters hev
    exact h.queued id ev' hev' x (List.mem_filter.1 hx).1
  · obtain ⟨ev, hev⟩ := h.since_live id k hsince
    have hlookup : lookupEventById (s.freeWaiters w n).p id = _ := OrderedMap.find?_mapValues ..
    rw [hlookup, show s.p.event_idr.find? id = some ev from hev]
    exact ⟨_, rfl⟩
  · obtain ⟨ev', hev', rfl⟩ := lookup_freeWaiters hev
    exact h.signaled id ev' hev' hs

theorem NoneLost.freeWaiters (h : s.NoneLost) {n : ℕ} : (s.freeWaiters w n).NoneLost := by
  intro id ev k hev hauto hsince
  obtain ⟨ev', hev', rfl⟩ := lookup_freeWaiters hev
  exact h id ev' k hev' hauto hsince

/-- **`free_waiters` takes the waiters of the wait from all queues.** -/
theorem Inv.not_queued_freeWaiters (h : s.Inv) (hwait : s.waits w = some wait)
    (hev : lookupEventById (s.freeWaiters w wait.events.length).p id = some ev) (hx : x ∈ ev.wq) :
    x.1 ≠ w := by
  obtain ⟨ev', hev', rfl⟩ := lookup_freeWaiters hev
  obtain ⟨hx', hkeep⟩ := List.mem_filter.1 hx
  rintro rfl
  obtain ⟨wait', hwait', -, hidx, type, htype⟩ := h.queued id ev' hev' x hx'
  rw [hwait] at hwait'
  cases hwait'
  have hlt : x.2 < wait.events.length := by
    by_contra hge
    rw [List.getElem?_eq_none (Nat.not_lt.1 hge)] at hidx
    cases hidx
  simp [hlt, htype] at hkeep

end

end State

end Codrive.Events
