/-
# Waits over runs

Every step keeps the invariant, and a step that is allowed loses no signal.  A signal is lost when
the wait that took it alone ends without success: with an error, at the end of its time, because a
signal is pending for the task, or because another of its events is destroyed; and when an event is
set while all waits in its queue have left their loops without success.
-/

import Codrive.Basis.Run
import Codrive.Events.WaitsStart

namespace Codrive.Events

open Codrive.Basis

namespace State

section

variable {s t : State} {ev ev' : Event} {id : ℕ} {w : ℕ} {x : ℕ × ℕ} {wait : Wait} {phase : Phase}
variable {woken : ℕ × ℕ → Bool} {events : List (Option ℕ)} {op : WaitOp} {ops : List WaitOp}

/-- A wait without hope holds no signal alone. -/
theorem NoneLost.holdsNoneAlone (h : s.NoneLost) (hw : ¬s.Hopeful w) : s.HoldsNoneAlone w := by
  intro g hg hgw ev hev hauto hsince
  refine (h _ ev _ hev hauto hsince).imp_right ?_
  rintro ⟨g', hg', hgid', hgn', hhope⟩
  exact ⟨g', hg', hgid', hgn', fun heq => hw (heq ▸ hhope), hhope⟩

/-- `set_event` of a live event at the next moment. -/
theorem Inv.set (h : s.Inv) (hn : s.NoneLost) (hev : lookupEventById s.p id = some ev)
    (hok : ev.auto_reset = true → ev.wq ≠ [] → ∃ x ∈ ev.wq, s.Hopeful x.1) :
    (s.tick.setEvent ev woken).Inv ∧ (s.tick.setEvent ev woken).NoneLost :=
  ⟨h.tick.setEvent hev fun g hg =>
      Nat.lt_succ_of_le ((h.before g hg).1.trans (h.before g hg).2),
    NoneLost.setEvent (s := s.tick) hn h.tick hev hok⟩

/-- **A step keeps the invariant and loses no signal** where it is allowed. -/
theorem Step.keeps (h : s.Step op t) (hok : s.StepOk op) (hs : s.Inv) (hn : s.NoneLost) :
    t.Inv ∧ t.NoneLost := by
  have hn' : s.tick.NoneLost := hn
  cases h with
  | create => exact ⟨hs.tick.opuEventCreate, hn'.opuEventCreate hs.tick⟩
  | destroy => exact ⟨hs.tick.opuEventDestroy, hn'.opuEventDestroy hs.tick⟩
  | @set event_id woken =>
    unfold State.opuSetEvent
    cases hev : lookupEventById s.tick.p event_id with
    | none => exact ⟨hs.tick, hn'⟩
    | some ev =>
      dsimp only
      split
      · rename_i hcpu
        exact hs.set hn hev (hok ev hev hcpu)
      · exact ⟨hs.tick, hn'⟩
  | @signal event_id woken =>
    unfold State.signalEvent
    cases hev : lookupEventById s.tick.p event_id with
    | none => exact ⟨hs.tick, hn'⟩
    | some ev => exact hs.set hn hev (hok ev hev)
  | reset => exact ⟨hs.tick.opuResetEvent, hn'.opuResetEvent⟩
  | wait hnone => exact hs.tick.opuWaitOnEvents hn' hnone hok
  | @interrupt w wait fatal hwait hphase =>
    refine ⟨hs.tick.setPhase hwait (fun h => ?_) fun _ _ h => (nomatch h),
      hn'.setPhase hwait (.inr hok)⟩
    rcases h with h | h <;> cases h
  | @recheck w wait fault hwait hphase htimeout =>
    constructor
    · refine hs.tick.setPhase hwait (fun h => ?_) fun _ _ h => nomatch h
      rcases h with h | h
      · exact needs_of_check (Phase.leaving.inj h).2
      · cases h
    · refine hn'.setPhase hwait ?_
      by_cases hgood : s.check w wait = .complete ∧
          copySignaledEventData fault (s.eventWaiters w wait.events.length) = none
      · refine .inl (hopeful_iff.2 ⟨?_, hgood.1⟩)
        exact (if_pos hgood.1).trans hgood.2
      · exact .inr (hok wait hwait hgood)
  | @finish w wait ret wait_result hwait hphase =>
    unfold State.finish
    rw [hphase]
    refine ⟨hs.tick.returns hwait fun hret hresult => ?_, hn'.returns hwait ?_⟩
    · subst hret hresult
      exact hs.done w wait hwait (.inl hphase)
    · by_cases hhope : (Phase.leaving ret wait_result).hopeful = true
      · exact .inl hhope
      · refine .inr (hn'.freeWaiters.holdsNoneAlone ?_)
        rintro ⟨wait', hwait', hphase'⟩
        have heq : wait = wait' := Option.some.inj (hwait.symm.trans hwait')
        rw [← heq, hphase] at hphase'
        exact hhope hphase'

end

end State

end Codrive.Events
