/-
# Waiting on events

`opu_wait_on_events` of `src/src/cmdio/linux/opu_events.c` with the functions that set, reset and
destroy what it waits on, one step for each section that holds `event_mutex` and one for each pass
through the loop of a wait, which does not hold it:

| step | source |
|---|---|
| `wait` | `opu_wait_on_events` up to the first `mutex_unlock` |
| `interrupt`, `recheck` | the last pass through `while (true)` and `copy_signaled_event_data` |
| `finish` | `free_waiters` and what follows |

The waiter `(w, i)` is `event_waiters[i]` of the wait `w`.  A waiter is in one queue at most, which
`remove_wait_queue` takes it from, whatever its pointer says.  The array is not zeroed, and an early
error leaves pointers in it that were never set; the waiters of these are in no queue.

`now`, `since` and `grants` are not in the code: they say when an event was set last and which
waiters its signal has activated.
-/

import Codrive.Events.Process

namespace Codrive.Events

open Codrive.Basis

/-- `OPU_IOC_WAIT_RESULT_*`. -/
inductive WaitResult where
  | complete | timeout | fail
  deriving DecidableEq, Repr

/-- `struct opu_event_waiter`: the id and the type of the event it points to. -/
structure Waiter where
  event : Option (ℕ × EventType) := none
  activated : Bool := false
  deriving DecidableEq, Repr

/-- Where a wait is: in its loop, after its loop, or at its end. -/
inductive Phase where
  | waiting
  | leaving (ret : Option Errno) (wait_result : WaitResult)
  | returned (ret : Option Errno) (wait_result : WaitResult)
  deriving DecidableEq, Repr

/-- A call of `opu_wait_on_events`; an entry of the user's array that cannot be read is `none`. -/
structure Wait where
  events : List (Option ℕ)
  all : Bool
  user_timeout_ms : ℕ
  phase : Phase := .waiting
  deriving DecidableEq, Repr

/-- `OPU_EVENT_TIMEOUT_INFINITE`. -/
def eventTimeoutInfinite : ℕ := 0xFFFFFFFF

/-- A waiter was activated by a signal. -/
structure Grant where
  event_id : ℕ
  auto_reset : Bool
  /-- When the event was set. -/
  signal : ℕ
  /-- When the waiter was activated. -/
  moment : ℕ
  waiter : ℕ × ℕ
  deriving DecidableEq, Repr

/-- The events of a process, its waits, and what happened. -/
structure State where
  p : Process := {}
  waiters : ℕ × ℕ → Waiter := fun _ => {}
  waits : ℕ → Option Wait := fun _ => none
  now : ℕ := 0
  /-- When the event was set last, if it was not reset or destroyed since. -/
  since : ℕ → Option ℕ := fun _ => none
  grants : List Grant := []

namespace State

/-- An event with other values. -/
def put (s : State) (ev : Event) : State :=
  { s with p := { s.p with event_idr := s.p.event_idr.set ev.event_id ev } }

/-- `set_event`, and the waiters that `wake_up_all` wakes leave the queue. -/
def setEvent (s : State) (ev : Event) (woken : ℕ × ℕ → Bool) : State :=
  let t := s.put { Events.setEvent ev with wq := ev.wq.filter fun x => !woken x }
  { t with
    waiters := fun x =>
      if x ∈ ev.wq then { s.waiters x with activated := true } else s.waiters x
    since := Function.update s.since ev.event_id (some s.now)
    grants := ev.wq.map (fun x => ⟨ev.event_id, ev.auto_reset, s.now, s.now, x⟩) ++ s.grants }

/-- `opu_set_event`. -/
def opuSetEvent (s : State) (event_id : ℕ) (woken : ℕ × ℕ → Bool) : Option Errno × State :=
  match lookupEventById s.p event_id with
  | some ev =>
    if eventCanBeCpuSignaled ev then (none, s.setEvent ev woken) else (some .einval, s)
  | none => (some .einval, s)

/-- `set_event` by a handler of interrupts, of any event. -/
def signalEvent (s : State) (event_id : ℕ) (woken : ℕ × ℕ → Bool) : State :=
  match lookupEventById s.p event_id with
  | some ev => s.setEvent ev woken
  | none => s

/-- `opu_reset_event`. -/
def opuResetEvent (s : State) (event_id : ℕ) : Option Errno × State :=
  match lookupEventById s.p event_id with
  | some ev =>
    if eventCanBeCpuSignaled ev then
      (none, { s.put { ev with signaled := false } with
        since := Function.update s.since ev.event_id none })
    else (some .einval, s)
  | none => (some .einval, s)

/-- `opu_event_destroy`: the waiters in the queue lose their event. -/
def opuEventDestroy (s : State) (event_id : ℕ) : Option Errno × State :=
  match lookupEventById s.p event_id with
  | some ev =>
    (none, { s with
      p := destroyEvent s.p ev
      waiters := fun x => if x ∈ ev.wq then { s.waiters x with event := none } else s.waiters x
      since := Function.update s.since ev.event_id none })
  | none => (some .einval, s)

/-- `opu_event_create`. -/
def opuEventCreate (s : State) (mem : Memory) (type : EventType) (auto_reset : Bool) : State :=
  { s with p := (Events.opuEventCreate mem s.p type auto_reset).2 }

/-! ### The parts of a wait -/

/-- `event_waiters`. -/
def eventWaiters (s : State) (w num_events : ℕ) : List Waiter :=
  (List.range num_events).map fun i => s.waiters (w, i)

/-- `init_event_waiter_get_status`. -/
def initEventWaiterGetStatus (s : State) (x : ℕ × ℕ) (event_id : ℕ) : Option Errno × State :=
  match lookupEventById s.p event_id with
  | none => (some .einval, s)
  | some ev =>
    (none, { s.put { ev with signaled := ev.signaled && !ev.auto_reset } with
      waiters := Function.update s.waiters x ⟨some (ev.event_id, ev.type), ev.signaled⟩
      grants := if ev.signaled then
          (s.since ev.event_id).toList.map
            (fun n => ⟨ev.event_id, ev.auto_reset, n, s.now, x⟩) ++ s.grants
        else s.grants })

/-- The loop that reads the user's array and initialises the waiters from `i` on. -/
def initEventWaiters (s : State) (w i : ℕ) : List (Option ℕ) → Option Errno × State
  | [] => (none, s)
  | none :: _ => (some .efault, s)
  | some event_id :: events =>
    match s.initEventWaiterGetStatus (w, i) event_id with
    | (none, s) => initEventWaiters s w (i + 1) events
    | (some e, s) => (some e, s)

/-- `init_event_waiter_add_to_waitlist`. -/
def initEventWaiterAddToWaitlist (s : State) (x : ℕ × ℕ) : State :=
  match (s.waiters x).event with
  | some (event_id, _) =>
    match lookupEventById s.p event_id with
    | some ev => if (s.waiters x).activated then s else s.put { ev with wq := x :: ev.wq }
    | none => s
  | none => s

/-- `free_waiters`. -/
def freeWaiters (s : State) (w num_events : ℕ) : State :=
  { s with p := { s.p with event_idr := s.p.event_idr.mapValues fun ev => { ev with
      wq := ev.wq.filter fun x =>
        !(x.1 = w && x.2 < num_events && (s.waiters x).event.isSome) } } }

/-- The wait goes on to another phase. -/
def setPhase (s : State) (w : ℕ) (phase : Phase) : State :=
  { s with waits := Function.update s.waits w ((s.waits w).map fun wait => { wait with phase }) }

end State

/-- The loop of `test_event_condition` over the waiters that are left. -/
def testEventCondition.loop (all : Bool) (num_events : ℕ) : List Waiter → ℕ → WaitResult
  | [], activated_count => if activated_count = num_events then .complete else .timeout
  | waiter :: waiters, activated_count =>
    if waiter.event.isNone then .fail
    else if waiter.activated then
      if !all then .complete else loop all num_events waiters (activated_count + 1)
    else loop all num_events waiters activated_count

/-- `test_event_condition`. -/
def testEventCondition (all : Bool) (waiters : List Waiter) : WaitResult :=
  testEventCondition.loop all waiters.length waiters 0

/-- `copy_signaled_event_data`, to memory that may be written unless `fault`. -/
def copySignaledEventData (fault : Bool) (waiters : List Waiter) : Option Errno :=
  if fault && waiters.any fun waiter => waiter.activated && waiter.event.any (·.2 = .memory) then
    some .efault
  else none

/-- What is behind the label `out`. -/
def waitReturn (ret : Option Errno) (wait_result : WaitResult) : Phase :=
  if ret.isSome then .returned ret .fail
  else if wait_result = .fail then .returned (some .eio) .fail
  else .returned none wait_result

namespace State

/-- `opu_wait_on_events` up to where it lets go of the mutex first, or to its end. -/
def opuWaitOnEvents (s : State) (mem fault : Bool) (w : ℕ) (events : List (Option ℕ)) (all : Bool)
    (user_timeout_ms : ℕ) : State :=
  let n := events.length
  let s := { s with waits := Function.update s.waits w (some { events, all, user_timeout_ms }) }
  if !mem then s.setPhase w (waitReturn (some .enomem) .timeout)
  else
    let s := { s with waiters := fun x => if x.1 = w then {} else s.waiters x }
    match s.initEventWaiters w 0 events with
    | (some e, s) => (s.freeWaiters w n).setPhase w (waitReturn (some e) .timeout)
    | (none, s) =>
      match testEventCondition all (s.eventWaiters w n) with
      | .complete => (s.freeWaiters w n).setPhase w
          (waitReturn (copySignaledEventData fault (s.eventWaiters w n)) .complete)
      | .fail => (s.freeWaiters w n).setPhase w (waitReturn none .fail)
      | .timeout =>
        (List.range n).foldl (fun s i => s.initEventWaiterAddToWaitlist (w, i)) s

/-- The loop of a wait is left with a signal pending. -/
def interrupt (s : State) (w : ℕ) (fatal : Bool) : State :=
  s.setPhase w (.leaving (some (if fatal then .eintr else .erestartsys)) .timeout)

/-- What a wait finds when it checks its condition. -/
def check (s : State) (w : ℕ) (wait : Wait) : WaitResult :=
  testEventCondition wait.all (s.eventWaiters w wait.events.length)

/-- The loop of a wait is left after a check of its condition. -/
def recheck (s : State) (w : ℕ) (wait : Wait) (fault : Bool) : State :=
  s.setPhase w (.leaving
    (if s.check w wait = .complete then
      copySignaledEventData fault (s.eventWaiters w wait.events.length)
    else none)
    (s.check w wait))

/-- The end of a wait. -/
def finish (s : State) (w : ℕ) (wait : Wait) : State :=
  match wait.phase with
  | .leaving ret wait_result =>
    (s.freeWaiters w wait.events.length).setPhase w (waitReturn ret wait_result)
  | _ => s

end State

/-! ### Steps -/

/-- The steps. -/
inductive WaitOp where
  | create (mem : Memory) (type : EventType) (auto_reset : Bool)
  | destroy (event_id : ℕ)
  | set (event_id : ℕ) (woken : ℕ × ℕ → Bool)
  | signal (event_id : ℕ) (woken : ℕ × ℕ → Bool)
  | reset (event_id : ℕ)
  | wait (mem fault : Bool) (w : ℕ) (events : List (Option ℕ)) (all : Bool) (user_timeout_ms : ℕ)
  | interrupt (w : ℕ) (fatal : Bool)
  | recheck (w : ℕ) (fault : Bool)
  | finish (w : ℕ)

namespace State

/-- Time goes on. -/
def tick (s : State) : State := { s with now := s.now + 1 }

/-- One step.  A wait without an end of its time only leaves its loop when its condition has
changed. -/
inductive Step : State → WaitOp → State → Prop
  | create {s : State} {mem : Memory} {type : EventType} {auto_reset : Bool} :
      Step s (.create mem type auto_reset) (s.tick.opuEventCreate mem type auto_reset)
  | destroy {s : State} {event_id : ℕ} :
      Step s (.destroy event_id) (s.tick.opuEventDestroy event_id).2
  | set {s : State} {event_id : ℕ} {woken : ℕ × ℕ → Bool} :
      Step s (.set event_id woken) (s.tick.opuSetEvent event_id woken).2
  | signal {s : State} {event_id : ℕ} {woken : ℕ × ℕ → Bool} :
      Step s (.signal event_id woken) (s.tick.signalEvent event_id woken)
  | reset {s : State} {event_id : ℕ} :
      Step s (.reset event_id) (s.tick.opuResetEvent event_id).2
  | wait {s : State} {mem fault : Bool} {w : ℕ} {events : List (Option ℕ)} {all : Bool}
      {user_timeout_ms : ℕ} : s.waits w = none →
      Step s (.wait mem fault w events all user_timeout_ms)
        (s.tick.opuWaitOnEvents mem fault w events all user_timeout_ms)
  | interrupt {s : State} {w : ℕ} {wait : Wait} {fatal : Bool} :
      s.waits w = some wait → wait.phase = .waiting →
      Step s (.interrupt w fatal) (s.tick.interrupt w fatal)
  | recheck {s : State} {w : ℕ} {wait : Wait} {fault : Bool} :
      s.waits w = some wait → wait.phase = .waiting →
      (s.check w wait = .timeout → wait.user_timeout_ms ≠ eventTimeoutInfinite) →
      Step s (.recheck w fault) (s.tick.recheck w wait fault)
  | finish {s : State} {w : ℕ} {wait : Wait} {ret : Option Errno} {wait_result : WaitResult} :
      s.waits w = some wait → wait.phase = .leaving ret wait_result →
      Step s (.finish w) (s.tick.finish w wait)

end State

/-! ### What is promised -/

/-- A wait in this phase has ended well, or may do so. -/
def Phase.hopeful : Phase → Bool
  | .waiting => true
  | .leaving ret wait_result | .returned ret wait_result =>
    ret.isNone && wait_result = .complete

/-- What a wait needs: all its events or one of them, if there are any. -/
def Wait.Needs (wait : Wait) (P : ℕ → Prop) : Prop :=
  if wait.all then ∀ i < wait.events.length, P i
  else wait.events = [] ∨ ∃ i < wait.events.length, P i

theorem Wait.Needs.imp {wait : Wait} {P Q : ℕ → Prop} (h : wait.Needs P)
    (himp : ∀ i, P i → Q i) : wait.Needs Q := by
  unfold Wait.Needs at h ⊢
  split
  · rename_i hall
    rw [if_pos hall] at h
    exact fun i hi => himp i (h i hi)
  · rename_i hall
    rw [if_neg hall] at h
    exact h.imp_right fun ⟨i, hi, hP⟩ => ⟨i, hi, himp i hP⟩

namespace State

/-- The wait has returned success, or may do so. -/
def Hopeful (s : State) (w : ℕ) : Prop :=
  ∃ wait, s.waits w = some wait ∧ wait.phase.hopeful = true

/-- A signal of the waiter's event has activated it. -/
def Granted (s : State) (w : ℕ) (wait : Wait) (i : ℕ) : Prop :=
  ∃ g ∈ s.grants, g.waiter = (w, i) ∧ wait.events[i]? = some (some g.event_id)

/-- **What is promised of the waits.** -/
structure Promise (s : State) : Prop where
  /-- An event that was set and resets itself is signaled, or it has activated a wait that has
  returned success or has not come to its end. -/
  none_lost : ∀ id ev n, lookupEventById s.p id = some ev → ev.auto_reset = true →
    s.since id = some n → ev.signaled = true ∨
      ∃ g ∈ s.grants, g.event_id = id ∧ g.signal = n ∧ s.Hopeful g.waiter.1
  /-- No waiter of a wait that has returned is in a queue. -/
  registered : ∀ id ev, lookupEventById s.p id = some ev → ∀ x ∈ ev.wq,
    ∃ wait, s.waits x.1 = some wait ∧ ∀ ret wait_result, wait.phase ≠ .returned ret wait_result
  /-- A wait that has returned success has what it needs. -/
  earned : ∀ w wait, s.waits w = some wait → wait.phase = .returned none .complete →
    wait.Needs (s.Granted w wait)
  /-- A signal is there before it is taken. -/
  before : ∀ g ∈ s.grants, g.signal ≤ g.moment ∧ g.moment ≤ s.now
  /-- An event that resets itself is taken once for each signal, by all its waiters or one. -/
  once : ∀ g ∈ s.grants, ∀ g' ∈ s.grants, g.auto_reset = true → g'.auto_reset = true →
    g'.event_id = g.event_id → g'.signal = g.signal → g'.moment = g.moment

/-! ### The steps that lose no signal -/

/-- The entry of the user's array can be read and is the id of an event. -/
def Known (p : Process) (entry : Option ℕ) : Prop :=
  ∃ id ev, entry = some id ∧ lookupEventById p id = some ev

/-- **A call of a wait takes a signal**: of the events it looks up, one resets itself and is
signaled. -/
def Takes (p : Process) (events : List (Option ℕ)) : Prop :=
  ∃ A id B ev, events = A ++ some id :: B ∧ (∀ entry ∈ A, Known p entry) ∧
    lookupEventById p id = some ev ∧ ev.auto_reset = true ∧ ev.signaled = true

/-- **A call of a wait fails**: an entry of the array cannot be read or is no event, or the data of
a memory event cannot be written and the wait need not sleep. -/
def Fails (p : Process) (fault : Bool) (events : List (Option ℕ)) (all : Bool) : Prop :=
  (∃ entry ∈ events, ¬Known p entry) ∨
    fault = true ∧ (∃ id ev, some id ∈ events ∧ lookupEventById p id = some ev ∧
      ev.type = .memory ∧ ev.signaled = true) ∧
      (all = true → ∀ id ev, some id ∈ events → lookupEventById p id = some ev →
        ev.signaled = true ∧ (ev.auto_reset = true → events.count (some id) = 1))

/-- **A wait holds no signal alone**: where it has taken the last signal of an event that resets
itself, the event is signaled again or another wait was activated too. -/
def HoldsNoneAlone (s : State) (w : ℕ) : Prop :=
  ∀ g ∈ s.grants, g.waiter.1 = w → ∀ ev, lookupEventById s.p g.event_id = some ev →
    ev.auto_reset = true → s.since g.event_id = some g.signal → ev.signaled = true ∨
      ∃ g' ∈ s.grants, g'.event_id = g.event_id ∧ g'.signal = g.signal ∧ g'.waiter.1 ≠ w ∧
        s.Hopeful g'.waiter.1

/-- The steps that lose no signal. -/
def StepOk (s : State) : WaitOp → Prop
  | .set event_id _ => ∀ ev, lookupEventById s.p event_id = some ev →
      eventCanBeCpuSignaled ev = true → ev.auto_reset = true → ev.wq ≠ [] →
        ∃ x ∈ ev.wq, s.Hopeful x.1
  | .signal event_id _ => ∀ ev, lookupEventById s.p event_id = some ev →
      ev.auto_reset = true → ev.wq ≠ [] → ∃ x ∈ ev.wq, s.Hopeful x.1
  | .wait mem fault _ events all _ => mem = true → Fails s.p fault events all → ¬Takes s.p events
  | .interrupt w _ => s.HoldsNoneAlone w
  | .recheck w fault => ∀ wait, s.waits w = some wait →
      ¬(s.check w wait = .complete ∧
        copySignaledEventData fault (s.eventWaiters w wait.events.length) = none) →
        s.HoldsNoneAlone w
  | _ => True

end State

end Codrive.Events
