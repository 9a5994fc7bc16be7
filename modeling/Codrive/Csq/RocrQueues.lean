/-
# Hardware queues and their owners

`createOrstealRocrQueue` and `removeRocrQueue` of `src/src/driver/csq_device.cpp`, with the calls of
`csq_queue.cpp` that lead to them.

| here | source |
|---|---|
| a number | a `DlaQueue`, or a `RocrQueue` in the order in which they are created |
| `Pc` | how far the thread is that holds the `qmutex` of a queue, if one does |
| `DlaDevice.disposing` | the queue whose `dispose` holds `rocrQueuesMutex` |
| `empty` | what `isEmpty` of each queue answers when its turn comes |
| `ndebug` | whether the build compiles assertions out |

Every part of the code that takes a lock and gives it up is one step, and steps of any threads are
taken in any order.  The links between the queues are written under `rocrQueuesMutex` only.  A
marker that `isEmpty` puts into a queue goes to the hardware queue it has.
-/

import Codrive.Basis.Machine
import Mathlib.Logic.Function.Basic

namespace Codrive.Csq

open Codrive.Basis

/-- `queue_priority`. -/
inductive QueuePriority where
  | high | normal | low
  deriving DecidableEq, Repr

/-- `RocrQueue`. -/
structure RocrQueue where
  _hccQueue : Option ℕ
  _priority : QueuePriority
  deriving DecidableEq, Repr

/-- Where a `DlaQueue` is: in `createOrstealRocrQueue`, called by the constructor or not, before it
looks at the limit or before one of its passes; constructed and not registered yet; with its
hardware queue locked; disposed of. -/
inductive Pc where
  | absent
  | creating (constructor : Bool) (priority : QueuePriority)
  | firstPass (constructor : Bool) (priority : QueuePriority)
  | secondPass (constructor : Bool) (priority : QueuePriority)
  | constructed
  | idle
  | using
  | disposed
  deriving DecidableEq, Repr

/-- The `qmutex` of the queue is locked. -/
def Pc.locked : Pc → Bool
  | .creating _ _ => true
  | .firstPass _ _ => true
  | .secondPass _ _ => true
  | .using => true
  | _ => false

/-- `DlaDevice`, with the links of its queues. -/
structure DlaDevice where
  rocrQueues : QueuePriority → List ℕ := fun _ => []
  rocr : ℕ → RocrQueue := fun _ => ⟨none, .normal⟩
  made : ℕ := 0
  rocrQueue : ℕ → Option ℕ := fun _ => none
  pc : ℕ → Pc := fun _ => .absent
  queues : ℕ := 0
  disposing : Option ℕ := none

/-- Why a step is not taken: it waits for a lock or is not there to be taken; a failed assertion;
the owner of a hardware queue is read through a null pointer. -/
inductive Fault where
  | blocked | abort | nullOwner
  deriving DecidableEq, Repr

/-- `rqSize`. -/
def DlaDevice.rqSize (d : DlaDevice) : ℕ :=
  (d.rocrQueues .high).length + (d.rocrQueues .normal).length + (d.rocrQueues .low).length

/-- The thread of a queue gets on. -/
def DlaDevice.goto (q : ℕ) (pc : Pc) (d : DlaDevice) : DlaDevice :=
  { d with pc := Function.update d.pc q pc }

/-- `createOrstealRocrQueue` returns. -/
def DlaDevice.finish (q : ℕ) (constructor : Bool) (d : DlaDevice) : DlaDevice :=
  d.goto q (if constructor then .constructed else .using)

/-- `assignHccQueue`. -/
def assignHccQueue (ndebug : Bool) (rq hccQueue : ℕ) (d : DlaDevice) : Except Fault DlaDevice :=
  if assert ndebug (d.rocrQueue hccQueue).isNone = none then .error .abort
  else .ok { d with
    rocrQueue := Function.update d.rocrQueue hccQueue (some rq)
    rocr := Function.update d.rocr rq { d.rocr rq with _hccQueue := some hccQueue } }

/-- `createOrstealRocrQueue` up to its loop. -/
def create (ndebug : Bool) (HCC_MAX_QUEUES : ℕ) (thief : ℕ) (constructor : Bool)
    (priority : QueuePriority) (d : DlaDevice) : Except Fault DlaDevice :=
  if d.rqSize < HCC_MAX_QUEUES then
    (assignHccQueue ndebug d.made thief { d with
      made := d.made + 1
      rocr := Function.update d.rocr d.made ⟨none, priority⟩
      rocrQueues := Function.update d.rocrQueues priority
        (d.rocrQueues priority ++ [d.made]) }).map (·.finish thief constructor)
  else .ok (d.goto thief (.firstPass constructor priority))

/-- The first pass of the loop: an unused hardware queue. -/
def firstPass (ndebug : Bool) (thief : ℕ) (constructor : Bool) (priority : QueuePriority)
    (d : DlaDevice) : Except Fault DlaDevice :=
  match (d.rocrQueues priority).find? fun rq => (d.rocr rq)._hccQueue = none with
  | some rq => (assignHccQueue ndebug rq thief d).map (·.finish thief constructor)
  | none => .ok (d.goto thief (.secondPass constructor priority))

/-- The second pass of the loop, over the hardware queues: one whose owner is empty. -/
def stealLoop (ndebug : Bool) (empty : ℕ → Bool) (thief : ℕ) (constructor : Bool)
    (priority : QueuePriority) : List ℕ → DlaDevice → Except Fault DlaDevice
  | [], d => .ok (d.goto thief (.firstPass constructor priority))
  | rq :: rqs, d =>
    if (d.rocr rq)._hccQueue = some thief then
      stealLoop ndebug empty thief constructor priority rqs d
    else
      match (d.rocr rq)._hccQueue with
      | none => .error .nullOwner
      | some victim =>
        if (d.pc victim).locked then .error .blocked
        else if !empty victim then stealLoop ndebug empty thief constructor priority rqs d
        else if assert ndebug (d.rocrQueue victim = some rq) = none then .error .abort
        else
          (assignHccQueue ndebug rq thief
            { d with rocrQueue := Function.update d.rocrQueue victim none }).map
              (·.finish thief constructor)

/-- `removeRocrQueue`. -/
def removeRocrQueue (ndebug : Bool) (rq : ℕ) (d : DlaDevice) : Except Fault DlaDevice :=
  if d.queues < d.rqSize then
    let priority := (d.rocr rq)._priority
    if assert ndebug (decide (rq ∈ d.rocrQueues priority)) = none then .error .abort
    else .ok { d with rocrQueues :=
        Function.update d.rocrQueues priority ((d.rocrQueues priority).erase rq) }
  else .ok { d with rocr := Function.update d.rocr rq { d.rocr rq with _hccQueue := none } }

/-- The end of `dispose`, with the `qmutex` of the queue; `marker` is whether `wait` puts a marker
into it, which takes `rocrQueuesMutex` again where the queue has no hardware queue. -/
def disposeEnd (ndebug marker : Bool) (q : ℕ) (d : DlaDevice) : Except Fault DlaDevice :=
  match d.rocrQueue q with
  | none =>
    if marker then .error .blocked else .ok { d.goto q .disposed with disposing := none }
  | some rq =>
    (removeRocrQueue ndebug rq d).map fun d =>
      { d.goto q .disposed with
        disposing := none
        rocrQueue := Function.update d.rocrQueue q none }

/-! ### Steps -/

/-- A step of a thread. -/
inductive Act where
  | construct (q : ℕ) (priority : QueuePriority)
  | acquire (q : ℕ)
  | create (q : ℕ)
  | firstPass (q : ℕ)
  | secondPass (q : ℕ) (empty : ℕ → Bool)
  | register (q : ℕ)
  | release (q : ℕ)
  | dispose (q : ℕ)
  | disposeEnd (marker : Bool)

/-- What a step does; steps of `createOrstealRocrQueue` wait for `rocrQueuesMutex`. -/
def act (ndebug : Bool) (HCC_MAX_QUEUES : ℕ) (d : DlaDevice) : Act → Except Fault DlaDevice
  | .construct q priority =>
    if d.pc q = .absent then .ok (d.goto q (.creating true priority)) else .error .blocked
  | .acquire q =>
    if d.pc q ≠ .idle then .error .blocked
    else if d.rocrQueue q = none then .ok (d.goto q (.creating false .normal))
    else .ok (d.goto q .using)
  | .create q =>
    match d.pc q, d.disposing with
    | .creating constructor priority, none =>
      Csq.create ndebug HCC_MAX_QUEUES q constructor priority d
    | _, _ => .error .blocked
  | .firstPass q =>
    match d.pc q, d.disposing with
    | .firstPass constructor priority, none => Csq.firstPass ndebug q constructor priority d
    | _, _ => .error .blocked
  | .secondPass q empty =>
    match d.pc q, d.disposing with
    | .secondPass constructor priority, none =>
      stealLoop ndebug empty q constructor priority (d.rocrQueues priority) d
    | _, _ => .error .blocked
  | .register q =>
    if d.pc q = .constructed then .ok { d.goto q .idle with queues := d.queues + 1 }
    else .error .blocked
  | .release q => if d.pc q = .using then .ok (d.goto q .idle) else .error .blocked
  | .dispose q =>
    if d.disposing = none ∧ (d.pc q = .idle ∨ (d.pc q).locked) then
      .ok { d with disposing := some q }
    else .error .blocked
  | .disposeEnd marker =>
    match d.disposing with
    | none => .error .blocked
    | some q =>
      if d.pc q = .idle then Csq.disposeEnd ndebug marker q d else .error .blocked

end Codrive.Csq
