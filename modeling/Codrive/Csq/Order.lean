/-
# The order of execution

One in-order queue, and the device that starts and finishes its commands.

| here | source |
|---|---|
| `Engine.sent` | the commands that were given to the device, the first one first |
| `Work.packet` | an AQL packet, with the barrier bit of its header |
| `Work.copy` | an asynchronous copy, with the command whose signal it is to wait for |
| `Stage.done` | the completion signal of a command has the value 0 |
| `Engine.schedule` | what the device does before each time a call comes to it |

The device may start a packet when all packets before it in the ring are started, and complete where
its barrier bit is set, and a copy when the command it depends on is complete.  What a marker is to
wait for besides (its dependencies in other queues) only delays it.
-/

import Codrive.Csq.AsyncOps

namespace Codrive.Csq

/-- What the device is given. -/
inductive Work where
  | packet (barrier : Bool)
  | copy (dep : Option ℕ)
  deriving DecidableEq, Repr

/-- How far the device is with a command. -/
inductive Stage where
  | waiting | started | done
  deriving DecidableEq, Repr

/-- What the device does. -/
inductive EngineStep where
  | start (op : ℕ)
  | finish (op : ℕ)
  deriving DecidableEq, Repr

/-- The device, as a queue sees it. -/
structure Engine where
  sent : List ℕ := []
  work : ℕ → Work := fun _ => .packet true
  stage : ℕ → Stage := fun _ => .waiting
  schedule : List (List EngineStep) := []

/-- The device is given a command. -/
def Engine.send (op : ℕ) (work : Work) (e : Engine) : Engine :=
  { e with sent := e.sent ++ [op], work := Function.update e.work op work }

/-- What the device was given before a command. -/
def Engine.before (e : Engine) (op : ℕ) : List ℕ := e.sent.takeWhile (· ≠ op)

/-- A command is a packet. -/
def Work.isPacket : Work → Bool
  | .packet _ => true
  | .copy _ => false

/-- The device may start a command. -/
def Engine.mayStart (e : Engine) (op : ℕ) : Bool :=
  op ∈ e.sent && e.stage op = .waiting &&
    match e.work op with
    | .packet barrier => (e.before op).all fun a =>
        !(e.work a).isPacket || (if barrier then e.stage a = .done else e.stage a ≠ .waiting)
    | .copy none => true
    | .copy (some dep) => e.stage dep = .done

/-- The device takes a step, if it may. -/
def Engine.step (s : EngineStep) (e : Engine) : Engine :=
  match s with
  | .start op =>
    if e.mayStart op then { e with stage := Function.update e.stage op .started } else e
  | .finish op =>
    if e.stage op = .started then { e with stage := Function.update e.stage op .done } else e

/-- The device takes the steps that come next. -/
def Engine.advance (e : Engine) : Engine :=
  match e.schedule with
  | [] => e
  | steps :: schedule => { steps.foldl (fun e s => e.step s) e with schedule := schedule }

/-- The runtime under the queue. -/
def engine : Runtime Engine where
  write op barrier e := e.advance.send op (.packet barrier)
  copy op dep e := e.advance.send op (.copy dep)
  await op e := if e.advance.stage op = .done then some e.advance else none

/-- A call on the queue. -/
inductive Command where
  | kernel (future : Bool)
  | marker (inherit : Bool) (scope : MemoryScope)
  | copy
  | wait
  deriving DecidableEq, Repr

/-- What a call does; the execution order of the queue is `execute_in_order`. -/
def Command.run {σ : Type*} (rt : Runtime σ) (optFlush ndebug : Bool) :
    Command → World σ → Except Stop (World σ)
  | .kernel future => dispatchHsaKernel rt optFlush ndebug true future
  | .marker inherit scope =>
    enqueueMarkerWithDependency rt (Csq.wait rt optFlush ndebug) inherit scope
  | .copy => enqueueAsyncCopy rt optFlush ndebug
  | .wait => Csq.wait rt optFlush ndebug

/-- A call, or a step of the device. -/
inductive OrderEvent where
  | call (c : Command)
  | device (s : EngineStep)

/-- The steps of a queue and its device. -/
inductive OrderStep (optFlush ndebug : Bool) : World Engine → OrderEvent → World Engine → Prop
  | call {w w' : World Engine} {c : Command} {schedule : List (List EngineStep)} :
      c.run engine optFlush ndebug { w with hw := { w.hw with schedule := schedule } } = .ok w' →
      OrderStep optFlush ndebug w (.call c) w'
  | device {w : World Engine} {s : EngineStep} :
      OrderStep optFlush ndebug w (.device s) { w with hw := w.hw.step s }

/-- No command has started before all that were enqueued earlier are complete. -/
def Engine.InOrder (e : Engine) : Prop :=
  ∀ op ∈ e.sent, e.stage op ≠ .waiting → ∀ a ∈ e.before op, e.stage a = .done

end Codrive.Csq
