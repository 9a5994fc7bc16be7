/-
# Packets in the hardware rings

Queues that share hardware queues: the packets their commands write
(`CmdDispatch::dispatchKernel`, `CmdBarrier::enqueueAsync`), and the device that reads them.

| here | source |
|---|---|
| `Place` | the ring of a hardware queue, or no hardware queue |
| `Ring.read`, `Ring.unread` | the read index, and the packets from there to the write index |
| `CmdStatus` | how far the device is with a command; its signal is 0 from `done` on |
| `Hw.schedule` | what the device does before each time a call comes to it |
| `Hw.overrun` | history: a packet was written to a full ring |
| `Hw.overwritten` | history: a packet was written over an unread one |

The device reads the packets of a ring in order and completes what it has read in any order, at any
time.  A copy may be completed from the time on when the command it depends on is.  An operation
whose last reference goes with its slot is waited for; that is among what the device does next.  A
queue takes or steals a hardware queue in a step of its own: a call that writes a packet needs one
before (`Place.nowhere` keeps what it would write else).  The marker that `isEmpty` may enqueue is a
marker of its queue.
-/

import Codrive.Csq.AsyncOpsRuns

namespace Codrive.Csq

open Codrive.Basis

/-- `queue_size` of a device: the size of a ring. -/
abbrev QUEUE_SIZE : ℕ := 2 * MAX_INFLIGHT_COMMANDS_PER_QUEUE

/-- A command of a queue, by their numbers. -/
abbrev CmdId := ℕ × ℕ

/-- Where a queue writes its packets. -/
inductive Place where
  | ring (r : ℕ)
  | nowhere (q : ℕ)
  deriving DecidableEq, Repr

/-- A ring. -/
structure Ring where
  read : ℕ := 0
  unread : List CmdId := []

/-- How far the device is with a command. -/
inductive CmdStatus where
  | unsent
  | written
  | launched
  | copying (dep : Option CmdId)
  | done
  deriving DecidableEq, Repr

/-- What the device does. -/
inductive DeviceStep where
  | read (p : Place)
  | complete (c : CmdId)
  deriving DecidableEq, Repr

/-- The device and its rings. -/
structure Hw where
  rings : Place → Ring := fun _ => {}
  status : CmdId → CmdStatus := fun _ => .unsent
  schedule : List (List DeviceStep) := []
  overrun : Bool := false
  overwritten : Bool := false

/-- The write index. -/
def Ring.write (ring : Ring) : ℕ := ring.read + ring.unread.length

/-- A packet at the write index is written over an unread one. -/
def Ring.overwrites (ring : Ring) : Bool :=
  (List.range ring.unread.length).any fun i =>
    (ring.read + i) % QUEUE_SIZE = ring.write % QUEUE_SIZE

/-- A packet is written. -/
def Hw.write (p : Place) (c : CmdId) (hw : Hw) : Hw :=
  { hw with
    rings := Function.update hw.rings p
      { hw.rings p with unread := (hw.rings p).unread ++ [c] }
    status := Function.update hw.status c .written
    overrun := hw.overrun || decide (QUEUE_SIZE ≤ (hw.rings p).unread.length)
    overwritten := hw.overwritten || (hw.rings p).overwrites }

/-- A copy is submitted. -/
def Hw.copy (c : CmdId) (dep : Option CmdId) (hw : Hw) : Hw :=
  { hw with status := Function.update hw.status c (.copying dep) }

/-- The device may complete the command. -/
def Hw.completable (hw : Hw) (c : CmdId) : Bool :=
  match hw.status c with
  | .launched => true
  | .copying none => true
  | .copying (some dep) => hw.status dep = .done
  | _ => false

/-- The device takes a step. -/
def Hw.device (s : DeviceStep) (hw : Hw) : Hw :=
  match s with
  | .read p =>
    match (hw.rings p).unread with
    | [] => hw
    | c :: unread =>
      { hw with
        rings := Function.update hw.rings p { read := (hw.rings p).read + 1, unread := unread }
        status := Function.update hw.status c .launched }
  | .complete c =>
    if hw.completable c then { hw with status := Function.update hw.status c .done } else hw

/-- The device takes the steps that come next. -/
def Hw.advance (hw : Hw) : Hw :=
  match hw.schedule with
  | [] => hw
  | steps :: schedule => { steps.foldl (fun hw s => hw.device s) hw with schedule := schedule }

/-- The runtime under a queue with a place to write to. -/
def rings (q : ℕ) (p : Place) : Runtime Hw where
  write op _ hw := hw.advance.write p (q, op)
  copy op dep hw := hw.advance.copy (q, op) (dep.map (q, ·))
  await op hw := if hw.advance.status (q, op) = .done then some hw.advance else none

/-! ### The system -/

/-- The queues, where they write their packets, the number of rings, and the device. -/
structure System where
  queue : ℕ → DlaQueue := fun _ => {}
  place : ℕ → Place := .nowhere
  created : ℕ := 0
  hw : Hw := {}

/-- The operations that a queue holds, the oldest first. -/
def DlaQueue.held (q : DlaQueue) : List ℕ := q.asyncOps.filterMap id

/-- `isEmpty`, but for the marker it enqueues where the youngest operation has no signal. -/
def System.isEmpty (s : System) (q : ℕ) : Bool :=
  match (s.queue q).held.getLast? with
  | none => true
  | some op => ((s.queue q).cmds op).hasSignal && s.hw.status (q, op) = .done

/-- A call on a queue: a dispatch, a marker, a copy, a wait, and a wait for the future of a
command that has a signal. -/
inductive QueueCall where
  | dispatchHsaKernel (inOrder future : Bool)
  | enqueueMarker (inherit : Bool) (scope : MemoryScope)
  | enqueueAsyncCopy
  | wait
  | waitComplete (op : ℕ)

/-- What a call does. -/
def QueueCall.run (rt : Runtime Hw) (optFlush ndebug : Bool) :
    QueueCall → World Hw → Except Stop (World Hw)
  | .dispatchHsaKernel inOrder future => Csq.dispatchHsaKernel rt optFlush ndebug inOrder future
  | .enqueueMarker inherit scope =>
    enqueueMarkerWithDependency rt (Csq.wait rt optFlush ndebug) inherit scope
  | .enqueueAsyncCopy => Csq.enqueueAsyncCopy rt optFlush ndebug
  | .wait => Csq.wait rt optFlush ndebug
  | .waitComplete op => fun w =>
    if (w.queue.cmds op).hasSignal then futureWait rt op w else .error .blocked

/-- The system after a call on a queue. -/
def System.after (s : System) (q : ℕ) (w : World Hw) : System :=
  { s with queue := Function.update s.queue q w.queue, hw := w.hw }

/-- The world of a queue, with what the device is to do during a call. -/
def System.world (s : System) (q : ℕ) (schedule : List (List DeviceStep)) : World Hw where
  queue := s.queue q
  hw := { s.hw with schedule := schedule }

/-- A queue writes somewhere else. -/
def System.move (s : System) (q : ℕ) (p : Place) : System :=
  { s with place := Function.update s.place q p }

/-- A call, a step of the device, or a change of the owner of a ring. -/
inductive Event where
  | call (q : ℕ) (c : QueueCall)
  | device (s : DeviceStep)
  | create (q : ℕ)
  | take (q r : ℕ)
  | steal (thief victim : ℕ)
  | dispose (q : ℕ)

/-- The steps of the system.  A call that returns has written nothing where no ring is. -/
inductive SystemStep (optFlush ndebug : Bool) : System → Event → System → Prop
  | call {s : System} {q : ℕ} {c : QueueCall} {schedule : List (List DeviceStep)} {w : World Hw} :
      c.run (rings q (s.place q)) optFlush ndebug (s.world q schedule) = .ok w →
      (w.hw.rings (.nowhere q)).write = 0 →
      SystemStep optFlush ndebug s (.call q c) (s.after q w)
  | device {s : System} {d : DeviceStep} :
      SystemStep optFlush ndebug s (.device d) { s with hw := s.hw.device d }
  | create {s : System} {q : ℕ} : s.place q = .nowhere q →
      SystemStep optFlush ndebug s (.create q)
        { s.move q (.ring s.created) with created := s.created + 1 }
  | take {s : System} {q r : ℕ} : s.place q = .nowhere q → r < s.created →
      (∀ q', s.place q' ≠ .ring r) →
      SystemStep optFlush ndebug s (.take q r) (s.move q (.ring r))
  | steal {s : System} {thief victim r : ℕ} : s.place thief = .nowhere thief →
      s.place victim = .ring r → s.isEmpty victim →
      SystemStep optFlush ndebug s (.steal thief victim)
        ((s.move victim (.nowhere victim)).move thief (.ring r))
  | dispose {s : System} {q : ℕ} {schedule : List (List DeviceStep)} {w : World Hw} :
      wait (rings q (s.place q)) optFlush ndebug (s.world q schedule) = .ok w →
      (w.hw.rings (.nowhere q)).write = 0 →
      SystemStep optFlush ndebug s (.dispose q) ((s.after q w).move q (.nowhere q))

end Codrive.Csq
