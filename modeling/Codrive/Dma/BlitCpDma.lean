/-
# The ring of the copy engine

The asynchronous `SubmitLinearCopyCommand` of `src/src/drive/blit_cpdma.cpp`, with
`AcquireWriteIndex`, `PopulateQueue` and `ReleaseWriteIndex`.

| here | source |
|---|---|
| a thread | a call of `SubmitLinearCopyCommand`, one after the other |
| `Pc` | how far the thread is |
| `doorbell` | the last value of `doorbell_signal` that was written, if there is one |
| `submitted` | history: the copies, in the order of their indices |
| `executed` | history: what was in the slots that the device executed |

The write index is taken by an atomic addition; a test of the loop of `AcquireWriteIndex`, the store
of the packet and the store to the doorbell are one step each, and steps of the threads and of the
device are taken in any order.  A load of the read index gives a value that it has or had.  The
device executes the packets in the order of their indices up to the last value of the doorbell.
The ring has `2 ^ b` slots.
-/

import Codrive.Basis.Machine
import Codrive.Basis.Run
import Mathlib.Logic.Function.Basic

namespace Codrive.Dma.Blit

open Codrive.Basis

/-- What is to be copied. -/
structure Copy where
  dst : ℕ
  src : ℕ
  size : ℕ
  out_signal : ℕ
  deriving DecidableEq, Repr

/-- `hsa_dma_copy_packet_t`. -/
structure DmaCopyPacket where
  header : ℕ
  src : ℕ
  dst : ℕ
  bytes : ℕ
  completion_signal : ℕ
  deriving DecidableEq, Repr

/-- `HSA_PACKET_TYPE_DMA_COPY << HSA_PACKET_HEADER_TYPE`. -/
def dmaCopyHeader : ℕ := 6 <<< 0

/-- The packet of a copy. -/
def Copy.packet (c : Copy) : DmaCopyPacket where
  header := dmaCopyHeader
  src := c.src
  dst := c.dst
  bytes := c.size
  completion_signal := c.out_signal

/-- Where a thread is: in no call, in the loop of `AcquireWriteIndex`, before the store of
`PopulateQueue`, before the store of `ReleaseWriteIndex`. -/
inductive Pc where
  | idle
  | acquiring (write_index : ℕ) (c : Copy)
  | populating (write_index : ℕ) (c : Copy)
  | releasing (write_index : ℕ)
  deriving DecidableEq, Repr

/-- The queue, the threads and the device. -/
structure State where
  write_index : ℕ := 0
  read_index : ℕ := 0
  doorbell : Option ℕ := none
  queue_buffer : ℕ → Option DmaCopyPacket := fun _ => none
  pc : ℕ → Pc := fun _ => .idle
  submitted : List Copy := []
  executed : List (Option DmaCopyPacket) := []

/-- A step of a thread or of the device. -/
inductive Op where
  | submit (i : ℕ) (c : Copy)
  | load (i : ℕ) (read_index : ℕ)
  | populate (i : ℕ)
  | release (i : ℕ)
  | execute
  deriving DecidableEq, Repr

section

variable (b : ℕ)

/-- `queue_bitmask_`. -/
def queue_bitmask_ : ℕ := wrap 32 (2 ^ b - 1)

/-- The test of the loop of `AcquireWriteIndex`: the queue has no room. -/
def noRoom (write_index num_packet read_index : ℕ) : Prop :=
  2 ^ b < sub64 (u64 (write_index + num_packet)) read_index

instance (write_index num_packet read_index : ℕ) :
    Decidable (noRoom b write_index num_packet read_index) :=
  inferInstanceAs (Decidable (_ < _))

/-- `AddWriteIndexAcqRel` of `AcquireWriteIndex`. -/
def addWriteIndexAcqRel (s : State) (i num_packet : ℕ) (c : Copy) : State :=
  { s with write_index := u64 (s.write_index + num_packet)
           pc := Function.update s.pc i (.acquiring s.write_index c)
           submitted := s.submitted ++ [c] }

/-- `PopulateQueue`. -/
def populateQueue (s : State) (index : ℕ) (c : Copy) : State :=
  { s with queue_buffer :=
      Function.update s.queue_buffer (index &&& queue_bitmask_ b) (some c.packet) }

/-- `ReleaseWriteIndex`. -/
def releaseWriteIndex (s : State) (write_index num_packet : ℕ) : State :=
  { s with doorbell := some (u64 (write_index + num_packet + 2 ^ 64 - 1)) }

/-- The thread goes on. -/
def State.goto (s : State) (i : ℕ) (pc : Pc) : State :=
  { s with pc := Function.update s.pc i pc }

/-- The device executes the packet at the read index. -/
def State.execute (s : State) : State :=
  { s with read_index := u64 (s.read_index + 1)
           executed := s.executed ++ [s.queue_buffer (s.read_index &&& queue_bitmask_ b)] }

/-- A step. -/
def Step (s : State) : Op → State → Prop
  | .submit i c, t => s.pc i = .idle ∧ t = addWriteIndexAcqRel s i 1 c
  | .load i read_index, t => read_index ≤ s.read_index ∧ ∃ write_index c,
      s.pc i = .acquiring write_index c ∧
      t = if noRoom b write_index 1 read_index then s else s.goto i (.populating write_index c)
  | .populate i, t => ∃ write_index c, s.pc i = .populating write_index c ∧
      t = (populateQueue b s write_index c).goto i (.releasing write_index)
  | .release i, t => ∃ write_index, s.pc i = .releasing write_index ∧
      t = (releaseWriteIndex s write_index 1).goto i .idle
  | .execute, t => (∃ d, s.doorbell = some d ∧ s.read_index ≤ d) ∧ t = s.execute b

end

/-! ### What is claimed -/

/-- The index of a thread. -/
def Pc.index : Pc → Option ℕ
  | .idle => none
  | .acquiring k _ => some k
  | .populating k _ => some k
  | .releasing k => some k

/-- The index of a thread that has not written its packet. -/
def Pc.unwritten : Pc → Option ℕ
  | .acquiring k _ => some k
  | .populating k _ => some k
  | _ => none

/-- The packet of the submission is written. -/
def State.Written (s : State) (k : ℕ) : Prop :=
  k < s.submitted.length ∧ ∀ i, (s.pc i).unwritten ≠ some k

/-- The call of the submission has returned. -/
def State.Returned (s : State) (k : ℕ) : Prop :=
  k < s.submitted.length ∧ ∀ i, (s.pc i).index ≠ some k

/-- **What holds in a state**. -/
structure Sound (b : ℕ) (s : State) : Prop where
  /-- Every submission has its own index. -/
  own : ∀ i j k, (s.pc i).index = some k → (s.pc j).index = some k → i = j
  index : ∀ i k c, s.pc i = .acquiring k c ∨ s.pc i = .populating k c → s.submitted[k]? = some c
  /-- The slot of a packet that is written and not executed holds it. -/
  kept : ∀ k c, s.Written k → s.read_index ≤ k → s.submitted[k]? = some c →
    s.queue_buffer (k % 2 ^ b) = some c.packet
  /-- The device executed the first submissions, each once, and each with its packet. -/
  executed : s.executed = (s.submitted.take s.read_index).map fun c => some c.packet
  /-- As soon as the device has nothing more to execute, it has executed every submission whose call
  has returned; and it comes to this. -/
  complete : (∀ t, ¬Step b s .execute t) → ∀ k, s.Returned k → k < s.read_index
  drains : ∃ n t, Run (Step b) s (List.replicate n .execute) t ∧ ∀ u, ¬Step b t .execute u

/-- **The doorbell is written in order**: no thread with a lower index has yet to write its packet,
and the value before is lower or was executed.  There are fewer than `2 ^ 64` submissions. -/
def Ordered (s : State) : Op → Prop
  | .submit _ _ => s.write_index + 1 < 2 ^ 64
  | .release i => ∀ w, s.pc i = .releasing w →
      (∀ j k, (s.pc j).unwritten = some k → w < k) ∧
      ∀ d, s.doorbell = some d → d < w ∨ d < s.read_index
  | _ => True

end Codrive.Dma.Blit
