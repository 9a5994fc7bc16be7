/-
# The pools of kernarg buffers and of signals

`getKernargBuffer`, `growKernargBuffer` and `releaseKernargBuffer` of
`src/src/driver/csq_device.cpp`, with the part of the constructor that fills the pool, and
`getSignal` and `releaseSignal` of `src/src/driver/csq_context.cpp`.

| here | source |
|---|---|
| `CursorPool` | the vector of items, the vector of flags and the cursor |
| `DlaDevice.memory` | the blocks of the kernarg region that `hsa_amd_memory_pool_allocate` gave |
| `allocate` | its answers, by size; `none` is a status that `STATUS_CHECK` ends the process for |
| `value` | the values of the signals |
| `none` as a result | the process ends, or a position is outside a vector |
| `State.pooled`, `alone`, `signals` | what was handed out and not released: nothing in the code |

Every call holds the mutex of its pool as long as it looks at it, so the calls of any threads are
steps one after the other.  What is handed out is released once at most; the value of a signal is
changed by those who hold it.  The contents of the buffers are left out.

A position is a word of 32 bits in the pool and an `int` outside.
-/

import Codrive.Basis.CursorPool
import Codrive.Basis.Run
import Codrive.Basis.Tiling
import Mathlib.Logic.Function.Basic

namespace Codrive.Csq.Pools

open Codrive.Basis

/-- `KERNARG_BUFFER_SIZE`. -/
def KERNARG_BUFFER_SIZE : ℕ := 512

/-- `KERNARG_POOL_SIZE`. -/
def KERNARG_POOL_SIZE : ℕ := 1024

/-- `HCC_SIGNAL_POOL_SIZE`. -/
def HCC_SIGNAL_POOL_SIZE : ℕ := 512

/-- A word of 32 bits as an `int`. -/
def toInt32 (x : ℕ) : ℤ := if x < 2 ^ 31 then x else x - 2 ^ 32

/-! ### Kernarg buffers -/

/-- `DlaDevice`, with the blocks of memory that it has. -/
structure DlaDevice where
  kernargPool : CursorPool ℕ
  memory : List (ℕ × ℕ)

/-- The buffers of a block. -/
def buffersOf (kernargMemory : ℕ) : List ℕ :=
  (List.range KERNARG_POOL_SIZE).map fun i => kernargMemory + i * KERNARG_BUFFER_SIZE

/-- The block that `growKernargBuffer` asks for. -/
def blockOf (kernargMemory : ℕ) : ℕ × ℕ := (kernargMemory, KERNARG_POOL_SIZE * KERNARG_BUFFER_SIZE)

namespace DlaDevice

/-- `DlaDevice::DlaDevice`. -/
def init (kernargMemory : ℕ) : DlaDevice where
  kernargPool := CursorPool.grow ⟨[], [], 0⟩ (buffersOf kernargMemory)
  memory := [blockOf kernargMemory]

/-- `hsa_amd_memory_pool_free`: an address that is none of a block is refused. -/
def free (d : DlaDevice) (address : ℕ) : DlaDevice :=
  { d with memory := d.memory.filter (·.1 ≠ address) }

/-- `releaseKernargBuffer`. -/
def releaseKernargBuffer (d : DlaDevice) (kernargBuffer : ℕ) (kernargBufferIndex : ℤ) :
    Option DlaDevice :=
  if 0 < KERNARG_POOL_SIZE ∧ 0 ≤ kernargBufferIndex then
    if kernargBufferIndex.toNat < d.kernargPool.flags.length then
      some { d with kernargPool := d.kernargPool.release kernargBufferIndex.toNat }
    else none
  else if kernargBuffer ≠ 0 then some (d.free kernargBuffer)
  else some d

/-- The block that `growKernargBuffer` gets, if `getKernargBuffer` calls it. -/
def growKernargBuffer (d : DlaDevice) (allocate : ℕ → Option ℕ) : Option ℕ :=
  if d.kernargPool.find = none then allocate (KERNARG_POOL_SIZE * KERNARG_BUFFER_SIZE) else none

/-- `getKernargBuffer`. -/
def getKernargBuffer (ndebug : Bool) (d : DlaDevice) (allocate : ℕ → Option ℕ) (size : ℤ) :
    Option ((ℕ × ℤ) × DlaDevice) :=
  if 0 < KERNARG_POOL_SIZE ∧ size ≤ KERNARG_BUFFER_SIZE then do
    let kernargMemory := d.growKernargBuffer allocate
    let (ret, cursor, kernargPool) ← d.kernargPool.get ndebug (kernargMemory.map buffersOf)
    some ((ret, toInt32 cursor),
      { kernargPool, memory := (kernargMemory.map blockOf).toList ++ d.memory })
  else do
    let ret ← allocate size.toNat
    some ((ret, -1), { d with memory := (ret, size.toNat) :: d.memory })

end DlaDevice

/-! ### Signals -/

/-- `DlaContext`, with the values of the signals. -/
structure DlaContext where
  signalPool : CursorPool ℕ
  value : ℕ → ℤ

namespace DlaContext

/-- `hsa_signal_create` with the value 1, so many times. -/
def create (value : ℕ → ℤ) (handles : List ℕ) : ℕ → ℤ := fun h => if h ∈ handles then 1 else value h

/-- `DlaContext::DlaContext`. -/
def init (handles : List ℕ) (value : ℕ → ℤ) : DlaContext where
  signalPool := CursorPool.grow ⟨[], [], 0⟩ handles
  value := create value handles

/-- `releaseSignal`. -/
def releaseSignal (c : DlaContext) (signal : ℕ) (signalIndex : ℤ) : Option DlaContext :=
  if signal ≠ 0 then
    if 0 ≤ signalIndex ∧ signalIndex.toNat < c.signalPool.flags.length then
      some { signalPool := c.signalPool.release signalIndex.toNat,
             value := Function.update c.value signal 1 }
    else none
  else some c

/-- `getSignal`; `handles` is what `hsa_signal_create` gives if the pool grows. -/
def getSignal (ndebug : Bool) (c : DlaContext) (handles : Option (List ℕ)) :
    Option ((ℕ × ℤ) × DlaContext) := do
  let created := if c.signalPool.find = none then handles else none
  let (ret, cursor, signalPool) ← c.signalPool.get ndebug created
  some ((ret, toInt32 cursor), { signalPool, value := create c.value (created.getD []) })

end DlaContext

/-! ### Runs -/

/-- The device and the context, with what was handed out and not released: the buffers of the pool
and the signals with their positions, the buffers that are not of the pool with their sizes. -/
structure State where
  device : DlaDevice
  context : DlaContext
  pooled : List (ℕ × ℤ)
  alone : List (ℕ × ℕ)
  signals : List (ℕ × ℤ)

/-- A call, or a change of the value of a signal. -/
inductive Op where
  | getKernargBuffer (size : ℤ)
  | releaseKernargBuffer (kernargBuffer : ℕ) (kernargBufferIndex : ℤ)
  | releaseAlone (kernargBuffer size : ℕ)
  | getSignal
  | releaseSignal (signal : ℕ) (signalIndex : ℤ)
  | store (signal : ℕ) (value : ℤ)

/-- **What `hsa_amd_memory_pool_allocate` does**: a block has no byte in common with those that were
not freed. -/
def Fresh (memory : List (ℕ × ℕ)) (block : ℕ × ℕ) : Prop :=
  0 < block.1 ∧ block.1 + block.2 ≤ 2 ^ 64 ∧ ∀ x ∈ memory, Separate x block

/-- **What `hsa_signal_create` does**: every signal has a handle of its own. -/
def Handles (signals handles : List ℕ) : Prop :=
  handles.length = HCC_SIGNAL_POOL_SIZE ∧ handles.Nodup ∧ ∀ h ∈ handles, h ≠ 0 ∧ h ∉ signals

/-- The device and the context are constructed. -/
def Start (s : State) : Prop :=
  ∃ kernargMemory handles value, Fresh [] (blockOf kernargMemory) ∧ Handles [] handles ∧
    s = ⟨DlaDevice.init kernargMemory, DlaContext.init handles value, [], [], []⟩

/-- A step: what is released was handed out. -/
def Step (ndebug : Bool) (s : State) : Op → State → Prop
  | .getKernargBuffer size, t => ∃ allocate ret d,
      (∀ n a, allocate n = some a → Fresh s.device.memory (a, n)) ∧
      s.device.getKernargBuffer ndebug allocate size = some (ret, d) ∧
      t = if size ≤ KERNARG_BUFFER_SIZE then { s with device := d, pooled := ret :: s.pooled }
        else { s with device := d, alone := (ret.1, size.toNat) :: s.alone }
  | .releaseKernargBuffer kernargBuffer kernargBufferIndex, t =>
      (kernargBuffer, kernargBufferIndex) ∈ s.pooled ∧
      ∃ d, s.device.releaseKernargBuffer kernargBuffer kernargBufferIndex = some d ∧
        t = { s with device := d, pooled := s.pooled.erase (kernargBuffer, kernargBufferIndex) }
  | .releaseAlone kernargBuffer size, t => (kernargBuffer, size) ∈ s.alone ∧
      ∃ d, s.device.releaseKernargBuffer kernargBuffer (-1) = some d ∧
        t = { s with device := d, alone := s.alone.erase (kernargBuffer, size) }
  | .getSignal, t => ∃ handles ret c,
      (∀ l, handles = some l → Handles s.context.signalPool.items l) ∧
      s.context.getSignal ndebug handles = some (ret, c) ∧
      t = { s with context := c, signals := ret :: s.signals }
  | .releaseSignal signal signalIndex, t => (signal, signalIndex) ∈ s.signals ∧
      ∃ c, s.context.releaseSignal signal signalIndex = some c ∧
        t = { s with context := c, signals := s.signals.erase (signal, signalIndex) }
  | .store signal value, t => signal ∈ s.signals.map Prod.fst ∧
      t = { s with
        context := { s.context with value := Function.update s.context.value signal value } }

/-- The bytes that are handed out. -/
def State.buffers (s : State) : List (ℕ × ℕ) :=
  s.pooled.map (fun x => (x.1, KERNARG_BUFFER_SIZE)) ++ s.alone

/-- **What holds in a state**: nothing is handed out twice, the cursors are in the pools, the flags
are those of what was handed out, a pool grows only when all of it is in use, and a signal that is
handed out has the value 1. -/
structure Sound (ndebug : Bool) (s : State) : Prop where
  buffers : s.buffers.Pairwise Separate
  signals : (s.signals.map Prod.fst).Nodup
  kernargCursor : s.device.kernargPool.cursor < s.device.kernargPool.items.length
  signalCursor : s.context.signalPool.cursor < s.context.signalPool.items.length
  kernargFlags : ∀ i a, s.device.kernargPool.items[i]? = some a →
    (s.device.kernargPool.InUse i ↔ a ∈ s.pooled.map Prod.fst)
  signalFlags : ∀ i a, s.context.signalPool.items[i]? = some a →
    (s.context.signalPool.InUse i ↔ a ∈ s.signals.map Prod.fst)
  kernargGrows : ∀ op t, Step ndebug s op t →
    t.device.kernargPool.items ≠ s.device.kernargPool.items → s.device.kernargPool.Full
  signalGrows : ∀ op t, Step ndebug s op t →
    t.context.signalPool.items ≠ s.context.signalPool.items → s.context.signalPool.Full
  restored : ∀ t, Step ndebug s .getSignal t →
    ∃ x, t.signals = x :: s.signals ∧ t.context.value x.1 = 1

/-- **No pool grows beyond `2 ^ 31` items.** -/
def Small (s : State) : Op → Prop
  | .getKernargBuffer size => size ≤ KERNARG_BUFFER_SIZE → s.device.kernargPool.Full →
      s.device.kernargPool.items.length + KERNARG_POOL_SIZE ≤ 2 ^ 31
  | .getSignal => s.context.signalPool.Full →
      s.context.signalPool.items.length + HCC_SIGNAL_POOL_SIZE ≤ 2 ^ 31
  | _ => True

end Codrive.Csq.Pools
