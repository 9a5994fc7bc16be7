/-
# The unpinned copy engine

`UnpinnedCopyEngine` of `src/src/driver/unpinned_copy_engine.cpp`, as steps of the host and of the
device that are taken in any order.

| here | source |
|---|---|
| `Buffer` | the user's buffers and the staging buffers; places in them are offsets |
| a counter of remaining bytes | its 64 bits: `int64_t`, in `CopyPeerToPeer` `uint64_t` |
| `Pc` | where the host is |
| `none` as a step | the host waits, has returned, or needs a signal that has never been created |
| `resolved` | the signal `waitFor` has been 0, or there is none |
| `lockable` | the kernel driver pins the user's buffer when `hsa_amd_memory_lock` asks it to |

A copy holds `_copyLock`, so it is the only one that the engine makes.  A call of
`hsa_amd_memory_async_copy` with a null pointer fails, and one of no bytes does nothing.
-/

import Codrive.Basis.AsyncCopy
import Codrive.Basis.Machine
import Codrive.Basis.Run

namespace Codrive.UnpinnedCopy

open Codrive.Basis

/-- `CopyMode`. -/
inductive CopyMode where
  | ChooseBest
  | UsePinInPlace
  | UseStaging
  | UseMemcpy
  deriving DecidableEq, Repr

/-- `_max_buffers`. -/
def maxBuffers : ℤ := 4

/-- `UnpinnedCopyEngine`. -/
structure UnpinnedCopyEngine where
  bufferSize : ℕ
  numBuffers : ℤ
  isLargeBar : Bool
  hipH2DTransferThresholdDirectOrStaging : ℕ
  hipH2DTransferThresholdStagingOrPininplace : ℕ
  hipD2HTransferThreshold : ℕ
  deriving DecidableEq, Repr

/-- An `int` as a `size_t`. -/
def sizeOfInt (x : ℤ) : ℕ := (x % 2 ^ 64).toNat

/-- The constructor. -/
def UnpinnedCopyEngine.make (bufferSize : ℕ) (numBuffers : ℤ) (isLargeBar : Bool)
    (thresholdH2DDirectStaging thresholdH2DStagingPinInPlace thresholdD2H : ℤ) :
    UnpinnedCopyEngine where
  bufferSize := bufferSize
  numBuffers := if numBuffers > maxBuffers then maxBuffers else numBuffers
  isLargeBar := isLargeBar
  hipH2DTransferThresholdDirectOrStaging := sizeOfInt thresholdH2DDirectStaging
  hipH2DTransferThresholdStagingOrPininplace := sizeOfInt thresholdH2DStagingPinInPlace
  hipD2HTransferThreshold := sizeOfInt thresholdD2H

/-- The three paths. -/
inductive Path where
  | hostToDevice
  | deviceToHost
  | peerToPeer
  deriving DecidableEq, Repr

/-- The memory that a copy is about. -/
inductive Buffer where
  | src
  | dst
  | staging (bufferIndex : ℕ)
  deriving DecidableEq, Repr

/-- `_completionSignal` and `_completionSignal2`. -/
inductive Signal where
  | completion (bufferIndex : ℕ)
  | completion2 (bufferIndex : ℕ)
  deriving DecidableEq, Repr

/-- The ways to copy that `CopyHostToDevice` and `CopyDeviceToHost` choose from. -/
inductive Method where
  | memcpy
  | pinInPlace
  | staging
  deriving DecidableEq, Repr

/-- A call: `method` is `none` if it copies in no way at all. -/
structure Call where
  path : Path
  method : Option Method
  sizeBytes : ℕ
  lockable : Bool := true
  deriving DecidableEq, Repr

/-- Where the host is. -/
inductive Pc where
  /-- Waits for `waitFor`. -/
  | waitFor
  /-- `CopyHostToDeviceMemcpy`. -/
  | memcpy
  /-- The two `PinInPlace` functions, before and after the asynchronous copy. -/
  | lock
  | unlock
  /-- The loop of `CopyHostToDeviceStaging`, and behind its `memcpy`. -/
  | fill (bufferIndex : ℕ)
  | issue (bufferIndex theseBytes : ℕ)
  /-- `while (bytesRemaining1 > 0)`, and the loops in it. -/
  | loop
  | launching (bufferIndex : ℕ)
  | unloading (bufferIndex : ℕ)
  /-- The last loop, which waits for the copies. -/
  | draining (i : ℕ)
  | returned
  deriving DecidableEq, Repr

/-- The host and the device. `CopyHostToDeviceStaging` has one counter of remaining bytes,
`bytesRemaining1` here. -/
structure State where
  dev : CopyDevice Buffer Signal
  pc : Pc
  srcp : ℕ := 0
  dstp : ℕ := 0
  bytesRemaining0 : ℕ
  bytesRemaining1 : ℕ
  resolved : Bool
  /-- The user's buffer is locked. -/
  locked : Bool

/-! ### The choice -/

/-- `CopyHostToDevice`. -/
def chooseHostToDevice (e : UnpinnedCopyEngine) (copyMode : CopyMode) (isLockedPointer : Bool)
    (sizeBytes : ℕ) : Option Method :=
  let isLocked :=
    if copyMode = .ChooseBest ∨ copyMode = .UsePinInPlace then isLockedPointer else false
  let copyMode :=
    if copyMode = .ChooseBest then
      if e.isLargeBar ∧ sizeBytes < e.hipH2DTransferThresholdDirectOrStaging then .UseMemcpy
      else if sizeBytes > e.hipH2DTransferThresholdStagingOrPininplace ∧ !isLocked then
        .UsePinInPlace
      else .UseStaging
    else copyMode
  if copyMode = .UseMemcpy then some .memcpy
  else if copyMode = .UsePinInPlace ∧ !isLocked then some .pinInPlace
  else if copyMode = .UseStaging then some .staging
  else none

/-- `CopyDeviceToHost`. -/
def chooseDeviceToHost (e : UnpinnedCopyEngine) (copyMode : CopyMode) (isLockedPointer : Bool)
    (sizeBytes : ℕ) : Option Method :=
  let isLocked :=
    if copyMode = .ChooseBest ∨ copyMode = .UsePinInPlace then isLockedPointer else false
  let copyMode :=
    if copyMode = .ChooseBest then
      if sizeBytes > e.hipD2HTransferThreshold ∧ !isLocked then .UsePinInPlace else .UseStaging
    else copyMode
  if copyMode = .UsePinInPlace ∧ !isLocked then some .pinInPlace
  else if copyMode = .UseStaging then some .staging
  else none

/-! ### The steps -/

/-- `bytesRemaining > 0`. -/
def positive (path : Path) (bytesRemaining : ℕ) : Bool :=
  match path with
  | .peerToPeer => 0 < bytesRemaining
  | _ => 0 < bytesRemaining && bytesRemaining < 2 ^ 63

/-- `theseBytes`. -/
def theseBytes (e : UnpinnedCopyEngine) (bytesRemaining : ℕ) : ℕ :=
  if bytesRemaining > e.bufferSize then e.bufferSize else bytesRemaining

/-- The signals that say that a staging buffer has been drained. -/
def drainSignal (path : Path) (bufferIndex : ℕ) : Signal :=
  match path with
  | .hostToDevice => .completion bufferIndex
  | _ => .completion2 bufferIndex

/-- The first loop: the signals of the buffers are set to 0. -/
def resetSignals (e : UnpinnedCopyEngine) (path : Path) (signal : Signal → ℤ) : Signal → ℤ
  | .completion i => if i < e.numBuffers then 0 else signal (.completion i)
  | .completion2 i =>
    if i < e.numBuffers ∧ path = .peerToPeer then 0 else signal (.completion2 i)

/-- Where the host goes when it has waited for `waitFor`. -/
def Call.entry (c : Call) : Pc :=
  match c.method with
  | none => .returned
  | some .memcpy => .memcpy
  | some .pinInPlace => .lock
  | some .staging => if c.path = .hostToDevice then .fill 0 else .loop

/-- A step of the host. -/
def hostStep (e : UnpinnedCopyEngine) (c : Call) (s : State) : Option State :=
  match s.pc with
  | .waitFor =>
    if s.resolved then
      some { s with
        dev := { s.dev with
          signal := if c.method = some .memcpy then s.dev.signal
            else resetSignals e c.path s.dev.signal }
        pc := c.entry }
    else none
  | .memcpy =>
    some { s with dev := s.dev.memcpy (.dst, 0) (.src, 0) c.sizeBytes, pc := .returned }
  | .lock =>
    if 0 < e.numBuffers then
      let dev := s.dev.store (.completion 0) 1
      if c.lockable ∧ c.sizeBytes ≠ 0 then
        some { s with
          dev := dev.asyncCopy (.dst, 0) (.src, 0) c.sizeBytes none (.completion 0)
          pc := .unlock
          locked := true }
      else
        -- the address is null, and the asynchronous copy fails
        some { s with dev := dev, pc := .unlock }
    else none
  | .unlock =>
    if s.dev.signal (.completion 0) < 1 then some { s with pc := .returned, locked := false }
    else none
  | .fill bufferIndex =>
    if positive c.path s.bytesRemaining1 then
      if bufferIndex < e.numBuffers ∧ s.dev.signal (.completion bufferIndex) < 1 then
        let bytes := theseBytes e s.bytesRemaining1
        some { s with
          dev := s.dev.memcpy (.staging bufferIndex, 0) (.src, s.srcp) bytes
          pc := .issue bufferIndex bytes }
      else none
    else some { s with pc := .draining 0 }
  | .issue bufferIndex bytes =>
    some { s with
      dev := (s.dev.store (.completion bufferIndex) 1).asyncCopy (.dst, s.dstp)
        (.staging bufferIndex, 0) bytes none (.completion bufferIndex)
      pc := .fill (if (bufferIndex + 1 : ℤ) ≥ e.numBuffers then 0 else bufferIndex + 1)
      srcp := s.srcp + bytes
      dstp := s.dstp + bytes
      bytesRemaining1 := sub64 s.bytesRemaining1 e.bufferSize }
  | .loop =>
    some { s with
      pc := if positive c.path s.bytesRemaining1 then .launching 0
        else if c.path = .peerToPeer then .draining 0 else .returned }
  | .launching bufferIndex =>
    if positive c.path s.bytesRemaining0 ∧ bufferIndex < e.numBuffers then
      if c.path = .peerToPeer ∧ ¬s.dev.signal (.completion2 bufferIndex) < 1 then none
      else
        let bytes := theseBytes e s.bytesRemaining0
        some { s with
          dev := (s.dev.store (.completion bufferIndex) 1).asyncCopy (.staging bufferIndex, 0)
            (.src, s.srcp) bytes none (.completion bufferIndex)
          pc := .launching (bufferIndex + 1)
          srcp := s.srcp + bytes
          bytesRemaining0 := sub64 s.bytesRemaining0 e.bufferSize }
    else some { s with pc := .unloading 0 }
  | .unloading bufferIndex =>
    if positive c.path s.bytesRemaining1 ∧ bufferIndex < e.numBuffers then
      let bytes := theseBytes e s.bytesRemaining1
      let next := { s with
        pc := .unloading (bufferIndex + 1)
        dstp := s.dstp + bytes
        bytesRemaining1 := sub64 s.bytesRemaining1 e.bufferSize }
      if c.path = .peerToPeer then
        some { next with
          dev := (s.dev.store (.completion2 bufferIndex) 1).asyncCopy (.dst, s.dstp)
            (.staging bufferIndex, 0) bytes (some (.completion bufferIndex))
            (.completion2 bufferIndex) }
      else if s.dev.signal (.completion bufferIndex) < 1 then
        some { next with
          dev := s.dev.memcpy (.dst, s.dstp) (.staging bufferIndex, 0) bytes }
      else none
    else some { s with pc := .loop }
  | .draining i =>
    if i < e.numBuffers then
      if s.dev.signal (drainSignal c.path i) < 1 then some { s with pc := .draining (i + 1) }
      else none
    else some { s with pc := .returned }
  | .returned => none

/-- Who takes a step. -/
inductive Who where
  | host
  | device
  | dependency
  deriving DecidableEq, Repr

/-- A step of the host, of the device, or of what `waitFor` waits for. -/
inductive Step (e : UnpinnedCopyEngine) (c : Call) (s : State) : Who → State → Prop
  | host {t : State} (h : hostStep e c s = some t) : Step e c s .host t
  | device {dev : CopyDevice Buffer Signal} (h : s.dev.Step dev) :
      Step e c s .device { s with dev := dev }
  | dependency (h : s.resolved = false) : Step e c s .dependency { s with resolved := true }

/-- A device that has nothing to do. -/
def idle (mem : Buffer → ℕ → UInt8) (signal : Signal → ℤ) : CopyDevice Buffer Signal :=
  ⟨mem, signal, [], fun _ => none, fun _ => 0⟩

/-- The start of a call: `waiting` says whether `waitFor` is not 0 yet. -/
def start (c : Call) (mem : Buffer → ℕ → UInt8) (signal : Signal → ℤ) (waiting locked : Bool) :
    State where
  dev := idle mem signal
  pc := if c.method = none then .returned else .waitFor
  bytesRemaining0 := c.sizeBytes
  bytesRemaining1 := c.sizeBytes
  resolved := !waiting
  locked := locked

/-- The staging buffer that the next step of the host fills. -/
def fills (e : UnpinnedCopyEngine) (c : Call) (s : State) : Option ℕ :=
  if (hostStep e c s).isNone then none
  else
    match s.pc with
    | .fill bufferIndex => if positive c.path s.bytesRemaining1 then some bufferIndex else none
    | .launching bufferIndex =>
      if positive c.path s.bytesRemaining0 ∧ bufferIndex < e.numBuffers then some bufferIndex
      else none
    | _ => none

end Codrive.UnpinnedCopy
