/-
# The operations a queue holds

`DlaQueue` of `src/src/driver/csq_queue.cpp`, with what `csq_cmd.cpp` does for its commands.

| here | source |
|---|---|
| an operation | a `Cmd`, by the number in which the queue's commands are made |
| `Runtime σ` | the hardware queue that is locked, copies and signals; `σ` is their state |
| `Stop` | a call that does not return |
| `DlaQueue.most` | history: the most slots there ever were |
| `optFlush`, `ndebug` | `HCC_OPT_FLUSH`; whether the build compiles assertions out |

`pushAsyncOp`, `EnqueueMarker` and `wait` call each other.  A call of `wait` under a call of `wait`
finds the queue draining or its vector empty, so calls go two deep at most; `Stop.depth` is what a
third call of `wait` would be, and `inPlace_of_run` has that there is none.

The destructor of an operation whose last reference goes with its slot waits for it and removes it
once more; its slot is empty by then, and `removeAsyncOp_of_not_held` has that nothing changes.
`HCC_SERIALIZE_KERNEL` and `HCC_SERIALIZE_COPY` are 0, as they are by default, and
`detectStreamDeps` is that of `Queue`, which answers null: the one of `DlaQueue` is commented out.
-/

import Codrive.Basis.Machine
import Mathlib.Data.Int.Notation
import Mathlib.Data.List.Basic
import Mathlib.Logic.Function.Basic

namespace Codrive.Csq

open Codrive.Basis

/-- `MAX_INFLIGHT_COMMANDS_PER_QUEUE`. -/
abbrev MAX_INFLIGHT_COMMANDS_PER_QUEUE : ℕ := 2 * 8192

/-- `ASYNCOPS_VECTOR_GC_SIZE`. -/
abbrev ASYNCOPS_VECTOR_GC_SIZE : ℕ := 2 * 8192

/-- `memory_scope`. -/
inductive MemoryScope where
  | no | accelerator | system
  deriving DecidableEq, Repr

/-- How far a command has got: it is made; it is dispatched, with a future; it was waited for. -/
inductive Phase where
  | made | dispatched | complete
  deriving DecidableEq, Repr

/-- `Cmd`; `hasSignal` is whether the handle of `_signal` is not null. -/
structure Cmd where
  asyncOpsIndex : ℤ := -1
  hasSignal : Bool := false
  phase : Phase := .made
  deriving DecidableEq, Repr

/-- `DlaQueue`. -/
structure DlaQueue where
  asyncOps : List (Option ℕ) := []
  draining : Bool := false
  nextSyncNeedsSysRelease : Bool := false
  cmds : ℕ → Cmd := fun _ => {}
  made : ℕ := 0
  most : ℕ := 0

/-- What a queue asks of the runtime under it. -/
structure Runtime (σ : Type*) where
  /-- The packet of a command, with its barrier bit, is written to the locked hardware queue. -/
  write : ℕ → Bool → σ → σ
  /-- `hsa_amd_memory_async_copy` for a command, with the command it depends on. -/
  copy : ℕ → Option ℕ → σ → σ
  /-- `hsa_signal_wait_scacquire` on the signal of a command, when it returns. -/
  await : ℕ → σ → Option σ

/-- Why a call does not return. -/
inductive Stop where
  | abort
  | outOfRange
  | depth
  | blocked
  deriving DecidableEq, Repr

/-- A queue and the runtime under it. -/
structure World (σ : Type*) where
  queue : DlaQueue := {}
  hw : σ

/-! ### The vector -/

/-- A command is made. -/
def DlaQueue.make (q : DlaQueue) : DlaQueue :=
  { q with cmds := Function.update q.cmds q.made {}, made := q.made + 1 }

/-- The end of `pushAsyncOp`. -/
def DlaQueue.place (op : ℕ) (q : DlaQueue) : DlaQueue :=
  { q with
    asyncOps := q.asyncOps ++ [some op]
    draining := false
    cmds := Function.update q.cmds op { q.cmds op with asyncOpsIndex := q.asyncOps.length }
    most := max q.most (q.asyncOps.length + 1) }

/-- A command is dispatched. -/
def DlaQueue.dispatched (op : ℕ) (hasSignal : Bool) (q : DlaQueue) : DlaQueue :=
  { q with
    cmds := Function.update q.cmds op
      { q.cmds op with hasSignal := hasSignal, phase := .dispatched } }

/-- A command was waited for. -/
def DlaQueue.completed (op : ℕ) (q : DlaQueue) : DlaQueue :=
  { q with cmds := Function.update q.cmds op { q.cmds op with phase := .complete } }

/-- The loop of `removeAsyncOp` over the slots below `i`, from the last one down. -/
def releaseLoop : ℕ → List (Option ℕ) → List (Option ℕ)
  | 0, asyncOps => asyncOps
  | i + 1, asyncOps =>
    match asyncOps[i]? with
    | some (some _) => releaseLoop i (asyncOps.set i none)
    | _ => asyncOps

/-- `targetIndex`, a `uint32_t`. -/
def Cmd.targetIndex (c : Cmd) : ℕ := (c.asyncOpsIndex % 2 ^ 32).toNat

/-- `removeAsyncOp`. -/
def DlaQueue.removeAsyncOp (op : ℕ) (q : DlaQueue) : DlaQueue :=
  let targetIndex := (q.cmds op).targetIndex
  let asyncOps :=
    if q.asyncOps[targetIndex]? = some (some op) then releaseLoop (targetIndex + 1) q.asyncOps
    else q.asyncOps
  { q with asyncOps :=
      if ASYNCOPS_VECTOR_GC_SIZE < asyncOps.length then asyncOps.filter (·.isSome) else asyncOps }

/-! ### Waiting -/

variable {σ : Type*} (rt : Runtime σ)

/-- A function of the queue. -/
def World.modify (f : DlaQueue → DlaQueue) (w : World σ) : World σ := { w with queue := f w.queue }

/-- `future->wait()`, which runs `waitComplete` once: a command without a signal is considered
complete. -/
def futureWait (op : ℕ) (w : World σ) : Except Stop (World σ) :=
  if (w.queue.cmds op).phase ≠ .dispatched then .ok w
  else if !(w.queue.cmds op).hasSignal then
    .ok (w.modify fun q => (q.removeAsyncOp op).completed op)
  else
    match rt.await op w.hw with
    | none => .error .blocked
    | some hw => .ok { queue := (w.queue.removeAsyncOp op).completed op, hw := hw }

/-- The loop of `wait` over the slots below `i`, from the last one down. -/
def waitLoop (ndebug : Bool) : ℕ → Bool → World σ → Except Stop (World σ)
  | 0, _, w => .ok w
  | i + 1, foundFirstValidOp, w =>
    match w.queue.asyncOps[i]? with
    | none => .error .outOfRange
    | some none => waitLoop ndebug i foundFirstValidOp w
    | some (some op) =>
      if !foundFirstValidOp ∧ assert ndebug (w.queue.cmds op).hasSignal = none then .error .abort
      else (futureWait rt op w).bind fun w => waitLoop ndebug i true w

/-- `wait` after the marker. -/
def drain (ndebug : Bool) (w : World σ) : Except Stop (World σ) :=
  (waitLoop rt ndebug w.queue.asyncOps.length false w).map
    (·.modify fun q => { q with asyncOps := [] })

/-- `pushAsyncOp`. -/
def pushAsyncOp (wait : World σ → Except Stop (World σ)) (op : ℕ) (w : World σ) :
    Except Stop (World σ) :=
  if !w.queue.draining ∧ MAX_INFLIGHT_COMMANDS_PER_QUEUE - 1 ≤ w.queue.asyncOps.length then
    (wait (w.modify fun q => { q with draining := true })).map (·.modify (·.place op))
  else .ok (w.modify (·.place op))

/-- `CmdBarrier::enqueueAsync`. -/
def enqueueAsync (op : ℕ) (fenceScope : MemoryScope) (w : World σ) : World σ where
  queue := { w.queue.dispatched op true with
    nextSyncNeedsSysRelease := fenceScope ≠ .system && w.queue.nextSyncNeedsSysRelease }
  hw := rt.write op true w.hw

/-- `EnqueueMarkerWithDependency`; `inherit` is whether a command it depends on needs a release to
the system. -/
def enqueueMarkerWithDependency (wait : World σ → Except Stop (World σ)) (inherit : Bool)
    (fenceScope : MemoryScope) (w : World σ) : Except Stop (World σ) :=
  (pushAsyncOp wait w.queue.made (w.modify (·.make))).map fun w' =>
    enqueueAsync rt w.queue.made fenceScope (w'.modify fun q =>
      { q with nextSyncNeedsSysRelease := inherit || q.nextSyncNeedsSysRelease })

/-- `EnqueueMarker`. -/
def enqueueMarker (wait : World σ → Except Stop (World σ)) (release_scope : MemoryScope)
    (w : World σ) : Except Stop (World σ) :=
  (pushAsyncOp wait w.queue.made (w.modify (·.make))).map
    (enqueueAsync rt w.queue.made release_scope)

/-- `wait`, with calls of `wait` under it to a depth. -/
def waitDepth (optFlush ndebug : Bool) : ℕ → World σ → Except Stop (World σ)
  | 0, _ => .error .depth
  | n + 1, w =>
    if optFlush && w.queue.nextSyncNeedsSysRelease then
      (enqueueMarker rt (waitDepth optFlush ndebug n) .system w).bind (drain rt ndebug)
    else drain rt ndebug w

/-- `wait`. -/
def wait (optFlush ndebug : Bool) : World σ → Except Stop (World σ) :=
  waitDepth rt optFlush ndebug 2

/-! ### Commands -/

/-- `needsSignal` of `dispatch_hsa_kernel`; `future` is whether the caller takes one. -/
def needsSignal (optFlush future : Bool) : Bool := !(optFlush && !future)

/-- `CmdDispatch::dispatchKernelAsync`. -/
def dispatchKernelAsync (op : ℕ) (inOrder allocSignal : Bool) (w : World σ) : World σ where
  queue := { w.queue.dispatched op allocSignal with nextSyncNeedsSysRelease := true }
  hw := rt.write op inOrder w.hw

/-- `dispatch_hsa_kernel`. -/
def dispatchHsaKernel (optFlush ndebug inOrder future : Bool) (w : World σ) :
    Except Stop (World σ) :=
  (pushAsyncOp (wait rt optFlush ndebug) w.queue.made (w.modify (·.make))).map
    (dispatchKernelAsync rt w.queue.made inOrder (needsSignal optFlush future))

/-- `CmdCopy::hcc_memory_async_copy`. -/
def hccMemoryAsyncCopy (op : ℕ) (dep : Option ℕ) (w : World σ) : World σ where
  queue := w.queue.dispatched op true
  hw := rt.copy op dep w.hw

/-- `CmdCopy::enqueueAsyncCopyCommand`: a marker goes before the copy if a release is needed. -/
def enqueueAsyncCopyCommand (optFlush ndebug : Bool) (op : ℕ) (w : World σ) :
    Except Stop (World σ) :=
  if w.queue.nextSyncNeedsSysRelease then
    (enqueueMarkerWithDependency rt (wait rt optFlush ndebug) false .system w).map
      (hccMemoryAsyncCopy rt op (some w.queue.made))
  else .ok (hccMemoryAsyncCopy rt op none w)

/-- `EnqueueAsyncCopy`. -/
def enqueueAsyncCopy (optFlush ndebug : Bool) (w : World σ) : Except Stop (World σ) :=
  (enqueueAsyncCopyCommand rt optFlush ndebug w.queue.made (w.modify (·.make))).bind
    (pushAsyncOp (wait rt optFlush ndebug) w.queue.made)

end Codrive.Csq
