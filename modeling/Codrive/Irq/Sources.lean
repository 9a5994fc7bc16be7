/-
# Interrupt sources

`src/src/cmdio/linux/opu_irq.c`: plain sources, timers in their place, and the clients of the IH
ring.

| here | source |
|---|---|
| `Mgr` | `struct opu_irq_mgr` of a device that has one; `ih` is null or the sources of the ring |
| `Line`, `Lines` | what the kernel keeps of an interrupt line: a handler, the depth of `disable_irq` |
| `Result` | what a call returns; nothing where it leaves an array or uses a pointer it must not |
| `client_max` | `CLIENT_MAX`, whose header is not in the repository |
| `alloc : Bool` | whether `kzalloc` has memory |
| `refused : Option Errno` | what keeps `request_irq` from success |

`src_registerd`, `resued`, `irq_mgr->source` and `irq_mgr->mgr` are misspelt names of the fields
that the other functions use, and the label `request_irq_fail` is `request_irq_failed`.
-/

import Codrive.Basis.Slots
import Mathlib.Algebra.Notation.Defs

namespace Codrive.Irq

open Codrive.Basis

/-- The error numbers here. -/
inductive Errno where
  | enoent | enomem | einval | ebusy
  deriving DecidableEq, Repr

/-! ### Interrupt lines -/

/-- A line of the kernel: whether it has a handler, and how often it is disabled. -/
structure Line where
  requested : Bool := false
  depth : ℕ := 1
  deriving DecidableEq, Repr

/-- The lines by number. -/
abbrev Lines := ℕ → Line

/-- The line is enabled. -/
def Line.Enabled (line : Line) : Prop := line.depth = 0

/-- `request_irq` without `IRQF_SHARED`: the line starts enabled. -/
def requestIrq (refused : Option Errno) (irq : ℕ) (lines : Lines) : Option Errno × Lines :=
  match refused with
  | some err => (some err, lines)
  | none =>
    if (lines irq).requested then (some .ebusy, lines)
    else (none, Function.update lines irq ⟨true, 0⟩)

/-- `free_irq`. -/
def freeIrq (irq : ℕ) (lines : Lines) : Lines :=
  if (lines irq).requested then Function.update lines irq {} else lines

/-- `disable_irq`. -/
def disableIrq (irq : ℕ) (lines : Lines) : Lines :=
  Function.update lines irq { lines irq with depth := (lines irq).depth + 1 }

/-- `enable_irq`; on an enabled line it only warns. -/
def enableIrq (irq : ℕ) (lines : Lines) : Lines :=
  Function.update lines irq { lines irq with depth := (lines irq).depth - 1 }

/-! ### Sources -/

/-- `IH_CLIENT_ID_MASK`. -/
abbrev IH_CLIENT_ID_MASK : ℕ := 0xffff0000

/-- `IH_CLIENT_ID_SHIFT`. -/
abbrev IH_CLIENT_ID_SHIFT : ℕ := 16

/-- `OPU_IRQ_SOURCE_MAX`. -/
abbrev OPU_IRQ_SOURCE_MAX : ℕ := 10

/-- `OPU_INVALID_IRQ`. -/
abbrev OPU_INVALID_IRQ : ℕ := 255

/-- `struct opu_irq_info`; of the functions, whether they are there. -/
structure Info where
  type : ℕ
  need_wq : Bool := false
  timeout : ℕ := 0
  checker : Bool := true
  handler : Bool := true
  deriving DecidableEq, Repr

/-- `struct opu_irq_source`; `freed` is whether `kfree` was called on it. -/
structure Source where
  enabled : Bool := false
  type : ℕ := 0
  irq : ℕ := 0
  timeout : ℕ := 0
  wq : Bool := false
  freed : Bool := false
  deriving DecidableEq, Repr

/-- `struct opu_irq_mgr`, and the lines. -/
structure Mgr where
  reused : Bool
  irq_base : ℕ
  sources : Slots Source := fun _ => none
  src_enabled : ℤ := 0
  src_registered : ℤ := 0
  ih : Option (Slots Source)
  lines : Lines := fun _ => {}

/-- What a call returns, and the manager after it. -/
abbrev Result := Option (Option Errno × Mgr)

/-- The source in a slot: `null` is done where there is none. -/
def onSource (n : ℕ) (slots : Slots Source) (i : ℕ) (null : Result) (f : Source → Result) :
    Result :=
  if i < n then
    match slots i with
    | none => null
    | some src => if src.freed then none else f src
  else none

/-- `mgr->sources[type] = src`. -/
def Mgr.setSource (mgr : Mgr) (type : ℕ) (src : Option Source) : Mgr :=
  { mgr with sources := Function.update mgr.sources type src }

/-- What `info` makes of a source. -/
def Info.source (info : Info) (irq : ℕ) : Source :=
  { irq := irq, type := info.type, timeout := info.timeout, wq := info.need_wq }

/-- `opu_register_timer_source`. -/
def opuRegisterTimerSource (alloc : Bool) (mgr : Mgr) (info : Info) : Result :=
  if OPU_IRQ_SOURCE_MAX ≤ info.type then none
  else if !alloc then some (some .enomem, mgr)
  else some (none, { mgr.setSource info.type (some (info.source OPU_INVALID_IRQ)) with
    src_registered := mgr.src_registered + 1 })

/-- `opu_enable_timer_source`. -/
def opuEnableTimerSource (mgr : Mgr) (type : ℕ) : Result :=
  onSource OPU_IRQ_SOURCE_MAX mgr.sources type (some (some .enoent, mgr)) fun src =>
    some (none, { mgr.setSource type (some { src with enabled := true }) with
      src_enabled := mgr.src_enabled + 1 })

/-- `opu_disable_timer_source`; its last line is `src_enabled++`. -/
def opuDisableTimerSource (mgr : Mgr) (type : ℕ) : Result :=
  onSource OPU_IRQ_SOURCE_MAX mgr.sources type (some (some .enoent, mgr)) fun src =>
    some (none, { mgr.setSource type (some { src with enabled := false }) with
      src_enabled := mgr.src_enabled + 1 })

/-- The line of `opu_register_irq_source`: the line is requested, and disabled, unless it is shared
and something is registered. -/
def requestLine (refused : Option Errno) (mgr : Mgr) (type : ℕ) : Option Errno × Lines :=
  let irq := if mgr.reused then mgr.irq_base else mgr.irq_base + type
  if mgr.reused ∧ mgr.src_registered ≠ 0 then (none, mgr.lines)
  else
    match requestIrq refused irq mgr.lines with
    | (some err, lines) => (some err, lines)
    | (none, lines) => (none, disableIrq irq lines)

/-- `opu_register_irq_source`.  The slot has the source from the start, and still has it when the
line is refused and the source is freed. -/
def opuRegisterIrqSource (alloc : Bool) (refused : Option Errno) (mgr : Mgr) (info : Info) :
    Result :=
  if OPU_IRQ_SOURCE_MAX ≤ info.type then none
  else if !alloc then some (some .enomem, mgr)
  else
    match requestLine refused mgr info.type with
    | (some err, lines) =>
      some (some err, { mgr.setSource info.type (some { freed := true }) with lines := lines })
    | (none, lines) =>
      let irq := if mgr.reused then mgr.irq_base else mgr.irq_base + info.type
      some (none, { mgr.setSource info.type (some (info.source irq)) with
        src_registered := mgr.src_registered + 1, lines := lines })

/-- The line of `opu_unregister_irq_source`. -/
def releaseLine (mgr : Mgr) (src : Source) : Lines :=
  if src.timeout = 0 then
    if mgr.reused then
      if mgr.src_registered = 1 then freeIrq mgr.irq_base mgr.lines else mgr.lines
    else freeIrq src.irq mgr.lines
  else mgr.lines

/-- `opu_unregister_irq_source`. -/
def opuUnregisterIrqSource (mgr : Mgr) (type : ℕ) : Result :=
  onSource OPU_IRQ_SOURCE_MAX mgr.sources type none fun src =>
    some (none, { mgr.setSource type none with
      src_registered := mgr.src_registered - 1, lines := releaseLine mgr src })

/-- `opu_enable_irq_source`. -/
def opuEnableIrqSource (mgr : Mgr) (type : ℕ) : Result :=
  onSource OPU_IRQ_SOURCE_MAX mgr.sources type (some (some .enoent, mgr)) fun src =>
    let lines :=
      if mgr.reused then
        if mgr.src_enabled = 0 then enableIrq mgr.irq_base mgr.lines else mgr.lines
      else enableIrq src.irq mgr.lines
    some (none, { mgr.setSource type (some { src with enabled := true }) with
      src_enabled := mgr.src_enabled + 1, lines := lines })

/-- `opu_disable_irq_source`. -/
def opuDisableIrqSource (mgr : Mgr) (type : ℕ) : Result :=
  onSource OPU_IRQ_SOURCE_MAX mgr.sources type (some (some .enoent, mgr)) fun src =>
    let lines :=
      if mgr.reused then
        if mgr.src_enabled = 1 then disableIrq mgr.irq_base mgr.lines else mgr.lines
      else disableIrq src.irq mgr.lines
    some (none, { mgr.setSource type (some { src with enabled := false }) with
      src_enabled := mgr.src_enabled - 1, lines := lines })

/-! ### Clients of the IH ring -/

/-- The client number in a type. -/
def clientId (type : ℕ) : ℕ := (type &&& IH_CLIENT_ID_MASK) >>> IH_CLIENT_ID_SHIFT

/-- `ih->sources[client_id] = src`. -/
def Mgr.setIhSource (mgr : Mgr) (slots : Slots Source) (client_id : ℕ) (src : Option Source) :
    Mgr :=
  { mgr with ih := some (Function.update slots client_id src) }

/-- `opu_register_ih_source`. -/
def opuRegisterIhSource (client_max : ℕ) (alloc : Bool) (mgr : Mgr) (info : Info) : Result :=
  match mgr.ih with
  | none => some (some .enoent, mgr)
  | some slots =>
    if !alloc then some (some .enomem, mgr)
    else if client_max ≤ clientId info.type then none
    else some (none, mgr.setIhSource slots (clientId info.type) (some (info.source mgr.irq_base)))

/-- The frame of the other functions on a client: its source, in a ring that is there. -/
def onIhSource (client_max : ℕ) (mgr : Mgr) (type : ℕ) (f : Slots Source → Source → Result) :
    Result :=
  match mgr.ih with
  | none => some (some .enoent, mgr)
  | some slots => onSource client_max slots (clientId type) (some (some .enoent, mgr)) (f slots)

/-- `opu_unregister_ih_source`. -/
def opuUnregisterIhSource (client_max : ℕ) (mgr : Mgr) (type : ℕ) : Result :=
  onIhSource client_max mgr type fun slots _ =>
    some (none, mgr.setIhSource slots (clientId type) none)

/-- `opu_enable_ih_source`. -/
def opuEnableIhSource (client_max : ℕ) (mgr : Mgr) (type : ℕ) : Result :=
  onIhSource client_max mgr type fun slots src =>
    some (none, { mgr.setIhSource slots (clientId type) (some { src with enabled := true }) with
      src_enabled := mgr.src_enabled + 1 })

/-- `opu_disable_ih_source`. -/
def opuDisableIhSource (client_max : ℕ) (mgr : Mgr) (type : ℕ) : Result :=
  onIhSource client_max mgr type fun slots src =>
    some (none, { mgr.setIhSource slots (clientId type) (some { src with enabled := false }) with
      src_enabled := mgr.src_enabled - 1 })

/-! ### The calls of the driver -/

/-- `opu_register_irq`. -/
def opuRegisterIrq (client_max : ℕ) (alloc : Bool) (refused : Option Errno) (mgr : Mgr)
    (info : Info) : Result :=
  if !info.handler || !info.checker then some (some .einval, mgr)
  else if info.type &&& IH_CLIENT_ID_MASK ≠ 0 then opuRegisterIhSource client_max alloc mgr info
  else if info.timeout ≠ 0 then opuRegisterTimerSource alloc mgr info
  else opuRegisterIrqSource alloc refused mgr info

/-- `opu_unregister_irq`: the error of the function it calls is not returned. -/
def opuUnregisterIrq (client_max : ℕ) (mgr : Mgr) (type : ℕ) : Result :=
  (if type &&& IH_CLIENT_ID_MASK ≠ 0 then opuUnregisterIhSource client_max mgr type
    else opuUnregisterIrqSource mgr type).map fun r => (none, r.2)

/-- `opu_enable_irq`. -/
def opuEnableIrq (client_max : ℕ) (mgr : Mgr) (type : ℕ) : Result :=
  if type &&& IH_CLIENT_ID_MASK ≠ 0 then opuEnableIhSource client_max mgr type
  else
    onSource OPU_IRQ_SOURCE_MAX mgr.sources type none fun src =>
      if src.timeout ≠ 0 then opuEnableTimerSource mgr type else opuEnableIrqSource mgr type

/-- `opu_disable_irq`. -/
def opuDisableIrq (client_max : ℕ) (mgr : Mgr) (type : ℕ) : Result :=
  if type &&& IH_CLIENT_ID_MASK ≠ 0 then opuDisableIhSource client_max mgr type
  else
    onSource OPU_IRQ_SOURCE_MAX mgr.sources type none fun src =>
      if src.timeout ≠ 0 then opuDisableTimerSource mgr type else opuDisableIrqSource mgr type

/-- The loop over the clients, in `opu_enable_all_irq` with `opu_enable_irq` and in
`opu_disable_all_irq` with `opu_disable_irq`. -/
def forClients (call : Mgr → ℕ → Result) : List ℕ → Mgr → Result
  | [], mgr => some (none, mgr)
  | i :: is, mgr =>
    match mgr.ih.bind (· i) with
    | none => forClients call is mgr
    | some _ =>
      match call mgr ((i <<< IH_CLIENT_ID_SHIFT) % 2 ^ 32) with
      | none => none
      | some (some err, mgr) => some (some err, mgr)
      | some (none, mgr) => forClients call is mgr

/-- `opu_enable_all_irq`.  Its loop over the other sources is
`if (!src) { continue; if (..) { .. } }`, and does nothing. -/
def opuEnableAllIrq (client_max : ℕ) (mgr : Mgr) : Result :=
  if mgr.ih.isSome then forClients (opuEnableIrq client_max) (List.range client_max) mgr
  else some (none, mgr)

/-- `opu_disable_all_irq`; as in `opuEnableAllIrq`, one of its loops does nothing. -/
def opuDisableAllIrq (client_max : ℕ) (mgr : Mgr) : Result :=
  if mgr.ih.isSome then forClients (opuDisableIrq client_max) (List.range client_max) mgr
  else some (none, mgr)

end Codrive.Irq
