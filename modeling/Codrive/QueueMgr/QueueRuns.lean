/-
# Every run of queues

Queues are created and destroyed in any order, on any nodes.  What is allocated is what the queues
own that `CreateQueue` returned and `DestroyQueue` has not destroyed, and the driver's queues are
theirs (`Settled`).  From this it follows what a call does (`Contract`): one that fails leaves no
trace, nothing is freed that is not allocated, the doorbell is where the driver's offset points to,
and when all queues are destroyed nothing is left.  It holds in every run whose calls are all
allowed (`contract_of_run`).

The other calls do not go as they should.  A type that is not supported, for one, leaves the
`struct queue` behind (`sdma_queue_memory_left`).
-/

import Codrive.Basis.Run
import Codrive.QueueMgr.QueueSpec

namespace Codrive.QueueMgr

open Codrive.Basis

variable {d : Device} {s t : State} {c : CreateCall} {a : Answers} {q : Queue} {x : ℕ}

/-! ### Runs -/

/-- A call, with what it is answered. -/
inductive Op where
  | create (c : CreateCall) (a : Answers)
  | destroy (queueId : ℕ) (err : ℤ)

/-- What is known of a queue that was created: the node, the driver's offset and the doorbell. -/
structure Created where
  nodeId : ℕ
  doorbell_offset : ℕ
  queue_DoorBell : ℕ
  deriving DecidableEq, Repr

/-- The state, and the queues that were created and are not destroyed yet. -/
structure History where
  state : State
  live : ℕ → Option Created

/-- Before the first call. -/
def History.start : History where
  state := QueueMgr.start
  live _ := none

/-- After one more call. -/
def History.step (d : Device) (h : History) : Op → Option History
  | .create c a => (createQueue d h.state c a).map fun (result, state) =>
    match result with
    | .error _ => { h with state }
    | .ok r =>
      let created := ⟨c.nodeId, a.create.doorbell_offset, r.queue_DoorBell⟩
      ⟨state, Function.update h.live r.queueId (some created)⟩
  | .destroy queueId err => (destroyQueue h.state queueId err).map fun (status, state) =>
    if status = .success then ⟨state, Function.update h.live queueId none⟩
    else { h with state }

/-- What the answers are relied on for. -/
def Op.Honest (h : History) : Op → Prop
  | .create _ a => QueueMgr.Honest h.state a
  | .destroy .. => True

/-- The calls that go as they should: `CreateQueue` as `CreateAllowed` says, and `DestroyQueue` of
nothing or of a queue that was created and is not destroyed yet, where the driver's request succeeds
or fails with -1. -/
def Op.Allowed (d : Device) (h : History) : Op → Prop
  | .create c a => CreateAllowed d h.state c a
  | .destroy queueId err =>
    (queueId = 0 ∨ (h.live queueId).isSome = true) ∧ (err = 0 ∨ err = -1)

/-- A call leads from one history to the next. -/
def Step (d : Device) (h : History) (op : Op) (h' : History) : Prop :=
  op.Honest h ∧ h.step d op = some h'

/-! ### The purpose -/

/-- A doorbell of a node is where the driver's offset points to: the doorbells are mapped at this
offset, rounded down to their size, and the rest of it is the place among them. -/
def RingOk (s : State) (n offset ring : ℕ) : Prop :=
  (s.doorbells n).size ≠ 0 ∧
    s.mapped n = some (offset - offset % (s.doorbells n).size) ∧
      ring = (s.doorbells n).mapping + offset % (s.doorbells n).size

/-- The queue at `x` is gone, with its queue of the driver and with its memory. -/
def Released (s : State) (x : ℕ) (t : State) : Prop :=
  ∃ q, s.queues x = some q ∧ (s.driver q.queue_id).isSome = true ∧
    t.driver = Function.update s.driver q.queue_id none ∧
    (∀ b ∈ queueParts x q, b ∈ s.memory) ∧ t.memory = s.memory \ (queueParts x q).toFinset

/-- `DestroyQueue` of one queue after another, where all of them succeed. -/
def destroyAll (s : State) : List ℕ → Option State
  | [] => some s
  | x :: xs =>
    match destroyQueue s x 0 with
    | some (.success, s) => destroyAll s xs
    | _ => none

/-- **What the calls promise.**  None of them frees what is not allocated, as they return. -/
structure Contract (d : Device) (h : History) : Prop where
  create : ∀ c a, Honest h.state a → CreateAllowed d h.state c a →
    ∃ result s, createQueue d h.state c a = some (result, s) ∧
      match result with
      | .error _ => s.memory = h.state.memory ∧ s.driver = h.state.driver
      | .ok r => RingOk s c.nodeId a.create.doorbell_offset r.queue_DoorBell
  ring : ∀ x r, h.live x = some r → RingOk h.state r.nodeId r.doorbell_offset r.queue_DoorBell
  destroy : ∀ x err, (h.live x).isSome = true → err = 0 ∨ err = -1 →
    ∃ status s, destroyQueue h.state x err = some (status, s) ∧
      (status = .success → Released h.state x s) ∧ (status ≠ .success → s = h.state)
  destroyAll : ∀ xs : List ℕ, xs.Nodup → (∀ x, x ∈ xs ↔ (h.live x).isSome = true) →
    ∃ s, destroyAll h.state xs = some s ∧ s.memory = ∅ ∧ ∀ id, s.driver id = none

/-! ### The invariant -/

/-- The books are balanced: the memory and the driver's queues are those of the queues, which are
those that were created. -/
structure Settled (h : History) : Prop where
  memory : Ledger (h.state.memory : Set (ℕ × ℕ)) h.state.queues queueParts
  driver : Ledger {id | (h.state.driver id).isSome = true} h.state.queues fun _ q => [q.queue_id]
  wellFormed : ∀ x q, h.state.queues x = some q → q.WellFormed
  null : h.state.queues 0 = none
  doorbells : DoorbellsSettled h.state
  live : ∀ x, (h.live x).isSome = (h.state.queues x).isSome
  ring : ∀ x r, h.live x = some r → RingOk h.state r.nodeId r.doorbell_offset r.queue_DoorBell

variable {h h' : History}

/-- At first there is nothing. -/
theorem settled_start : Settled .start where
  memory := by
    have hempty : ((∅ : Finset (ℕ × ℕ)) : Set (ℕ × ℕ)) = ∅ := Finset.coe_empty
    simpa only [History.start, start, hempty] using Ledger.of_empty
  driver := by
    have hempty : {id : ℕ | (none : Option CreateQueueArgs).isSome = true} = ∅ := by simp
    simpa only [History.start, start, hempty] using Ledger.of_empty
  wellFormed x q hq := by cases hq
  null := rfl
  doorbells n := .inl rfl
  live x := rfl
  ring x r hr := by cases hr

/-- Where no block starts, there is no queue. -/
theorem Settled.vacant (hs : Settled h) (hx : Fresh h.state.memory x) :
    h.state.queues x = none := by
  cases hq : h.state.queues x with
  | none => rfl
  | some q =>
    have hmem : (x, sizeofQueue) ∈ queueParts x q := by simp [queueParts]
    exact absurd (Finset.mem_coe.1 (hs.memory.mem hq hmem)) (hx.2 _)

/-- The driver has one more queue. -/
theorem driver_update_some {id : ℕ} {args : CreateQueueArgs}
    (driver : ℕ → Option CreateQueueArgs) :
    {i | (Function.update driver id (some args) i).isSome = true} =
      {i | (driver i).isSome = true} ∪ {i | i ∈ [id]} := by
  ext i
  by_cases hi : i = id
  · subst hi
    simp
  · simp [hi]

/-- The driver has one queue less. -/
theorem driver_update_none {id : ℕ} (driver : ℕ → Option CreateQueueArgs) :
    {i | (Function.update driver id none i).isSome = true} =
      {i | (driver i).isSome = true} \ {i | i ∈ [id]} := by
  ext i
  by_cases hi : i = id
  · subst hi
    simp
  · simp [hi]

/-- **A queue is added** to books that are balanced. -/
theorem Settled.added {r : QueueResource} (hs : Settled h) (ha : Honest h.state a)
    (hadded : Added h.state c a r t) :
    Settled ⟨t, Function.update h.live r.queueId
      (some ⟨c.nodeId, a.create.doorbell_offset, r.queue_DoorBell⟩)⟩ := by
  obtain ⟨q, args, hfits, hid, hmemory, hqueues, hdriver⟩ := hadded.queue
  obtain ⟨db, hsize, hdoorbells, hmapped, hring, hkept⟩ := hadded.doorbells
  have hnonnull : r.queueId ≠ 0 := (ha.queue _ hadded.handle).1
  have hnew : RingOk t c.nodeId a.create.doorbell_offset r.queue_DoorBell := by
    rw [RingOk, hdoorbells, hmapped, Function.update_self, Function.update_self, hsize]
    exact ⟨by decide, rfl, hring⟩
  constructor
  case memory =>
    rw [hmemory, hqueues, Finset.coe_union, List.coe_toFinset]
    exact hs.memory.insert hfits.vacant hfits.nodup fun b hb => hfits.fresh b hb
  case driver =>
    rw [hdriver, hqueues, driver_update_some, ← hid]
    refine hs.driver.insert hfits.vacant (List.nodup_singleton _) ?_
    intro i hi
    rw [List.mem_singleton.1 hi, hid]
    simp [hadded.driver]
  case wellFormed =>
    intro x q' hq'
    rw [hqueues] at hq'
    obtain ⟨-, rfl⟩ | ⟨-, hq'⟩ := Ledger.update_some hq'
    · exact hfits.wellFormed
    · exact hs.wellFormed x q' hq'
  case null =>
    rw [hqueues, Function.update_of_ne hnonnull.symm]
    exact hs.null
  case doorbells =>
    intro n
    rw [hdoorbells, hmapped]
    by_cases hn : n = c.nodeId
    · subst hn
      rw [Function.update_self, Function.update_self]
      exact .inr ⟨hsize, _, rfl, Nat.dvd_sub_mod _⟩
    · rw [Function.update_of_ne hn, Function.update_of_ne hn]
      exact hs.doorbells n
  case live =>
    intro x
    rw [hqueues]
    by_cases hx : x = r.queueId
    · subst hx
      simp
    · simp only [Function.update_of_ne hx]
      exact hs.live x
  case ring =>
    intro x r' hr'
    obtain ⟨-, rfl⟩ | ⟨-, hr'⟩ := Ledger.update_some hr'
    · exact hnew
    · have hold := hs.ring x r' hr'
      -- the doorbells of a queue stay where they are, even if it is of the same node
      have hsame : t.doorbells r'.nodeId = h.state.doorbells r'.nodeId ∧
          t.mapped r'.nodeId = h.state.mapped r'.nodeId := by
        rw [hdoorbells, hmapped]
        by_cases hn : r'.nodeId = c.nodeId
        · obtain ⟨hdb, hmapped'⟩ := hkept (hn ▸ hold.1)
          rw [hn, Function.update_self, Function.update_self]
          exact ⟨hdb, hmapped'.symm⟩
        · rw [Function.update_of_ne hn, Function.update_of_ne hn]
          exact ⟨rfl, rfl⟩
      rw [RingOk, hsame.1, hsame.2]
      exact hold

/-- **A queue is destroyed,** and the books are balanced again. -/
theorem Settled.destroyed (hs : Settled h) (hq : h.state.queues x = some q) :
    Settled ⟨h.state.without x q, Function.update h.live x none⟩ := by
  constructor
  case memory =>
    simp only [State.without, Finset.coe_sdiff, List.coe_toFinset]
    exact hs.memory.erase hq
  case driver =>
    simp only [State.without, driver_update_none]
    exact hs.driver.erase hq
  case wellFormed => exact fun y q' hq' => hs.wellFormed y q' (Ledger.update_none hq').2
  case null =>
    have hx : 0 ≠ x := by
      rintro rfl
      rw [hs.null] at hq
      cases hq
    simp only [State.without, Function.update_of_ne hx]
    exact hs.null
  case doorbells => exact hs.doorbells
  case live =>
    intro y
    by_cases hy : y = x
    · subst hy
      simp [State.without]
    · simp only [State.without, Function.update_of_ne hy]
      exact hs.live y
  case ring => exact fun y r hr => hs.ring y r (Ledger.update_none hr).2

/-- `DestroyQueue` of a queue that was created. -/
theorem Settled.destroyQueue_spec {err : ℤ} (hs : Settled h) (hlive : (h.live x).isSome = true)
    (herr : err = 0 ∨ err = -1) :
    ∃ q, h.state.queues x = some q ∧
      (err = -1 ∧ destroyQueue h.state x err = some (.error, h.state) ∨
        err = 0 ∧ destroyQueue h.state x err = some (.success, h.state.without x q)) := by
  rw [hs.live] at hlive
  obtain ⟨q, hq⟩ := Option.isSome_iff_exists.1 hlive
  have hx : x ≠ 0 := by
    rintro rfl
    rw [hs.null] at hq
    cases hq
  exact ⟨q, hq, QueueMgr.destroyQueue_spec hx hq (hs.wellFormed x q hq) (hs.memory.nodup x q hq)
    (fun b hb => Finset.mem_coe.1 (hs.memory.mem hq hb)) herr⟩

/-- **A step** of the runs keeps the books balanced. -/
theorem Settled.step {op : Op} (hs : Settled h) (hallowed : op.Allowed d h)
    (hstep : Step d h op h') : Settled h' := by
  obtain ⟨honest, hstep⟩ := hstep
  cases op with
  | create c a =>
    obtain ⟨status, hcreate⟩ | ⟨r, t, hcreate, hadded⟩ :=
      createQueue_spec hs.doorbells (fun x hx => hs.vacant hx) honest hallowed
    · rw [History.step, hcreate] at hstep
      cases hstep
      exact hs
    · rw [History.step, hcreate] at hstep
      cases hstep
      exact hs.added honest hadded
  | destroy queueId err =>
    obtain ⟨rfl | hlive, herr⟩ := hallowed
    · rw [History.step, destroyQueue, if_pos rfl] at hstep
      cases hstep
      exact hs
    · obtain ⟨q, hq, ⟨-, hdestroy⟩ | ⟨-, hdestroy⟩⟩ := hs.destroyQueue_spec hlive herr
      · rw [History.step, hdestroy] at hstep
        cases hstep
        exact hs
      · rw [History.step, hdestroy] at hstep
        cases hstep
        exact hs.destroyed hq

/-! ### The promise -/

/-- What is destroyed is released. -/
theorem Settled.released (hs : Settled h) (hq : h.state.queues x = some q) :
    Released h.state x (h.state.without x q) := by
  refine ⟨q, hq, ?_, rfl, fun b hb => Finset.mem_coe.1 (hs.memory.mem hq hb), rfl⟩
  exact hs.driver.mem (b := q.queue_id) hq (List.mem_singleton_self _)

/-- **When all queues are destroyed,** nothing is left. -/
theorem Settled.destroyAll (hs : Settled h) {xs : List ℕ} (hnodup : xs.Nodup)
    (hlive : ∀ x, x ∈ xs ↔ (h.live x).isSome = true) :
    ∃ s, destroyAll h.state xs = some s ∧ s.memory = ∅ ∧ ∀ id, s.driver id = none := by
  induction xs generalizing h with
  | nil =>
    have hnone : ∀ x, h.state.queues x = none := by
      intro x
      have hx := hlive x
      rw [hs.live] at hx
      simpa using hx
    refine ⟨h.state, rfl, Finset.coe_eq_empty.1 (hs.memory.eq_empty hnone), fun id => ?_⟩
    have hempty := hs.driver.eq_empty hnone
    simpa using Set.eq_empty_iff_forall_notMem.1 hempty id
  | cons x xs ih =>
    rw [List.nodup_cons] at hnodup
    obtain ⟨q, hq, ⟨herr, -⟩ | ⟨-, hdestroy⟩⟩ :=
      hs.destroyQueue_spec ((hlive x).1 (List.mem_cons_self ..)) (.inl rfl)
    · cases herr
    · obtain ⟨s, hall, hempty⟩ := ih (hs.destroyed hq) hnodup.2 (by
        intro y
        by_cases hy : y = x
        · subst hy
          simp [hnodup.1]
        · simp only [Function.update_of_ne hy, ← hlive y, List.mem_cons, hy, false_or])
      refine ⟨s, ?_, hempty⟩
      rw [QueueMgr.destroyAll, hdestroy]
      exact hall

/-- **Balanced books keep the promise.** -/
theorem Settled.contract (hs : Settled h) : Contract d h where
  create c a ha hallowed := by
    obtain ⟨status, hcreate⟩ | ⟨r, t, hcreate, hadded⟩ :=
      createQueue_spec hs.doorbells (fun x hx => hs.vacant hx) ha hallowed
    · exact ⟨_, _, hcreate, rfl, rfl⟩
    · have hring := (hs.added ha hadded).ring r.queueId _ (Function.update_self ..)
      exact ⟨_, _, hcreate, hring⟩
  ring := hs.ring
  destroy x err hlive herr := by
    obtain ⟨q, hq, ⟨-, hdestroy⟩ | ⟨-, hdestroy⟩⟩ := hs.destroyQueue_spec hlive herr
    · exact ⟨_, _, hdestroy, nofun, fun _ => rfl⟩
    · exact ⟨_, _, hdestroy, fun _ => hs.released hq, fun hne => absurd rfl hne⟩
  destroyAll xs hnodup hlive := hs.destroyAll hnodup hlive

/-- **Every run of allowed calls keeps the promise.** -/
theorem contract_of_run {ops : List Op}
    (hrun : Run (Guarded (Op.Allowed d) (Step d)) .start ops h) : Contract d h := by
  have hsettled : Settled h :=
    hrun.inv (fun _ _ _ hs hstep => hs.step hstep.1 hstep.2) settled_start
  exact hsettled.contract

/-! ### One node -/

/-- A node with two compute units. -/
def oneNode : Device where
  nodes := [{ gpu_id := 1, device_id := 0xccdd, numFComputeCores := 8, numSIMDPerCU := 4 }]
  is_dgpu := false

/-- A call for a compute queue. -/
def computeCall : CreateCall where
  nodeId := 0
  type := .compute
  queuePercentage := 100
  priority := 0
  queueAddress := 0x20000
  queueSizeInBytes := 4096
  queueRptrValue := 0x30000
  queueWptrValue := 0x30008

/-- Everything that is asked for is given. -/
def allGiven : Answers where
  queueMemory := some 0x1000
  eopMemory := some 0x2000
  ctxMemory := some 0x3000
  create := { err := 0, queue_id := 0, doorbell_offset := 2 ^ 40 + 16 }
  doorbell := none
  mapToGpu := false
  mmap := { start := 0x10000, made := true }
  destroyErr := 0

theorem contract_of_run_one :
    ∃ h, History.step oneNode .start (.create computeCall allGiven) = some h ∧
      h.live 0x1000 = some ⟨0, 2 ^ 40 + 16, 0x10010⟩ ∧ Contract oneNode h := by
  have honest : Honest start allGiven := by
    constructor
    case queue =>
      rintro x ⟨⟩
      exact ⟨by decide, fun n => Finset.notMem_empty _⟩
    case eop =>
      rintro x ⟨⟩
      exact ⟨⟨by decide, fun n => Finset.notMem_empty _⟩, by decide⟩
    case ctx =>
      rintro x ⟨⟩
      exact ⟨⟨by decide, fun n => Finset.notMem_empty _⟩, by decide, by decide⟩
    case queue_id => exact fun _ => rfl
    case offset => decide
    case mmap => decide
  have hallowed : CreateAllowed oneNode start computeCall allGiven := by
    intro node _ hnode _
    cases hnode
    refine ⟨rfl, by decide, fun _ => ⟨.inl rfl, fun _ => ?_⟩⟩
    rw [RingAllowed, if_pos (show (start.doorbells computeCall.nodeId).size = 0 from rfl)]
    exact ⟨⟨_, rfl, by decide⟩, .inr rfl⟩
  have hrun : Run (Guarded (Op.Allowed oneNode) (Step oneNode)) .start
      [.create computeCall allGiven] _ := .cons ⟨hallowed, honest, rfl⟩ (.nil _)
  exact ⟨_, rfl, rfl, contract_of_run hrun⟩

/-- A queue of a type that is not supported fails and leaves its `struct queue` allocated; if the
doorbells cannot be mapped, the first queue of the driver is left; and a first queue whose offset is
not in the first slice gets the doorbells of another one. -/
theorem sdma_queue_memory_left :
    (createQueue oneNode start { computeCall with type := .sdma } allGiven).map
        (fun (result, s) => (result, s.memory)) =
      some (.error .invalidParameter, {(0x1000, sizeofQueue)}) ∧
    (createQueue oneNode start computeCall
        { allGiven with mmap := { start := mapFailed, made := false } }).map
        (fun (result, s) => (result, (s.driver 0).isSome)) = some (.error .error, true) ∧
    (createQueue oneNode start computeCall
        { allGiven with create := { err := 0, queue_id := 0, doorbell_offset := 0x2010 } }).map
        (fun (result, s) => (result, (s.doorbells 0).size, s.mapped 0)) =
      some (.ok { queueId := 0x1000, queue_DoorBell := 0x12010 }, 0x2000, some 0) :=
  ⟨rfl, rfl, rfl⟩

end Codrive.QueueMgr
