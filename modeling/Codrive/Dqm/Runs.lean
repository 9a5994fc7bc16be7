/-
# Runs of the device queue manager

Calls into `src/src/cmdio/linux/opu_device_queue_manager.c` for the queues of any number of
processes, in any order, one locked section after the other; and the writes of
`opu_process_queue_manager.c` to a queue's properties, which take no lock.  `Counted` says that
the counters are those of the queues listed.

Four calls drift: `evict_process_queues_cpsch` and `restore_process_queues_cpsch` do not count
the GWS queues that their siblings without the scheduler count; `update_queue` does not when the
activity of a GWS queue changes; `restore_process_queues_*` count a queue that is active already
a second time, which a process gets when it is evicted while `create_queue_nocpsch` has given
the lock up; and `destroy_queue_nocpsch` leaves the queue listed while the scheduler is stopped,
and its caller frees it.
-/

import Codrive.Basis.Run
import Codrive.Dqm.Counters

namespace Codrive.Dqm

open Codrive.Basis

/-- The device's queue manager and its processes. -/
structure State where
  dqm : Manager
  qpds : List Qpd := []
  /-- The queues of calls between their two locked sections, with the number of their process. -/
  creating : List (ℕ × Queue) := []

/-- What `set_queue_properties_from_user` sets of the queue at `ptr`. -/
structure CreateArgs where
  ptr : ℕ
  type : QueueType
  queue_id : ℕ := 0
  queue_address : ℕ := 0
  queue_size : ℕ := 0
  queue_percent : ℕ := 0
  priority : ℕ := 0

/-- `init_user_queue`: neither active nor a GWS queue. -/
def CreateArgs.initUserQueue (a : CreateArgs) : Queue :=
  { ptr := a.ptr
    properties := {
      type := a.type, queue_id := a.queue_id, queue_address := a.queue_address
      queue_size := a.queue_size, queue_percent := a.queue_percent, priority := a.priority } }

/-- A step; the first number is that of the process. -/
inductive Op where
  /-- A process opens the device. -/
  | openProcess (pasid : ℕ)
  /-- `register_process`. -/
  | register (i : ℕ)
  /-- `unregister_process`. -/
  | unregister (i : ℕ)
  /-- `create_queue`, to where it gives the lock up or takes it. -/
  | createBegin (i : ℕ) (args : CreateArgs) (out : Outcome)
  /-- The rest of `create_queue`. -/
  | createEnd (i : ℕ) (ptr : ℕ) (out : Outcome)
  /-- `destroy_queue`. -/
  | destroy (i : ℕ) (ptr : ℕ) (out : Outcome)
  /-- `pqm_update_queue`, to where it calls `update_queue`. -/
  | setProperties (i : ℕ) (ptr : ℕ) (queue_address queue_size queue_percent priority : ℕ)
  /-- `pqm_set_gws`, to where it calls `update_queue`. -/
  | setGws (i : ℕ) (ptr : ℕ) (gws : Bool)
  /-- `update_queue`. -/
  | update (i : ℕ) (ptr : ℕ) (out : Outcome)
  /-- `evict_process_queues`. -/
  | evict (i : ℕ) (out : Outcome)
  /-- `restore_process_queues`. -/
  | restore (i : ℕ) (out : Outcome)
  /-- `create_kernel_queue`. -/
  | createKernel (i : ℕ) (kq : KernelQueue) (fw : Fw)
  /-- `destroy_kernel_queue`. -/
  | destroyKernel (i : ℕ) (ptr : ℕ) (fw : Fw)
  /-- `start`. -/
  | start (fw : Fw)
  /-- `stop`. -/
  | stop (fw : Fw)
  /-- `pre_reset`. -/
  | preReset

/-- The queue of a process at an address. -/
def Qpd.find (qpd : Qpd) (ptr : ℕ) : Option Queue := qpd.queues_list.find? (·.ptr = ptr)

/-- A queue of a process changed in place. -/
def Qpd.modify (qpd : Qpd) (ptr : ℕ) (f : Queue → Queue) : Qpd :=
  { qpd with queues_list := updateFirst (·.ptr = ptr) f qpd.queues_list }

/-- A queue with the properties `pqm_update_queue` writes. -/
def Queue.setProperties (queue_address queue_size queue_percent priority : ℕ) (q : Queue) : Queue :=
  { q with properties := { q.properties with
    queue_address, queue_size, queue_percent, priority } }

/-- A call for a process changes the manager and that process. -/
def State.At (s : State) (i : ℕ) (f : Manager → Qpd → Manager × Qpd) (t : State) : Prop :=
  ∃ A qpd B, s.qpds = A ++ qpd :: B ∧ A.length = i ∧
    t = { s with dqm := (f s.dqm qpd).1, qpds := A ++ (f s.dqm qpd).2 :: B }

/-- `dqm->ops.create_queue`, the first part. -/
def createBegin (dev : Dev) (out : Outcome) (dqm : Manager) (qpd : Qpd) (q : Queue) :
    Except Errno Queue × Manager × Qpd :=
  if dqm.sched_policy = .noHws then createQueueNocpschBegin dev dqm qpd q
  else createQueueCpschBegin dev out dqm qpd q

/-- `dqm->ops.create_queue`, the second part. -/
def createEnd (dev : Dev) (active : MqdActive) (out : Outcome) (dqm : Manager) (qpd : Qpd)
    (q : Queue) : Option Errno × Manager × Qpd :=
  if dqm.sched_policy = .noHws then createQueueNocpschEnd dev active out dqm qpd q
  else createQueueCpschEnd active out dqm qpd q

/-- `dqm->ops.destroy_queue`. -/
def destroyQueue (dev : Dev) (out : Outcome) (dqm : Manager) (qpd : Qpd) (q : Queue) :
    Option Errno × Manager × Qpd :=
  if dqm.sched_policy = .noHws then destroyQueueNocpschLocked dev out dqm qpd q
  else destroyQueueCpsch dev out dqm qpd q

/-- `dqm->ops.evict_process_queues`. -/
def evictProcessQueues (out : Outcome) (dqm : Manager) (qpd : Qpd) : Option Errno × Manager × Qpd :=
  if dqm.sched_policy = .noHws then evictProcessQueuesNocpsch out dqm qpd
  else evictProcessQueuesCpsch out dqm qpd

/-- `dqm->ops.restore_process_queues`. -/
def restoreProcessQueues (out : Outcome) (dqm : Manager) (qpd : Qpd) :
    Option Errno × Manager × Qpd :=
  if dqm.sched_policy = .noHws then restoreProcessQueuesNocpsch out dqm qpd
  else restoreProcessQueuesCpsch out dqm qpd

/-- One step. -/
inductive State.Step (dev : Dev) (active : MqdActive) (s : State) : Op → State → Prop
  | openProcess (pasid : ℕ) :
      Step dev active s (.openProcess pasid) { s with qpds := s.qpds ++ [{ pasid }] }
  | register {i : ℕ} {t : State} :
      s.At i (fun dqm qpd => (registerProcess dqm qpd, qpd)) t →
      Step dev active s (.register i) t
  | unregister {i : ℕ} {t : State} :
      s.At i (fun dqm qpd => ((unregisterProcess dqm qpd).2, qpd)) t →
      Step dev active s (.unregister i) t
  | createBegin {i : ℕ} {args : CreateArgs} {out : Outcome} {A B : List Qpd} {qpd qpd' : Qpd}
      {dqm' : Manager} {q : Queue} :
      args.type.isUser = true → s.qpds = A ++ qpd :: B → A.length = i →
      createBegin dev out s.dqm qpd args.initUserQueue = (.ok q, dqm', qpd') →
      Step dev active s (.createBegin i args out)
        { dqm := dqm', qpds := A ++ qpd' :: B, creating := (i, q) :: s.creating }
  | createFails {i : ℕ} {args : CreateArgs} {out : Outcome} {A B : List Qpd} {qpd qpd' : Qpd}
      {dqm' : Manager} {e : Errno} :
      args.type.isUser = true → s.qpds = A ++ qpd :: B → A.length = i →
      createBegin dev out s.dqm qpd args.initUserQueue = (.error e, dqm', qpd') →
      Step dev active s (.createBegin i args out) { s with dqm := dqm', qpds := A ++ qpd' :: B }
  | createEnd {i ptr : ℕ} {out : Outcome} {q : Queue} {t : State} {C D : List (ℕ × Queue)} :
      s.creating = C ++ (i, q) :: D → q.ptr = ptr →
      State.At { s with creating := C ++ D } i
        (fun dqm qpd => (createEnd dev active out dqm qpd q).2) t →
      Step dev active s (.createEnd i ptr out) t
  | destroy {i ptr : ℕ} {out : Outcome} {A B : List Qpd} {qpd : Qpd} {q : Queue} :
      s.qpds = A ++ qpd :: B → A.length = i → qpd.find ptr = some q →
      Step dev active s (.destroy i ptr out)
        { s with
          dqm := (destroyQueue dev out s.dqm qpd q).2.1
          qpds := A ++ (destroyQueue dev out s.dqm qpd q).2.2 :: B }
  | setProperties {i ptr queue_address queue_size queue_percent priority : ℕ} {t : State} :
      s.At i (fun dqm qpd => (dqm, qpd.modify ptr
        (Queue.setProperties queue_address queue_size queue_percent priority))) t →
      Step dev active s
        (.setProperties i ptr queue_address queue_size queue_percent priority) t
  | setGws {i ptr : ℕ} {gws : Bool} {t : State} :
      s.At i (fun dqm qpd => (dqm, qpd.modify ptr fun q => { q with gws })) t →
      Step dev active s (.setGws i ptr gws) t
  | update {i ptr : ℕ} {out : Outcome} {A B : List Qpd} {qpd : Qpd} {q : Queue} :
      s.qpds = A ++ qpd :: B → A.length = i → qpd.find ptr = some q →
      Step dev active s (.update i ptr out)
        { s with
          dqm := (updateQueue active out s.dqm qpd q).2.1
          qpds := A ++ (updateQueue active out s.dqm qpd q).2.2 :: B }
  | evict {i : ℕ} {out : Outcome} {t : State} :
      s.At i (fun dqm qpd => (evictProcessQueues out dqm qpd).2) t →
      Step dev active s (.evict i out) t
  | restore {i : ℕ} {out : Outcome} {t : State} :
      s.At i (fun dqm qpd => (restoreProcessQueues out dqm qpd).2) t →
      Step dev active s (.restore i out) t
  | createKernel {i : ℕ} {kq : KernelQueue} {fw : Fw} {t : State} :
      s.dqm.sched_policy ≠ .noHws →
      s.At i (fun dqm qpd => (createKernelQueueCpsch dev fw dqm qpd kq).2) t →
      Step dev active s (.createKernel i kq fw) t
  | destroyKernel {i ptr : ℕ} {fw : Fw} {A B : List Qpd} {qpd : Qpd} {kq : KernelQueue} :
      s.dqm.sched_policy ≠ .noHws → s.qpds = A ++ qpd :: B → A.length = i →
      qpd.priv_queue_list.find? (fun x => decide (x.ptr = ptr)) = some kq →
      Step dev active s (.destroyKernel i ptr fw)
        { s with
          dqm := (destroyKernelQueueCpsch fw s.dqm qpd kq).1
          qpds := A ++ (destroyKernelQueueCpsch fw s.dqm qpd kq).2 :: B }
  | start (fw : Fw) :
      Step dev active s (.start fw)
        { s with
          dqm := if s.dqm.sched_policy = .noHws then startNocpsch dev s.dqm
            else startCpsch fw s.dqm }
  | stop (fw : Fw) :
      Step dev active s (.stop fw)
        { s with
          dqm := if s.dqm.sched_policy = .noHws then stopNocpsch s.dqm else stopCpsch fw s.dqm }
  | preReset : Step dev active s .preReset { s with dqm := preReset s.dqm }

/-- The manager as `device_queue_manager_init` makes it. -/
def State.init (dev : Dev) (sched_policy : SchedPolicy) : State :=
  { dqm := if sched_policy = .noHws then initializeNocpsch dev
      else initializeCpsch dev sched_policy }

/-- The steps that do not drift, read off the state they are taken in. -/
def State.StepOk (active : MqdActive) (s : State) : Op → Prop
  -- `destroy_queue_nocpsch` takes the queue off its list
  | .destroy _ _ _ => s.dqm.sched_policy = .noHws → s.dqm.sched_running = true
  -- the activity of a GWS queue stays, if the call gets to `update_mqd`
  | .update i ptr out => ∀ qpd, s.qpds[i]? = some qpd → ∀ q, qpd.find ptr = some q →
      (∃ dqm', prepareUpdate out s.dqm q = .ok dqm') → q.properties.is_gws = true →
        active q.properties = q.properties.is_active
  -- with the scheduler, no GWS queue is deactivated
  | .evict i _ => s.dqm.sched_policy ≠ .noHws → ∀ qpd, s.qpds[i]? = some qpd →
      qpd.evicted = 0 → ∀ q ∈ qpd.queues_list, q.properties.is_active = true →
        q.properties.is_gws = false
  -- no active queue is activated and, with the scheduler, no GWS queue
  | .restore i out => ∀ qpd, s.qpds[i]? = some qpd → qpd.evicted = 1 →
      (s.dqm.sched_policy = .noHws → out.mm = true) → ∀ q ∈ qpd.queues_list,
        (q.setEvicted false).properties.queueIsActive = true →
          q.properties.is_active = false ∧
            (s.dqm.sched_policy ≠ .noHws → q.properties.is_gws = false)
  | _ => True

/-- The queues listed. -/
def State.listed (s : State) : List Queue := s.qpds.flatMap Qpd.queues_list

/-- The kernel queues. -/
def State.kernelQueues (s : State) : List KernelQueue := s.qpds.flatMap Qpd.priv_queue_list

/-- **The counters are those of the queues listed.** -/
structure State.Counted (s : State) : Prop where
  queue_count : ∀ qpd ∈ s.qpds, qpd.queue_count = qpd.queues_list.length
  active_queue_count : s.dqm.active_queue_count =
    s.listed.countP (·.properties.is_active) + s.kernelQueues.length
  active_cp_queue_count : s.dqm.active_cp_queue_count =
    s.listed.countP (fun q => q.properties.is_active && q.properties.type.isCp) +
      s.kernelQueues.countP (·.type.isCp)
  gws_queue_count : s.dqm.gws_queue_count =
    s.listed.countP fun q => q.properties.is_active && q.properties.is_gws

/-! ### What evictions leave alone -/

section Views

variable {out : Outcome} {dqm : Manager} {qpd : Qpd} {α β : Type*} {g : Manager → α}
  {f : Queue → β}
  (hg : ∀ dqm a b c d e, g { dqm with
    active_queue_count := a, active_cp_queue_count := b, gws_queue_count := c
    active_runlist := d, is_hws_hang := e } = g dqm)
  (hf : ∀ q a b, f { q with
    properties := { q.properties with is_active := a, is_evicted := b } } = f q)

include hg hf

/-- What reads neither the run list nor what a queue is counted in stays (`hg`), and so does what a
queue is beside its activity (`hf`). -/
theorem view_evictProcessQueues : g (evictProcessQueues out dqm qpd).2.1 = g dqm ∧
    ∃ e l m, (evictProcessQueues out dqm qpd).2.2 =
      { qpd with evicted := e, queues_list := l, mapped_gws_queue := m } ∧
        l.map f = qpd.queues_list.map f := by
  have hno : ∀ (s : LoopState) q, g (evictQueueNocpsch out s q).1.dqm = g s.dqm ∧
      f (evictQueueNocpsch out s q).2 = f q := fun s q => by
    unfold evictQueueNocpsch
    dsimp only
    split_ifs <;> exact ⟨hg s.dqm .., hf q ..⟩
  have hcp : ∀ dqm q, g (evictQueueCpsch dqm q).1 = g dqm ∧ f (evictQueueCpsch dqm q).2 = f q :=
    fun dqm q => by
      unfold evictQueueCpsch
      dsimp only
      split_ifs <;> exact ⟨hg dqm .., hf q ..⟩
  unfold evictProcessQueues evictProcessQueuesNocpsch evictProcessQueuesCpsch
  dsimp only
  split_ifs
  · exact ⟨rfl, _, _, _, rfl, rfl⟩
  · exact ⟨forEach_inv (P := fun s : LoopState => g s.dqm = g dqm)
      (fun s q => (hno s q).1.trans) rfl _, _, _, _, rfl, map_forEach (fun s q => (hno s q).2) ..⟩
  · exact ⟨rfl, _, _, _, rfl, rfl⟩
  · exact ⟨(view_executeQueuesCpsch fun dqm _ _ => hg dqm ..).trans
      (forEach_inv (P := fun dqm' => g dqm' = g dqm) (fun dqm q => (hcp dqm q).1.trans) rfl _),
      _, _, _, rfl, map_forEach (fun dqm q => (hcp dqm q).2) ..⟩

theorem view_restoreProcessQueues : g (restoreProcessQueues out dqm qpd).2.1 = g dqm ∧
    ∃ e l m, (restoreProcessQueues out dqm qpd).2.2 =
      { qpd with evicted := e, queues_list := l, mapped_gws_queue := m } ∧
        l.map f = qpd.queues_list.map f := by
  have hno : ∀ (s : LoopState) q, g (restoreQueueNocpsch out s q).1.dqm = g s.dqm ∧
      f (restoreQueueNocpsch out s q).2 = f q := fun s q => by
    unfold restoreQueueNocpsch
    dsimp only
    split_ifs <;> exact ⟨hg s.dqm .., hf q ..⟩
  have hcp : ∀ dqm q, g (restoreQueueCpsch dqm q).1 = g dqm ∧ f (restoreQueueCpsch dqm q).2 = f q :=
    fun dqm q => by
      unfold restoreQueueCpsch
      dsimp only
      split_ifs <;> exact ⟨hg dqm .., hf q ..⟩
  unfold restoreProcessQueues restoreProcessQueuesNocpsch restoreProcessQueuesCpsch
  dsimp only
  split_ifs
  iterate 3 exact ⟨rfl, _, _, _, rfl, rfl⟩
  · exact ⟨forEach_inv (P := fun s : LoopState => g s.dqm = g dqm)
      (fun s q => (hno s q).1.trans) rfl _, _, _, _, rfl, map_forEach (fun s q => (hno s q).2) ..⟩
  iterate 2 exact ⟨rfl, _, _, _, rfl, rfl⟩
  · exact ⟨(view_executeQueuesCpsch fun dqm _ _ => hg dqm ..).trans
      (forEach_inv (P := fun dqm' => g dqm' = g dqm) (fun dqm q => (hcp dqm q).1.trans) rfl _),
      _, _, _, rfl, map_forEach (fun dqm q => (hcp dqm q).2) ..⟩

end Views

section Inv

variable {dev : Dev} {active : MqdActive} {s t : State} {A B : List Qpd} {qpd qpd' : Qpd}
  {dqm' : Manager}

/-- The invariant: the counters are the sum of what the processes' queues add. -/
structure State.Inv (s : State) : Prop where
  counters : s.dqm.counters = (s.qpds.map Qpd.load).sum
  count : ∀ qpd ∈ s.qpds, qpd.queue_count = qpd.queues_list.length
  /-- A queue under creation is no GWS queue. -/
  creating : ∀ c ∈ s.creating, c.2.properties.is_gws = false

/-- **A booked change of one process keeps the invariant.** -/
theorem State.Inv.booked (hi : s.Inv) (hs : s.qpds = A ++ qpd :: B)
    (hb : Booked s.dqm qpd dqm' qpd') {creating : List (ℕ × Queue)}
    (hc : ∀ c ∈ creating, c.2.properties.is_gws = false) :
    State.Inv { dqm := dqm', qpds := A ++ qpd' :: B, creating } := by
  have h := hi.counters
  have hn := hi.count
  rw [hs] at h hn
  simp only [List.map_append, List.map_cons, List.sum_append, List.sum_cons] at h
  simp only [List.forall_mem_append, List.forall_mem_cons] at hn
  refine ⟨?_, ?_, hc⟩
  · simp only [List.map_append, List.map_cons, List.sum_append, List.sum_cons]
    linear_combination hb.counters + h
  · simp only [List.forall_mem_append, List.forall_mem_cons]
    have := hb.count
    exact ⟨hn.1, by omega, hn.2.2⟩

/-- So does a step for one process whose change is booked. -/
theorem State.Inv.at (hi : s.Inv) {i : ℕ} {f : Manager → Qpd → Manager × Qpd} (h : s.At i f t)
    (hf : ∀ qpd, s.qpds[i]? = some qpd → Booked s.dqm qpd (f s.dqm qpd).1 (f s.dqm qpd).2) :
    t.Inv := by
  obtain ⟨A, qpd, B, hs, rfl, rfl⟩ := h
  exact hi.booked hs (hf qpd (by simp [hs])) hi.creating

/-- A change of the manager alone that leaves the counters. -/
theorem State.Inv.manager (hi : s.Inv) (h : dqm'.counters = s.dqm.counters) :
    State.Inv { s with dqm := dqm' } :=
  ⟨h.trans hi.counters, hi.count, hi.creating⟩

/-- A change of a queue that does not change what it adds to the counters. -/
theorem modify_booked {dqm : Manager} {ptr : ℕ} {f : Queue → Queue}
    (hf : ∀ q, (f q).load = q.load) :
    Booked dqm qpd dqm (qpd.modify ptr f) := by
  have hlen : (qpd.modify ptr f).queues_list.length = qpd.queues_list.length := by
    have h := map_updateFirst (p := fun x => decide (x.ptr = ptr)) hf qpd.queues_list
    simpa [Qpd.modify] using congrArg List.length h
  constructor
  · simp only [Qpd.load, Qpd.modify, map_updateFirst hf]
  · rw [hlen]
    rfl

/-- The first part of a creation lists nothing, and its queue does not own GWS. -/
theorem createBegin_booked {out : Outcome} {dqm : Manager} {q : Queue} {x : Except Errno Queue}
    (h : createBegin dev out dqm qpd q = (x, dqm', qpd')) :
    Booked dqm qpd dqm' qpd' ∧
      ∀ q', x = .ok q' → q'.properties.is_gws = q.properties.is_gws := by
  unfold createBegin at h
  split at h
  · have hb := @createQueueNocpschBegin_booked dev dqm qpd q
    rwa [h] at hb
  · have hb := @createQueueCpschBegin_booked dev out dqm qpd q
    rwa [h] at hb

/-- **A step that does not drift keeps the invariant.** -/
theorem State.Inv.step {op : Op} (hi : s.Inv) (hok : s.StepOk active op)
    (hs : s.Step dev active op t) : t.Inv := by
  cases hs with
  | openProcess pasid =>
    refine ⟨?_, ?_, hi.creating⟩
    · simpa [Qpd.load] using hi.counters
    · simp only [List.forall_mem_append]
      exact ⟨hi.count, by simp⟩
  | register h => exact hi.at h fun qpd _ => .of_eq rfl rfl rfl rfl
  | unregister h =>
    refine hi.at h fun qpd _ => ?_
    unfold unregisterProcess
    split <;> exact .of_eq rfl rfl rfl rfl
  | @createBegin i args out A B qpd qpd' dqm' q _ hs _ h =>
    obtain ⟨hb, hg⟩ := createBegin_booked h
    exact hi.booked hs hb (List.forall_mem_cons.2 ⟨hg q rfl, hi.creating⟩)
  | @createFails i args out A B qpd qpd' dqm' e _ hs _ h =>
    exact hi.booked hs (createBegin_booked h).1 hi.creating
  | createEnd hc _ h =>
    have hcr := hi.creating
    rw [hc] at hcr
    simp only [List.forall_mem_append, List.forall_mem_cons] at hcr
    have hi' : State.Inv { s with creating := _ ++ _ } :=
      ⟨hi.counters, hi.count, List.forall_mem_append.2 ⟨hcr.1, hcr.2.2⟩⟩
    refine hi'.at h fun qpd _ => ?_
    unfold createEnd
    split
    · exact createQueueNocpschEnd_booked hcr.2.1
    · exact createQueueCpschEnd_booked hcr.2.1
  | destroy hs _ hq =>
    refine hi.booked hs ?_ hi.creating
    have hptr := List.find?_some hq
    simp only [decide_eq_true_eq] at hptr
    subst hptr
    unfold destroyQueue
    split
    · exact destroyQueueNocpschLocked_booked hq
    · exact destroyQueueCpsch_booked hq
  | setProperties h => exact hi.at h fun qpd _ => modify_booked fun q => rfl
  | setGws h => exact hi.at h fun qpd _ => modify_booked fun q => rfl
  | @update i ptr out A B qpd q hs hA hq =>
    refine hi.booked hs ?_ hi.creating
    have hptr := List.find?_some hq
    simp only [decide_eq_true_eq] at hptr
    subst hptr
    exact updateQueue_booked hq fun dqm' hp =>
      hok qpd (by simp [hs, ← hA]) q hq ⟨dqm', hp⟩
  | evict h =>
    refine hi.at h fun qpd hqpd => ?_
    unfold evictProcessQueues
    split
    · exact evictProcessQueuesNocpsch_booked
    · exact evictProcessQueuesCpsch_booked (hok (by assumption) qpd hqpd)
  | restore h =>
    refine hi.at h fun qpd hqpd => ?_
    unfold restoreProcessQueues
    split
    · exact restoreProcessQueuesNocpsch_booked fun he hm q hq ha =>
        (hok qpd hqpd he (fun _ => hm) q hq ha).1
    · rename_i hp
      refine restoreProcessQueuesCpsch_booked fun he q hq ha => ?_
      have := hok qpd hqpd he (fun h => absurd h hp) q hq ha
      exact ⟨this.1, this.2 hp⟩
  | createKernel _ h => exact hi.at h fun qpd _ => createKernelQueueCpsch_booked
  | destroyKernel _ hs _ hk =>
    refine hi.booked hs ?_ hi.creating
    have hptr := List.find?_some hk
    simp only [decide_eq_true_eq] at hptr
    subst hptr
    exact destroyKernelQueueCpsch_booked hk
  | start fw =>
    refine hi.manager ?_
    split
    · unfold startNocpsch
      split <;> rfl
    · exact counters_executeQueuesCpsch
  | stop fw =>
    refine hi.manager ?_
    split
    · rfl
    · unfold stopCpsch
      dsimp only
      split
      · exact counters_unmapQueuesCpsch
      · rfl
  | preReset => exact hi.manager rfl

end Inv

section Counted

variable {dev : Dev} {active : MqdActive} {sched_policy : SchedPolicy} {s : State} {ops : List Op}

theorem sum_load (l : List Queue) : (l.map Queue.load).sum =
    ((l.countP (·.properties.is_active) : ℤ),
      (l.countP (fun q => q.properties.is_active && q.properties.type.isCp) : ℤ),
      (l.countP (fun q => q.properties.is_active && q.properties.is_gws) : ℤ)) := by
  induction l with
  | nil => rfl
  | cons q l ih =>
    rw [List.map_cons, List.sum_cons, ih]
    cases ha : q.properties.is_active <;> cases hc : q.properties.type.isCp <;>
      cases hg : q.properties.is_gws <;> simp [Queue.load, one, ha, hc, hg, add_comm]

theorem sum_load_kernel (l : List KernelQueue) : (l.map KernelQueue.load).sum =
    ((l.length : ℤ), (l.countP (·.type.isCp) : ℤ), 0) := by
  induction l with
  | nil => rfl
  | cons kq l ih =>
    rw [List.map_cons, List.sum_cons, ih]
    cases hc : kq.type.isCp <;> simp [KernelQueue.load, one, hc, add_comm]

theorem sum_load_qpds (l : List Qpd) : (l.map Qpd.load).sum =
    ((l.flatMap Qpd.queues_list).map Queue.load).sum +
      ((l.flatMap Qpd.priv_queue_list).map KernelQueue.load).sum := by
  induction l with
  | nil => rfl
  | cons qpd l ih =>
    simp only [List.map_cons, List.sum_cons, List.flatMap_cons, List.map_append, List.sum_append,
      ih, Qpd.load]
    abel

/-- The invariant counts the queues. -/
theorem State.Inv.counted (hi : s.Inv) : s.Counted := by
  have h := hi.counters
  rw [sum_load_qpds, sum_load, sum_load_kernel] at h
  simp only [Manager.counters, Prod.mk_add_mk, Prod.mk.injEq, add_zero] at h
  exact ⟨hi.count, h.1, h.2.1, h.2.2⟩

/-- The manager starts with the invariant. -/
theorem State.inv_init : (State.init dev sched_policy).Inv := by
  refine ⟨?_, by simp [State.init], by simp [State.init]⟩
  unfold State.init
  dsimp only
  split <;> rfl

/-- A device without sub-allocated doorbells, and a compute queue. -/
def CreateArgs.sample : CreateArgs :=
  { ptr := 7, type := .compute, queue_address := 4096, queue_size := 4096, queue_percent := 100 }

end Counted

end Codrive.Dqm
