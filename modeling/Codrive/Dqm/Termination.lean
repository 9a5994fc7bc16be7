/-
# Terminating a process

`process_termination_nocpsch` and `process_termination_cpsch` of
`src/src/cmdio/linux/opu_device_queue_manager.c`: all queues of a process are destroyed, whatever
their state, and the process is unregistered.  Without the scheduler a loop destroys the first
queue until there is none, and may never end; with it, two passes over the list.

Both give the lock up to free an MQD.  Meanwhile the caller holds the process's mutex, so that no
other call changes this process, and the call is one function here.
-/

import Codrive.Dqm.Counters

namespace Codrive.Dqm

open Codrive.Basis

/-- What `process_termination` leaves. -/
structure Terminated where
  retval : Option Errno
  dqm : Manager
  qpd : Qpd
  /-- The queues whose MQDs it freed, in order. -/
  freed : List Queue := []

/-- The loop of `process_termination_nocpsch`, of at most `fuel` rounds. -/
def clearQueuesNocpsch (dev : Dev) (out : Outcome) : ℕ → Terminated → Option Terminated
  | 0, _ => none
  | fuel + 1, t =>
    match t.qpd.queues_list with
    | [] => some t
    | q :: _ =>
      let (ret, dqm, qpd) := destroyQueueNocpschLocked dev out t.dqm t.qpd q
      clearQueuesNocpsch dev out fuel ⟨ret.or t.retval, dqm, qpd, t.freed ++ [q]⟩

/-- `process_termination_nocpsch`. -/
def processTerminationNocpsch (dev : Dev) (out : Outcome) (fuel : ℕ) (dqm : Manager) (qpd : Qpd) :
    Option Terminated :=
  (clearQueuesNocpsch dev out fuel ⟨none, dqm, qpd, []⟩).map fun t =>
    { t with dqm := (unregisterProcess t.dqm t.qpd).2 }

/-- "Clean all kernel queues", the body of the loop. -/
def dropKernelQueue (dqm : Manager) (kq : KernelQueue) : Manager :=
  let dqm := decrementQueueCount dqm kq.type
  { dqm with total_queue_count := dqm.total_queue_count - 1 }

/-- "Clear all user mode queues", the body of the loop of `process_termination_cpsch`. -/
def dropUserQueue (dev : Dev) (s : Manager × Qpd) (q : Queue) : Manager × Qpd :=
  let (dqm, qpd) := dropActive (deallocateSdmaQueue dev s.1 q) s.2 q
  ({ dqm with total_queue_count := dqm.total_queue_count - 1 }, qpd)

/-- "Lastly, free mqd resources", the body of the loop: the first queue is unlisted, and its MQD
freed. -/
def freeFirstMqd (s : Qpd × List Queue) (q : Queue) : Qpd × List Queue :=
  ({ s.1 with queues_list := s.1.queues_list.tail, queue_count := s.1.queue_count - 1 },
    s.2 ++ [q])

/-- `process_termination_cpsch`. -/
def processTerminationCpsch (dev : Dev) (fw : Fw) (dqm : Manager) (qpd : Qpd) : Terminated :=
  let dqm := qpd.priv_queue_list.foldl dropKernelQueue dqm
  let qpd := { qpd with
    priv_queue_list := [], is_debug := qpd.is_debug && qpd.priv_queue_list.isEmpty }
  let (dqm, qpd) := qpd.queues_list.foldl (dropUserQueue dev) (dqm, qpd)
  let (retval, dqm) := executeQueuesCpsch fw (unregisterProcess dqm qpd).2
  let reset_wavefronts :=
    qpd.reset_wavefronts && (dqm.is_hws_hang || !(retval.isSome || qpd.reset_wavefronts))
  let (qpd, freed) := qpd.queues_list.foldl freeFirstMqd ({ qpd with reset_wavefronts }, [])
  ⟨retval, dqm, qpd, freed⟩

/-- `dqm->ops.process_termination`. -/
def processTermination (dev : Dev) (out : Outcome) (fuel : ℕ) (dqm : Manager) (qpd : Qpd) :
    Option Terminated :=
  if dqm.sched_policy = .noHws then processTerminationNocpsch dev out fuel dqm qpd
  else some (processTerminationCpsch dev out.fw dqm qpd)

section

variable {dev : Dev} {out : Outcome} {dqm : Manager} {qpd : Qpd} {q : Queue} {l : List Queue}

/-- The slots are given back by a manager that runs on as before. -/
theorem sched_running_deallocateSlot :
    (deallocateSlot dev dqm q).sched_running = dqm.sched_running := by
  obtain ⟨_, _, _, h⟩ := deallocateSlot_changes dev dqm q
  rw [h]

/-- **`destroy_queue_nocpsch_locked`, while the scheduler runs.** -/
theorem destroyQueueNocpschLocked_running (hr : dqm.sched_running = true)
    (hu : q.properties.type.isUser = true) :
    destroyQueueNocpschLocked dev out dqm qpd q =
      let dqm := deallocateSlot dev dqm q
      let (dqm, qpd) := unlistNocpsch (out.destroy_mqd q)
        { dqm with total_queue_count := dqm.total_queue_count - 1 } (deallocateDoorbell dev qpd q) q
      (out.destroy_mqd q, dropActive dqm { qpd with queue_count := qpd.queue_count - 1 } q) := by
  have hrun := (@sched_running_deallocateSlot dev dqm q).trans hr
  unfold destroyQueueNocpschLocked
  simp only [hu, hrun, Bool.not_true, Bool.false_eq_true, if_false]

/-- **`destroy_queue_nocpsch_locked`, while the scheduler is stopped**: the queue stays listed. -/
theorem destroyQueueNocpschLocked_stopped (hr : dqm.sched_running = false)
    (hu : q.properties.type.isUser = true) :
    destroyQueueNocpschLocked dev out dqm qpd q =
      let dqm := deallocateSlot dev dqm q
      (none, { dqm with total_queue_count := dqm.total_queue_count - 1 },
        deallocateDoorbell dev qpd q) := by
  have hrun := (@sched_running_deallocateSlot dev dqm q).trans hr
  unfold destroyQueueNocpschLocked
  simp only [hu, hrun, Bool.not_true, Bool.not_false, Bool.false_eq_true, if_false, if_true]

theorem sched_running_unlistNocpsch {r : Option Errno} :
    (unlistNocpsch r dqm qpd q).1.sched_running = dqm.sched_running := by
  unfold unlistNocpsch
  dsimp only
  split <;> rfl

theorem sched_running_dropActive :
    (dropActive dqm qpd q).1.sched_running = dqm.sched_running := by
  unfold dropActive
  dsimp only
  split
  · split <;> rfl
  · rfl

/-- The first queue is off the list, and the scheduler runs on. -/
theorem queues_list_destroyQueueNocpschLocked (hr : dqm.sched_running = true)
    (hu : q.properties.type.isUser = true) (hl : qpd.queues_list = q :: l) :
    (destroyQueueNocpschLocked dev out dqm qpd q).2.2.queues_list = l ∧
      (destroyQueueNocpschLocked dev out dqm qpd q).2.1.sched_running = true := by
  rw [destroyQueueNocpschLocked_running hr hu]
  dsimp only
  constructor
  · rw [dropActive_frame.2.2.1]
    show (unlistNocpsch _ _ _ q).2.queues_list = l
    rw [(unlistNocpsch_frame _).2.2.1]
    simp [Qpd.listDel, hl]
  · rw [sched_running_dropActive, sched_running_unlistNocpsch]
    exact sched_running_deallocateSlot.trans hr

end

end Codrive.Dqm
