/-
# What a call leaves on a device

`Pdd.onDevice` are the queues of the process on a device, by address, and `Pdd.Registered` says
that the process is registered there once if it has any.  For each thing a call does to the device:
which of the two it changes.  A creation that fails changes neither, whichever of its steps failed,
as it unregisters the process exactly if it leaves it without queues.
-/

import Codrive.Dqm.Lists
import Codrive.Pqm.Manager

namespace Codrive.Pqm

open Codrive.Basis Codrive.Dqm

/-- The queues of a device with one more. -/
def NodeQueue.addTo (l : List ℕ × List KernelQueue) : NodeQueue → List ℕ × List KernelQueue
  | .user ptr => (ptr :: l.1, l.2)
  | .kernel kq => (l.1, kq :: l.2)

/-- The queues of a device without one. -/
def NodeQueue.dropFrom (l : List ℕ × List KernelQueue) : NodeQueue → List ℕ × List KernelQueue
  | .user ptr => (l.1.erase ptr, l.2)
  | .kernel kq => (l.1, l.2.eraseP (·.ptr = kq.ptr))

/-- What the node of a new queue points to. -/
def nodeQueue (args : CreateArgs) : NodeQueue :=
  if args.type = .diq then .kernel ⟨args.ptr, .diq⟩ else .user args.ptr

namespace Pdd

/-- The queues of the process on the device. -/
def onDevice (pdd : Pdd) : List ℕ × List KernelQueue :=
  (pdd.qpd.queues_list.map Queue.ptr, pdd.qpd.priv_queue_list)

/-- Registered once with queues, and not at all without. -/
def Registered (pdd : Pdd) : Prop := pdd.registrations = if pdd.listsEmpty then 0 else 1

variable {pdd pdd' : Pdd} {active : MqdActive} {out : Outcome} {mem : Memory} {args : CreateArgs}
variable {q : Queue} {memory : Bool}

theorem listsEmpty_iff : pdd.listsEmpty = true ↔ pdd.onDevice = ([], []) := by
  simp [listsEmpty, onDevice]

theorem listsEmpty_congr (h : pdd'.onDevice = pdd.onDevice) :
    pdd'.listsEmpty = pdd.listsEmpty := by
  rw [Bool.eq_iff_iff, listsEmpty_iff, listsEmpty_iff, h]

theorem alike_iff :
    pdd.Alike pdd' ↔ pdd'.onDevice = pdd.onDevice ∧ pdd'.registrations = pdd.registrations :=
  ⟨fun h => ⟨Prod.ext h.queues_list h.priv_queue_list, h.registrations⟩,
    fun h => ⟨congrArg Prod.fst h.1, congrArg Prod.snd h.1, h.2⟩⟩

theorem Registered.of_alike (hr : pdd.Registered) (h : pdd.Alike pdd') : pdd'.Registered := by
  obtain ⟨hon, hreg⟩ := alike_iff.1 h
  unfold Registered
  rw [hreg, listsEmpty_congr hon]
  exact hr

/-- The queues on a device after a change of its lists. -/
theorem onDevice_of_lists {qpd' : Qpd} {l : List ℕ} {k : List KernelQueue} {dqm' : Manager}
    (h : qpd'.lists = (l, k, pdd.qpd.pasid)) :
    onDevice { pdd with dqm := dqm', qpd := qpd' } = (l, k) := by
  have hl := congrArg Prod.fst h
  have hk := congrArg (fun x => x.2.1) h
  exact Prod.ext hl hk

/-- The registrations are not changed by what leaves the processes of the manager. -/
theorem registrations_of_lists {qpd' : Qpd} {l : List ℕ} {k : List KernelQueue} {dqm' : Manager}
    (h : qpd'.lists = (l, k, pdd.qpd.pasid)) (hdqm : dqm'.queues = pdd.dqm.queues) :
    registrations { pdd with dqm := dqm', qpd := qpd' } = pdd.registrations := by
  have hpasid : qpd'.pasid = pdd.qpd.pasid := congrArg (fun x => x.2.2) h
  unfold registrations
  rw [hdqm, hpasid]

/-! ### The registration -/

theorem onDevice_registerIfEmpty : (pdd.registerIfEmpty memory).onDevice = pdd.onDevice := by
  unfold registerIfEmpty
  split <;> rfl

theorem onDevice_unregisterIfEmpty : pdd.unregisterIfEmpty.onDevice = pdd.onDevice := by
  unfold unregisterIfEmpty
  split <;> rfl

theorem registrations_registerIfEmpty : (pdd.registerIfEmpty memory).registrations =
    pdd.registrations + if pdd.listsEmpty && memory then 1 else 0 := by
  unfold registerIfEmpty
  split
  · exact List.count_cons_self
  · rfl

theorem registrations_unregisterIfEmpty : pdd.unregisterIfEmpty.registrations =
    pdd.registrations - if pdd.listsEmpty then 1 else 0 := by
  unfold unregisterIfEmpty
  split
  · unfold unregisterProcess
    split
    · exact List.count_erase_self
    · rename_i hnot
      have hzero : pdd.registrations = 0 := List.count_eq_zero.2 hnot
      exact hzero.trans (by rw [hzero])
  · rfl

/-- Where the process was registered at most once, unregistering it if it has no queue leaves it
registered as it should be. -/
theorem registered_unregisterIfEmpty
    (h : if pdd.listsEmpty then pdd.registrations ≤ 1 else pdd.registrations = 1) :
    pdd.unregisterIfEmpty.Registered := by
  unfold Registered
  rw [registrations_unregisterIfEmpty, listsEmpty_congr onDevice_unregisterIfEmpty]
  split at h
  · rename_i he
    rw [if_pos he, if_pos he]
    omega
  · rename_i he
    rw [if_neg he, if_neg he, h]

/-- **What a creation that fails leaves**: the process is registered for it and unregistered again,
or neither. -/
theorem alike_unregisterIfEmpty (hr : pdd.Registered) (hon : pdd'.onDevice = pdd.onDevice)
    (hreg : pdd'.registrations = (pdd.registerIfEmpty memory).registrations) :
    pdd.Alike pdd'.unregisterIfEmpty := by
  refine alike_iff.2 ⟨onDevice_unregisterIfEmpty.trans hon, ?_⟩
  rw [registrations_unregisterIfEmpty, hreg, registrations_registerIfEmpty, listsEmpty_congr hon]
  unfold Registered at hr
  cases he : pdd.listsEmpty with
  | true =>
    rw [he, if_pos rfl] at hr
    cases memory <;> simp [hr]
  | false => simp

/-- **What a creation that goes through leaves**, if there was memory to register the process. -/
theorem registered_of_addTo {queue : NodeQueue} (hr : pdd.Registered)
    (hon : pdd'.onDevice = queue.addTo pdd.onDevice)
    (hreg : pdd'.registrations = (pdd.registerIfEmpty memory).registrations)
    (hmemory : pdd.listsEmpty = true → memory = true) : pdd'.Registered := by
  have hne : ¬pdd'.listsEmpty = true := by
    rw [listsEmpty_iff, hon]
    cases queue <;> simp [NodeQueue.addTo]
  unfold Registered at hr ⊢
  rw [if_neg hne, hreg, registrations_registerIfEmpty, hr]
  cases he : pdd.listsEmpty with
  | true => simp [hmemory he]
  | false => simp

/-! ### Creating a queue -/

theorem createQueue_spec : (pdd.createQueue active out q).2.registrations = pdd.registrations ∧
    (pdd.createQueue active out q).2.onDevice =
      if (pdd.createQueue active out q).1 = none
        then (q.ptr :: pdd.onDevice.1, pdd.onDevice.2) else pdd.onDevice := by
  obtain ⟨hbegin, hptr⟩ := @lists_createBegin pdd.dev out pdd.dqm pdd.qpd q
  have hqueues := @queues_createBegin pdd.dev out pdd.dqm pdd.qpd q
  unfold createQueue
  split
  · rename_i heq
    rw [heq] at hbegin hqueues
    exact ⟨registrations_of_lists hbegin hqueues, onDevice_of_lists hbegin⟩
  · rename_i q' dqm qpd heq
    rw [heq] at hbegin hqueues hptr
    have hend := @lists_createEnd pdd.dev active out dqm qpd q'
    rw [hbegin, hptr q' rfl] at hend
    have hqueues' := (@queues_createEnd pdd.dev out dqm qpd q' active).trans hqueues
    dsimp only at hend ⊢
    split at hend
    · rename_i hnone
      rw [if_pos hnone]
      exact ⟨registrations_of_lists hend hqueues', onDevice_of_lists hend⟩
    · rename_i hsome
      rw [if_neg hsome]
      exact ⟨registrations_of_lists hend hqueues', onDevice_of_lists hend⟩

theorem createKernelQueue_spec {dqm' : Manager} {qpd' : Qpd} {kq : KernelQueue} {fw : Fw}
    {retval : Option Errno}
    (h : createKernelQueueCpsch pdd.dev fw pdd.dqm pdd.qpd kq = (retval, dqm', qpd')) :
    dqm'.queues = pdd.dqm.queues ∧ qpd'.lists =
      if retval = none then (pdd.onDevice.1, kq :: pdd.onDevice.2, pdd.qpd.pasid)
      else pdd.qpd.lists := by
  unfold createKernelQueueCpsch at h
  split at h
  · cases h
    exact ⟨rfl, rfl⟩
  · cases h
    exact ⟨queues_executeQueuesCpsch, rfl⟩

/-- **The `switch` of `pqm_create_queue`** puts the queue on a list of the device, or leaves the
lists. -/
theorem createByType_spec {retval : Option Errno}
    (h : pdd.createByType active out mem args = (retval, pdd')) :
    pdd'.registrations = pdd.registrations ∧
      pdd'.onDevice =
        if retval = none then (nodeQueue args).addTo pdd.onDevice else pdd.onDevice := by
  have huser (hne : args.type ≠ .diq)
      (h : pdd.createQueue active out args.initUserQueue = (retval, pdd')) :
      pdd'.registrations = pdd.registrations ∧ pdd'.onDevice =
        if retval = none then (nodeQueue args).addTo pdd.onDevice else pdd.onDevice := by
    have hspec := @createQueue_spec pdd active out args.initUserQueue
    rw [h] at hspec
    unfold nodeQueue
    rw [if_neg hne]
    exact hspec
  unfold createByType at h
  split at h
  · rename_i ht
    split at h
    · cases h
      exact ⟨rfl, rfl⟩
    · exact huser (by rw [ht]; decide) h
  · rename_i ht
    split at h
    · cases h
      exact ⟨rfl, rfl⟩
    · exact huser (by rw [ht]; decide) h
  · rename_i ht
    split at h
    · cases h
      exact ⟨rfl, rfl⟩
    split at h
    · cases h
      exact ⟨rfl, rfl⟩
    · exact huser (by rw [ht]; decide) h
  · rename_i ht
    split at h
    · cases h
      exact ⟨rfl, rfl⟩
    · obtain ⟨hqueues, hlists⟩ := @createKernelQueue_spec pdd _ _ ⟨args.ptr, .diq⟩ out.fw _ rfl
      cases h
      split at hlists
      · rename_i hnone
        rw [if_pos hnone, nodeQueue, if_pos ht]
        exact ⟨registrations_of_lists hlists hqueues, onDevice_of_lists hlists⟩
      · rename_i hsome
        rw [if_neg hsome]
        exact ⟨registrations_of_lists hlists hqueues, onDevice_of_lists hlists⟩
  · cases h
    exact ⟨rfl, rfl⟩

/-! ### Destroying and updating a queue -/

/-- **`destroy_queue`, when it goes as it should**: the queue is off its list if it returns 0 or
`-ETIME`, and otherwise the lists are as they were. -/
theorem destroyQueue_spec {dqm' : Manager} {qpd' : Qpd} {retval : Option Errno}
    (hok : DestroyOk out pdd.dqm pdd.qpd q)
    (h : destroyQueue pdd.dev out pdd.dqm pdd.qpd q = (retval, dqm', qpd')) :
    registrations { pdd with dqm := dqm', qpd := qpd' } = pdd.registrations ∧
      onDevice { pdd with dqm := dqm', qpd := qpd' } =
        if retval = none ∨ retval = some .etime then (NodeQueue.user q.ptr).dropFrom pdd.onDevice
        else pdd.onDevice := by
  have hqueues := @queues_destroyQueue pdd.dev out pdd.dqm pdd.qpd q
  have hlists := @lists_destroyQueue pdd.dev out pdd.dqm pdd.qpd q
  have hfst := @destroyQueue_fst pdd.dev out pdd.dqm pdd.qpd q
  rw [h] at hqueues hlists hfst
  have hoff : (retval = none ∨ retval = some .etime) ↔
      (if pdd.dqm.sched_policy = .noHws then
        q.properties.type.isUser = true ∧ pdd.dqm.sched_running = true
      else pdd.qpd.is_debug = false) := by
    subst hfst
    unfold DestroyOk at hok
    by_cases hpolicy : pdd.dqm.sched_policy = .noHws
    · rw [if_pos hpolicy] at hok
      obtain ⟨hrunning, hdestroy⟩ := hok
      by_cases hu : q.properties.type.isUser = true
      · simpa [hpolicy, hrunning, hu] using hdestroy
      · simp [hpolicy, hu]
    · rw [if_neg hpolicy] at hok
      by_cases hdebug : pdd.qpd.is_debug = true
      · simp [hpolicy, hdebug]
      · by_cases hactive : q.properties.is_active = true
        · simpa [hpolicy, hdebug, hactive] using hok
        · simp [hpolicy, hdebug, hactive]
  by_cases hretval : retval = none ∨ retval = some .etime
  · rw [if_pos (hoff.1 hretval)] at hlists
    rw [if_pos hretval]
    exact ⟨registrations_of_lists hlists hqueues, onDevice_of_lists hlists⟩
  · rw [if_neg fun h => hretval (hoff.2 h)] at hlists
    rw [if_neg hretval]
    exact ⟨registrations_of_lists hlists hqueues, onDevice_of_lists hlists⟩

/-- `destroy_kernel_queue` takes the kernel queue off its list. -/
theorem destroyKernelQueue_spec {dqm' : Manager} {qpd' : Qpd} {kq : KernelQueue} {fw : Fw}
    (h : destroyKernelQueueCpsch fw pdd.dqm pdd.qpd kq = (dqm', qpd')) :
    registrations { pdd with dqm := dqm', qpd := qpd' } = pdd.registrations ∧
      onDevice { pdd with dqm := dqm', qpd := qpd' } =
        (NodeQueue.kernel kq).dropFrom pdd.onDevice := by
  unfold destroyKernelQueueCpsch at h
  cases h
  exact ⟨registrations_of_lists rfl queues_executeQueuesCpsch, rfl⟩

/-- **An update** leaves the device as it was. -/
theorem updateQueue_alike {dqm' : Manager} {qpd qpd' : Qpd} {retval : Option Errno}
    (hlists : qpd.lists = pdd.qpd.lists) (hq : qpd.find q.ptr = some q)
    (h : updateQueue active out pdd.dqm qpd q = (retval, dqm', qpd')) :
    pdd.Alike { pdd with dqm := dqm', qpd := qpd' } := by
  have hupdate := @lists_updateQueue active out pdd.dqm qpd q hq
  have hqueues := @queues_updateQueue out pdd.dqm qpd q active
  rw [h] at hupdate hqueues
  rw [hlists] at hupdate
  exact alike_iff.2 ⟨onDevice_of_lists hupdate, registrations_of_lists hupdate hqueues⟩

end Pdd

end Codrive.Pqm
