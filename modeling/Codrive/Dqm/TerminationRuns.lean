/-
# Runs and the termination of a process

In the life of the processes of a device, whatever the state its queues are in, terminating a
process ends, leaves it without queues and unregistered, frees each MQD once, gives back what the
queues were given and takes what they added off the counters.

Two things stand against it in `src/src/cmdio/linux/opu_device_queue_manager.c`: the loop of
`process_termination_nocpsch` waits for `destroy_queue_nocpsch_locked` to take the queue off the
list, which it does not do while the scheduler is stopped; and `process_termination_cpsch` keeps
the doorbells.
-/

import Codrive.Dqm.ResourceRuns

namespace Codrive.Dqm

open Codrive.Basis

/-- What of the manager says who is registered, and the counters of queues and processes. -/
def Manager.registry (dqm : Manager) : List ℕ × ℤ × ℤ :=
  (dqm.queues, dqm.processes_count, dqm.total_queue_count)

/-- **What a process gives back**: each thing is free that was free or one of its queues had. -/
structure GivesBack (dev : Dev) (dqm : Manager) (qpd : Qpd) (dqm' : Manager) (qpd' : Qpd) :
    Prop where
  sdma : ∀ b, b ∈ dqm'.sdma_bitmap ↔ b ∈ dqm.sdma_bitmap ∨
    ∃ q ∈ qpd.queues_list, q.properties.type = .sdma ∧ q.sdma_id = b
  xgmi : ∀ b, b ∈ dqm'.xgmi_sdma_bitmap ↔ b ∈ dqm.xgmi_sdma_bitmap ∨
    ∃ q ∈ qpd.queues_list, q.properties.type = .sdmaXgmi ∧ q.sdma_id = b
  hqd : dqm.sched_policy = .noHws → ∀ pipe bit,
    bit ∈ dqm'.allocated_queues pipe ↔ bit ∈ dqm.allocated_queues pipe ∨
      ∃ q ∈ qpd.queues_list, q.properties.type = .compute ∧ q.pipe = pipe ∧ q.queue = bit
  doorbell : ∀ b, b ∈ qpd'.doorbell_bitmap ↔ b ∈ qpd.doorbell_bitmap ∧
    ¬∃ q ∈ qpd.queues_list, q.HasDoorbell dev ∧ q.doorbell_id = b

section

variable {dev : Dev} {out : Outcome} {fw : Fw} {reserved : Finset ℕ} {start dqm dqm' : Manager}
variable {qpd qpd' : Qpd} {q : Queue} {others : Multiset Place} {otherVmids : Multiset (ℕ × ℕ)}

theorem Booked.trans {dqm'' : Manager} {qpd'' : Qpd} (h : Booked dqm qpd dqm' qpd')
    (h' : Booked dqm' qpd' dqm'' qpd'') : Booked dqm qpd dqm'' qpd'' := by
  have h₁ := h.count
  have h₂ := h'.count
  exact ⟨by linear_combination h.counters + h'.counters, by omega⟩

/-! ### What is given back -/

theorem registry_deallocateSlot : (deallocateSlot dev dqm q).registry = dqm.registry := by
  obtain ⟨_, _, _, h⟩ := deallocateSlot_changes dev dqm q
  rw [h]
  rfl

theorem registry_dropActive : (dropActive dqm qpd q).1.registry = dqm.registry ∧
    (dropActive dqm qpd q).2.priv_queue_list = qpd.priv_queue_list ∧
    (dropActive dqm qpd q).2.pasid = qpd.pasid := by
  unfold dropActive
  dsimp only
  split
  · split <;> exact ⟨rfl, rfl, rfl⟩
  · exact ⟨rfl, rfl, rfl⟩

theorem registry_unlistNocpsch {r : Option Errno} :
    (unlistNocpsch r dqm qpd q).1.registry = dqm.registry ∧
      (unlistNocpsch r dqm qpd q).2.priv_queue_list = qpd.priv_queue_list ∧
      (unlistNocpsch r dqm qpd q).2.pasid = qpd.pasid := by
  unfold unlistNocpsch
  dsimp only
  split <;> exact ⟨rfl, rfl, rfl⟩

/-- What destroying a queue does to who is registered and to the total. -/
theorem registry_destroyQueueNocpschLocked (hr : dqm.sched_running = true)
    (hu : q.properties.type.isUser = true) :
    (destroyQueueNocpschLocked dev out dqm qpd q).2.1.registry =
        (dqm.queues, dqm.processes_count, dqm.total_queue_count - 1) ∧
      (destroyQueueNocpschLocked dev out dqm qpd q).2.2.priv_queue_list = qpd.priv_queue_list ∧
      (destroyQueueNocpschLocked dev out dqm qpd q).2.2.pasid = qpd.pasid := by
  have hslot := @registry_deallocateSlot dev dqm q
  rw [destroyQueueNocpschLocked_running hr hu]
  dsimp only
  refine ⟨?_, ?_, ?_⟩
  · rw [registry_dropActive.1, registry_unlistNocpsch.1]
    simp only [Manager.registry, Prod.mk.injEq] at hslot ⊢
    exact ⟨hslot.1, hslot.2.1, by rw [hslot.2.2]⟩
  · rw [registry_dropActive.2.1]
    exact registry_unlistNocpsch.2.1.trans priv_queue_list_deallocateDoorbell
  · rw [registry_dropActive.2.2]
    exact registry_unlistNocpsch.2.2.trans deallocateDoorbell_frame.2.2

/-- **What the loop of `process_termination_nocpsch` keeps**, from its start to each round. -/
structure Clearing (dev : Dev) (reserved : Finset ℕ) (start : Manager) (others : Multiset Place)
    (otherVmids : Multiset (ℕ × ℕ)) (dqm : Manager) (qpd : Qpd) (dqm' : Manager) (qpd' : Qpd)
    (freed : List Queue) : Prop where
  held : Held dev reserved start dqm' qpd' [] others otherVmids
  booked : Booked dqm qpd dqm' qpd'
  freed : freed ++ qpd'.queues_list = qpd.queues_list
  queues : dqm'.queues = dqm.queues
  processes_count : dqm'.processes_count = dqm.processes_count
  total_queue_count : dqm'.total_queue_count + qpd.queues_list.length =
    dqm.total_queue_count + qpd'.queues_list.length
  priv_queue_list : qpd'.priv_queue_list = qpd.priv_queue_list
  pasid : qpd'.pasid = qpd.pasid

/-- One round. -/
theorem Clearing.round {freed l : List Queue}
    (h : Clearing dev reserved start others otherVmids dqm qpd dqm' qpd' freed)
    (hp : start.sched_policy = .noHws) (hr : dqm'.sched_running = true)
    (hl : qpd'.queues_list = q :: l) (hu : q.properties.type.isUser = true) :
    Clearing dev reserved start others otherVmids dqm qpd
      (destroyQueueNocpschLocked dev out dqm' qpd' q).2.1
      (destroyQueueNocpschLocked dev out dqm' qpd' q).2.2 (freed ++ [q]) := by
  have hq : qpd'.queues_list.find? (fun x => decide (x.ptr = q.ptr)) = some q := by
    rw [hl, List.find?_cons_of_pos (by simp)]
  obtain ⟨hreg, hpriv, hpasid⟩ :=
    @registry_destroyQueueNocpschLocked dev out dqm' qpd' q hr hu
  simp only [Manager.registry, Prod.mk.injEq] at hreg
  have hlist := (@queues_list_destroyQueueNocpschLocked dev out dqm' qpd' q l hr hu hl).1
  have htotal := h.total_queue_count
  rw [hl, List.length_cons] at htotal
  refine ⟨h.held.destroyNocpsch hp hr hq, h.booked.trans (destroyQueueNocpschLocked_booked hq), ?_,
    hreg.1.trans h.queues, hreg.2.1.trans h.processes_count, ?_, hpriv.trans h.priv_queue_list,
    hpasid.trans h.pasid⟩
  · rw [hlist, List.append_assoc, List.singleton_append, ← hl]
    exact h.freed
  · rw [hlist, hreg.2.2]
    push_cast at htotal
    omega

theorem queues_mapQueuesCpsch : (mapQueuesCpsch fw dqm).2.queues = dqm.queues :=
  view_mapQueuesCpsch fun _ _ _ => rfl

theorem queues_unmapQueuesCpsch : (unmapQueuesCpsch fw dqm).2.queues = dqm.queues :=
  view_unmapQueuesCpsch fun _ _ _ => rfl

theorem queues_executeQueuesCpsch : (executeQueuesCpsch fw dqm).2.queues = dqm.queues :=
  view_executeQueuesCpsch fun _ _ _ => rfl

theorem queues_deallocateSdmaQueue : (deallocateSdmaQueue dev dqm q).queues = dqm.queues := by
  obtain ⟨_, _, h⟩ := deallocateSdmaQueue_changes dev dqm q
  rw [h]

theorem queues_deallocateVmidIfEmpty : (deallocateVmidIfEmpty dqm qpd).1.queues = dqm.queues := by
  obtain ⟨_, _, h⟩ := deallocateVmidIfEmpty_changes dqm qpd
  rw [h]

theorem queues_allocateSdmaQueue {q' : Queue} (h : allocateSdmaQueue dev dqm q = .ok (dqm', q')) :
    dqm'.queues = dqm.queues := by
  obtain ⟨_, _, _, _, _, rfl, rfl⟩ := allocateSdmaQueue_changes h
  rfl

theorem queues_allocateSlot {q' : Queue} (h : allocateSlot dev dqm q = .ok (dqm', q')) :
    dqm'.queues = dqm.queues := by
  obtain ⟨_, _, _, _, _, _, _, _, _, rfl, rfl⟩ := allocateSlot_changes h
  rfl

theorem queues_allocateVmidIfEmpty {q' : Queue}
    (h : allocateVmidIfEmpty dev dqm qpd q = .ok (dqm', qpd', q')) :
    dqm'.queues = dqm.queues := by
  obtain ⟨_, _, _, rfl, rfl, rfl⟩ := allocateVmidIfEmpty_changes h
  rfl

theorem queues_undoCreateNocpsch : (undoCreateNocpsch dev dqm qpd q).1.queues = dqm.queues := by
  unfold undoCreateNocpsch
  rw [queues_deallocateVmidIfEmpty]
  exact congrArg Prod.fst registry_deallocateSlot

theorem queues_createBegin : (createBegin dev out dqm qpd q).2.1.queues = dqm.queues := by
  unfold createBegin
  split
  · unfold createQueueNocpschBegin
    split
    · rfl
    split
    · rfl
    rename_i hvmid
    have h₁ := queues_allocateVmidIfEmpty hvmid
    dsimp only
    split
    · exact queues_deallocateVmidIfEmpty.trans h₁
    rename_i hslot
    have h₂ := queues_allocateSlot hslot
    split
    · rw [queues_deallocateVmidIfEmpty]
      exact (congrArg Prod.fst registry_deallocateSlot).trans (h₂.trans h₁)
    · exact h₂.trans h₁
  · unfold createQueueCpschBegin
    split
    · rfl
    split
    · rfl
    rename_i hsdma
    have h₁ := queues_allocateSdmaQueue hsdma
    split
    · exact queues_deallocateSdmaQueue.trans h₁
    split
    · exact queues_deallocateSdmaQueue.trans h₁
    · exact h₁

theorem queues_createEnd {active : MqdActive} :
    (createEnd dev active out dqm qpd q).2.1.queues = dqm.queues := by
  have hadd : ∀ q, (addQueueToList dqm qpd q).1.queues = dqm.queues := by
    intro q
    unfold addQueueToList
    dsimp only
    split <;> rfl
  unfold createEnd
  split
  · unfold createQueueNocpschEnd
    split
    · exact queues_undoCreateNocpsch
    · dsimp only
      split
      · split
        · exact queues_undoCreateNocpsch
        · exact hadd _
      · exact hadd _
  · unfold createQueueCpschEnd
    dsimp only
    split
    · exact @queues_executeQueuesCpsch out.fw (incrementQueueCount dqm _)
    · rfl

theorem queues_destroyQueueNocpschLocked :
    (destroyQueueNocpschLocked dev out dqm qpd q).2.1.queues = dqm.queues := by
  have hslot : (deallocateSlot dev dqm q).queues = dqm.queues :=
    congrArg Prod.fst registry_deallocateSlot
  unfold destroyQueueNocpschLocked
  split
  · rfl
  dsimp only
  split
  · exact hslot
  · exact (congrArg Prod.fst registry_dropActive.1).trans
      ((congrArg Prod.fst registry_unlistNocpsch.1).trans hslot)

theorem queues_destroyQueue : (destroyQueue dev out dqm qpd q).2.1.queues = dqm.queues := by
  unfold destroyQueue
  split
  · exact queues_destroyQueueNocpschLocked
  · unfold destroyQueueCpsch dropActiveCpsch
    dsimp only
    split
    · rfl
    split
    · split
      · exact queues_executeQueuesCpsch.trans queues_deallocateSdmaQueue
      · exact queues_executeQueuesCpsch.trans queues_deallocateSdmaQueue
    · exact queues_deallocateSdmaQueue

theorem queues_updateQueue {active : MqdActive} :
    (updateQueue active out dqm qpd q).2.1.queues = dqm.queues := by
  have hprepare : (∀ r dqm', prepareUpdate out dqm q = .error (r, dqm') →
      dqm'.queues = dqm.queues) ∧
      ∀ dqm', prepareUpdate out dqm q = .ok dqm' → dqm'.queues = dqm.queues :=
    prepareUpdate_keeps rfl queues_unmapQueuesCpsch
  have hcount : ∀ dqm type b c, (countActivity dqm type b c).queues = dqm.queues := by
    intro dqm type b c
    unfold countActivity
    split_ifs <;> rfl
  have hgws : ∀ dqm m q, (updateGws dqm m q).1.queues = dqm.queues := by
    intro dqm m q
    unfold updateGws
    dsimp only
    split_ifs <;> rfl
  unfold updateQueue
  split
  · rename_i r dqm₁ hp
    exact hprepare.1 r dqm₁ hp
  rename_i dqm₁ hp
  have h₁ := hprepare.2 dqm₁ hp
  dsimp only
  split
  · rw [queues_mapQueuesCpsch, hgws, hcount]
    exact h₁
  · split <;> exact (hgws _ _ _).trans ((hcount _ _ _ _).trans h₁)

end

section

variable {dev : Dev} {active : MqdActive} {reserved : Finset ℕ} {sched_policy : SchedPolicy}
variable {s t : State} {op : LifeOp} {ops : List LifeOp} {i : ℕ} {out : Outcome} {qpd : Qpd}

theorem State.At.queues {f : Manager → Qpd → Manager × Qpd} (h : s.At i f t)
    (hf : ∀ qpd, (f s.dqm qpd).1.queues = s.dqm.queues) : t.dqm.queues = s.dqm.queues := by
  obtain ⟨A, qpd, B, -, -, rfl⟩ := h
  exact hf qpd

end

end Codrive.Dqm
