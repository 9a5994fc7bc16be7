/-
# The lists of a process

What the operations of `src/src/cmdio/linux/opu_device_queue_manager.c` do to the queues a process
has on a device, seen from outside: their addresses, in order, and its kernel queues.  A creation
puts its queue first or changes nothing; a destruction takes its queue off or changes nothing, but
not always as its result says (`lists_destroyQueue`).
-/

import Codrive.Dqm.TerminationRuns

namespace Codrive.Dqm

open Codrive.Basis

/-- The addresses of the queues of a process, its kernel queues, and whose they are. -/
def Qpd.lists (qpd : Qpd) : List ℕ × List KernelQueue × ℕ :=
  (qpd.queues_list.map Queue.ptr, qpd.priv_queue_list, qpd.pasid)

section

variable {dev : Dev} {active : MqdActive} {out : Outcome} {fw : Fw} {dqm dqm' : Manager}
variable {qpd qpd' : Qpd} {q q' : Queue}

theorem lists_deallocateDoorbell : (deallocateDoorbell dev qpd q).lists = qpd.lists := by
  obtain ⟨_, h⟩ := deallocateDoorbell_changes dev qpd q
  rw [h]
  rfl

theorem lists_deallocateVmidIfEmpty : (deallocateVmidIfEmpty dqm qpd).2.lists = qpd.lists := by
  obtain ⟨_, _, h⟩ := deallocateVmidIfEmpty_changes dqm qpd
  rw [h]
  rfl

theorem lists_undoCreateNocpsch : (undoCreateNocpsch dev dqm qpd q).2.lists = qpd.lists :=
  lists_deallocateVmidIfEmpty.trans lists_deallocateDoorbell

theorem lists_dropActive : (dropActive dqm qpd q).2.lists = qpd.lists := by
  unfold dropActive
  dsimp only
  split
  · split <;> rfl
  · rfl

theorem lists_dropActiveCpsch : (dropActiveCpsch fw dqm qpd q).2.2.lists = qpd.lists := by
  unfold dropActiveCpsch
  dsimp only
  split
  · split <;> rfl
  · rfl

theorem lists_unlistNocpsch {r : Option Errno} :
    (unlistNocpsch r dqm qpd q).2.lists = (qpd.listDel q.ptr).lists := by
  unfold unlistNocpsch
  dsimp only
  split <;> rfl

theorem lists_listDel {ptr : ℕ} :
    (qpd.listDel ptr).lists = (qpd.lists.1.erase ptr, qpd.lists.2) := by
  unfold Qpd.listDel Qpd.lists
  refine Prod.ext ?_ rfl
  dsimp only
  induction qpd.queues_list with
  | nil => rfl
  | cons q l ih =>
    rw [List.map_cons, List.eraseP_cons, List.erase_cons]
    by_cases hq : q.ptr = ptr
    · simp [hq]
    · simp [hq, ih]

/-! ### Creating a queue -/

theorem allocateSdmaQueue_ptr (h : allocateSdmaQueue dev dqm q = .ok (dqm', q')) :
    q'.ptr = q.ptr := by
  obtain ⟨_, _, _, _, _, rfl, rfl⟩ := allocateSdmaQueue_changes h
  rfl

theorem allocateSlot_ptr (h : allocateSlot dev dqm q = .ok (dqm', q')) : q'.ptr = q.ptr := by
  obtain ⟨_, _, _, _, _, _, _, _, _, rfl, rfl⟩ := allocateSlot_changes h
  rfl

theorem lists_allocateDoorbell (h : allocateDoorbell dev qpd q = .ok (qpd', q')) :
    qpd'.lists = qpd.lists ∧ q'.ptr = q.ptr := by
  obtain ⟨_, _, rfl, rfl⟩ := allocateDoorbell_changes h
  exact ⟨rfl, rfl⟩

theorem lists_allocateVmidIfEmpty (h : allocateVmidIfEmpty dev dqm qpd q = .ok (dqm', qpd', q')) :
    qpd'.lists = qpd.lists ∧ q'.ptr = q.ptr := by
  obtain ⟨_, _, _, rfl, rfl, rfl⟩ := allocateVmidIfEmpty_changes h
  exact ⟨rfl, rfl⟩

/-- **The first part of `create_queue`** leaves the lists. -/
theorem lists_createBegin : (createBegin dev out dqm qpd q).2.2.lists = qpd.lists ∧
    ∀ q', (createBegin dev out dqm qpd q).1 = .ok q' → q'.ptr = q.ptr := by
  unfold createBegin
  split
  · unfold createQueueNocpschBegin
    split
    · exact ⟨rfl, fun _ h => nomatch h⟩
    split
    · exact ⟨rfl, fun _ h => nomatch h⟩
    rename_i hvmid
    obtain ⟨hl₁, hq₁⟩ := lists_allocateVmidIfEmpty hvmid
    dsimp only
    split
    · exact ⟨lists_deallocateVmidIfEmpty.trans hl₁, fun _ h => nomatch h⟩
    rename_i hslot
    have hq₂ := allocateSlot_ptr hslot
    split
    · exact ⟨lists_deallocateVmidIfEmpty.trans hl₁, fun _ h => nomatch h⟩
    rename_i hdoor
    obtain ⟨hl₃, hq₃⟩ := lists_allocateDoorbell hdoor
    refine ⟨hl₃.trans hl₁, fun q' h => ?_⟩
    cases h
    exact hq₃.trans (hq₂.trans hq₁)
  · unfold createQueueCpschBegin
    split
    · exact ⟨rfl, fun _ h => nomatch h⟩
    split
    · exact ⟨rfl, fun _ h => nomatch h⟩
    rename_i hsdma
    have hq₁ := allocateSdmaQueue_ptr hsdma
    split
    · exact ⟨rfl, fun _ h => nomatch h⟩
    rename_i hdoor
    obtain ⟨hl₂, hq₂⟩ := lists_allocateDoorbell hdoor
    split
    · exact ⟨lists_deallocateDoorbell.trans hl₂, fun _ h => nomatch h⟩
    · refine ⟨hl₂, fun q' h => ?_⟩
      cases h
      exact hq₂.trans hq₁

theorem lists_addQueueToList :
    (addQueueToList dqm qpd q).2.lists = (q.ptr :: qpd.lists.1, qpd.lists.2) := rfl

/-- **The rest of `create_queue`** lists the queue, or leaves the lists when it fails. -/
theorem lists_createEnd : (createEnd dev active out dqm qpd q).2.2.lists =
    if (createEnd dev active out dqm qpd q).1 = none then (q.ptr :: qpd.lists.1, qpd.lists.2)
    else qpd.lists := by
  unfold createEnd
  split
  · unfold createQueueNocpschEnd
    split
    · rw [if_neg (by simp)]
      exact lists_undoCreateNocpsch
    dsimp only
    split
    · split
      · rw [if_neg (by simp)]
        exact lists_undoCreateNocpsch
      · rw [if_pos rfl]
        exact lists_addQueueToList
    · rw [if_pos rfl]
      exact lists_addQueueToList
  · unfold createQueueCpschEnd
    rw [if_pos rfl]
    rfl

/-! ### Destroying a queue -/

/-- What `map_queues_cpsch` returns when there is no run list yet. -/
theorem mapQueuesCpsch_fst (hrunning : dqm.sched_running = true)
    (hlist : dqm.active_runlist = false) : (mapQueuesCpsch fw dqm).1 =
      if dqm.active_queue_count ≤ 0 ∨ dqm.processes_count ≤ 0 then none else fw.send_runlist := by
  unfold mapQueuesCpsch
  by_cases hnone : dqm.active_queue_count ≤ 0 ∨ dqm.processes_count ≤ 0
  · simp [hrunning, hnone]
  · cases fw.send_runlist <;> simp [hrunning, hnone, hlist]

/-- What `execute_queues_cpsch` returns. -/
theorem executeQueuesCpsch_fst : (executeQueuesCpsch fw dqm).1 =
    if dqm.is_hws_hang = true then some .eio
    else if dqm.sched_running = false then none
    else
      let mapped :=
        if dqm.active_queue_count ≤ 0 ∨ dqm.processes_count ≤ 0 then none else fw.send_runlist
      if dqm.active_runlist = false then mapped
      else fw.send_unmap.or
        (if fw.fence_timeout = true ∨ fw.unresponding = true then some .etime else mapped) := by
  unfold executeQueuesCpsch
  by_cases hhang : dqm.is_hws_hang = true
  · rw [if_pos hhang, if_pos hhang]
  rw [if_neg hhang, if_neg hhang]
  unfold unmapQueuesCpsch
  cases hrunning : dqm.sched_running with
  | false => simp [mapQueuesCpsch, hrunning]
  | true =>
    cases hlist : dqm.active_runlist with
    | false => simp [hhang, mapQueuesCpsch_fst hrunning hlist]
    | true =>
      have hmapped := @mapQueuesCpsch_fst fw { dqm with active_runlist := false } hrunning rfl
      cases fw.send_unmap with
      | some e => simp [hhang]
      | none =>
        by_cases ht : fw.fence_timeout = true
        · simp [hhang, ht]
        by_cases hu : fw.unresponding = true
        · simp [hhang, ht, hu]
        · simpa [hhang, ht, hu, hrunning] using hmapped

/-- **`destroy_queue`** takes the queue off the list, or leaves the lists.  Without the scheduler it
leaves it there, and returns 0, while this is stopped; with it, it leaves the queues of a debugged
process, and has taken the queue off when it finds that the other queues cannot be mapped again. -/
theorem lists_destroyQueue : (destroyQueue dev out dqm qpd q).2.2.lists =
    if (if dqm.sched_policy = .noHws then
        q.properties.type.isUser = true ∧ dqm.sched_running = true
      else qpd.is_debug = false) then (qpd.lists.1.erase q.ptr, qpd.lists.2) else qpd.lists := by
  unfold destroyQueue
  split
  · by_cases hu : q.properties.type.isUser = true
    · cases hr : dqm.sched_running with
      | true =>
        rw [if_pos ⟨hu, rfl⟩, destroyQueueNocpschLocked_running hr hu]
        dsimp only
        rw [lists_dropActive]
        exact (lists_unlistNocpsch.trans lists_listDel).trans (by rw [lists_deallocateDoorbell])
      | false =>
        rw [if_neg (by simp), destroyQueueNocpschLocked_stopped hr hu]
        exact lists_deallocateDoorbell
    · rw [if_neg fun h => hu h.1]
      unfold destroyQueueNocpschLocked
      rw [if_pos (by simpa using hu)]
  · unfold destroyQueueCpsch
    cases hd : qpd.is_debug with
    | true => rfl
    | false =>
      rw [if_neg (by decide), if_pos rfl]
      dsimp only
      rw [lists_dropActiveCpsch]
      exact lists_listDel.trans (by rw [lists_deallocateDoorbell])

/-- What `destroy_queue` returns. -/
theorem destroyQueue_fst : (destroyQueue dev out dqm qpd q).1 =
    if dqm.sched_policy = .noHws then
      if q.properties.type.isUser = true then
        if dqm.sched_running = true then out.destroy_mqd q else none
      else some .einval
    else if qpd.is_debug = true then some .ebusy
    else if q.properties.is_active = true then
      (executeQueuesCpsch out.fw (decrementQueueCount dqm q.properties.type)).1
    else none := by
  unfold destroyQueue
  split
  · by_cases hu : q.properties.type.isUser = true
    · rw [if_pos hu]
      cases hr : dqm.sched_running with
      | true =>
        rw [destroyQueueNocpschLocked_running hr hu]
        rfl
      | false =>
        rw [destroyQueueNocpschLocked_stopped hr hu]
        rfl
    · rw [if_neg hu]
      unfold destroyQueueNocpschLocked
      rw [if_pos (by simpa using hu)]
  · unfold destroyQueueCpsch
    split
    · rfl
    · unfold dropActiveCpsch
      dsimp only
      split
      · have hexecute : (executeQueuesCpsch out.fw
            (decrementQueueCount (deallocateSdmaQueue dev dqm q) q.properties.type)).1 =
            (executeQueuesCpsch out.fw (decrementQueueCount dqm q.properties.type)).1 := by
          obtain ⟨_, _, h⟩ := deallocateSdmaQueue_changes dev dqm q
          rw [h]
          simp only [executeQueuesCpsch_fst, decrementQueueCount]
        split
        · exact hexecute
        · exact hexecute
      · rfl

/-! ### Updating a queue -/

theorem lists_modify {ptr : ℕ} {f : Queue → Queue} (hf : ∀ q, (f q).ptr = q.ptr) :
    (qpd.modify ptr f).lists = qpd.lists :=
  Prod.ext (map_updateFirst hf _) rfl

/-- **`update_queue`** leaves the lists. -/
theorem lists_updateQueue (hq : qpd.queues_list.find? (fun x => decide (x.ptr = q.ptr)) = some q) :
    (updateQueue active out dqm qpd q).2.2.lists = qpd.lists := by
  unfold updateQueue
  split
  · rfl
  rename_i dqm₁ _
  obtain ⟨-, -, hptr⟩ := @updateGws_held (countActivity dqm₁ q.properties.type
    q.properties.is_active (q.setActive active).properties.is_active) (q.setActive active)
    qpd.mapped_gws_queue
  dsimp only [Queue.setActive] at hptr ⊢
  generalize updateGws _ qpd.mapped_gws_queue _ = x at hptr ⊢
  have hlist : (updateFirst (fun y : Queue => decide (y.ptr = x.2.2.ptr)) (fun _ => x.2.2)
      qpd.queues_list).map Queue.ptr = qpd.queues_list.map Queue.ptr := by
    obtain ⟨A, B, hl, -, hf⟩ := exists_first hq
    rw [hptr]
    show (updateFirst (fun y : Queue => decide (y.ptr = q.ptr)) _ _).map _ = _
    rw [hf, hl, List.map_append, List.map_append, List.map_cons, List.map_cons, hptr]
  unfold Qpd.lists
  split
  · rw [← hlist]
  · split <;> rw [← hlist]

end

end Codrive.Dqm
