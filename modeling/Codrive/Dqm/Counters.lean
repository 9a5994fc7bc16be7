/-
# The queue counters

What each operation of `src/src/cmdio/linux/opu_device_queue_manager.c` does to the counters of
the device and to the queues of one process.  An operation is `Booked` when it changes the
counters by as much as the process's queues change what they should be, and `queue_count` by as
many queues as it lists or unlists.  All are, but for the drifts that the hypotheses on
`evict_process_queues_cpsch`, `restore_process_queues_*` and `update_queue` exclude: these count
GWS queues on one side only, or activate a queue a second time.
-/

import Codrive.Dqm.Manager
import Mathlib.Algebra.Ring.Prod
import Mathlib.Algebra.Order.Group.Int
import Mathlib.Tactic.LinearCombination
import Mathlib.Tactic.Ring

namespace Codrive.Dqm

open Codrive.Basis

/-- 1 for true. -/
def one (b : Bool) : ℤ := if b then 1 else 0

/-- `active_queue_count`, `active_cp_queue_count` and `gws_queue_count`. -/
def Manager.counters (dqm : Manager) : ℤ × ℤ × ℤ :=
  (dqm.active_queue_count, dqm.active_cp_queue_count, dqm.gws_queue_count)

/-- What a listed queue should add to the counters. -/
def Queue.load (q : Queue) : ℤ × ℤ × ℤ :=
  if q.properties.is_active then (1, one q.properties.type.isCp, one q.properties.is_gws) else 0

/-- What a kernel queue should add to the counters. -/
def KernelQueue.load (kq : KernelQueue) : ℤ × ℤ × ℤ := (1, one kq.type.isCp, 0)

/-- What the queues of a process should add to the counters. -/
def Qpd.load (qpd : Qpd) : ℤ × ℤ × ℤ :=
  (qpd.queues_list.map Queue.load).sum + (qpd.priv_queue_list.map KernelQueue.load).sum

/-- The counters changed by what the process's queues changed by. -/
structure Booked (dqm : Manager) (qpd : Qpd) (dqm' : Manager) (qpd' : Qpd) : Prop where
  /-- The counters of the device. -/
  counters : dqm'.counters + qpd.load = dqm.counters + qpd'.load
  /-- `queue_count` and the queue list. -/
  count : qpd'.queue_count + qpd.queues_list.length = qpd.queue_count + qpd'.queues_list.length

section Frames

variable {dev : Dev} {dqm dqm' : Manager} {qpd qpd' : Qpd} {q q' : Queue} {fw : Fw}

/-- Nothing that is counted changed. -/
theorem Booked.of_eq (hc : dqm'.counters = dqm.counters) (hl : qpd'.queues_list = qpd.queues_list)
    (hp : qpd'.priv_queue_list = qpd.priv_queue_list) (hn : qpd'.queue_count = qpd.queue_count) :
    Booked dqm qpd dqm' qpd' :=
  ⟨by rw [hc, Qpd.load, Qpd.load, hl, hp], by rw [hl, hn]⟩

/-! Taking the run list down and putting it up again changes two flags of the manager: what reads
neither of them (`hg`) stays. -/

theorem view_mapQueuesCpsch {α : Type*} {g : Manager → α}
    (hg : ∀ dqm a b, g { dqm with active_runlist := a, is_hws_hang := b } = g dqm) :
    g (mapQueuesCpsch fw dqm).2 = g dqm := by
  unfold mapQueuesCpsch
  split_ifs
  · rfl
  · rfl
  · rfl
  · split
    · rfl
    · exact hg dqm true dqm.is_hws_hang

theorem view_unmapQueuesCpsch {α : Type*} {g : Manager → α}
    (hg : ∀ dqm a b, g { dqm with active_runlist := a, is_hws_hang := b } = g dqm) :
    g (unmapQueuesCpsch fw dqm).2 = g dqm := by
  unfold unmapQueuesCpsch
  split_ifs
  · rfl
  · rfl
  · rfl
  all_goals split
  · rfl
  · exact hg dqm dqm.active_runlist true
  · rfl
  · rfl
  · rfl
  · exact hg dqm false dqm.is_hws_hang

theorem view_executeQueuesCpsch {α : Type*} {g : Manager → α}
    (hg : ∀ dqm a b, g { dqm with active_runlist := a, is_hws_hang := b } = g dqm) :
    g (executeQueuesCpsch fw dqm).2 = g dqm := by
  unfold executeQueuesCpsch
  split_ifs
  · rfl
  · have h := @view_unmapQueuesCpsch dqm fw _ _ hg
    split <;> rename_i hu <;> rw [hu] at h
    · exact h
    · rw [view_mapQueuesCpsch hg]
      exact h

@[simp] theorem counters_mapQueuesCpsch : (mapQueuesCpsch fw dqm).2.counters = dqm.counters :=
  view_mapQueuesCpsch fun _ _ _ => rfl

@[simp] theorem counters_unmapQueuesCpsch : (unmapQueuesCpsch fw dqm).2.counters = dqm.counters :=
  view_unmapQueuesCpsch fun _ _ _ => rfl

@[simp] theorem counters_executeQueuesCpsch :
    (executeQueuesCpsch fw dqm).2.counters = dqm.counters :=
  view_executeQueuesCpsch fun _ _ _ => rfl

@[simp] theorem counters_deallocateSdmaQueue :
    (deallocateSdmaQueue dev dqm q).counters = dqm.counters := by
  obtain ⟨_, _, h⟩ := deallocateSdmaQueue_changes dev dqm q
  rw [h]
  rfl

@[simp] theorem counters_deallocateSlot : (deallocateSlot dev dqm q).counters = dqm.counters := by
  obtain ⟨_, _, _, h⟩ := deallocateSlot_changes dev dqm q
  rw [h]
  rfl

@[simp] theorem counters_deallocateVmidIfEmpty :
    (deallocateVmidIfEmpty dqm qpd).1.counters = dqm.counters := by
  obtain ⟨_, _, h⟩ := deallocateVmidIfEmpty_changes dqm qpd
  rw [h]
  rfl

@[simp] theorem queues_list_deallocateVmidIfEmpty :
    (deallocateVmidIfEmpty dqm qpd).2.queues_list = qpd.queues_list := by
  obtain ⟨_, _, h⟩ := deallocateVmidIfEmpty_changes dqm qpd
  rw [h]

@[simp] theorem priv_queue_list_deallocateVmidIfEmpty :
    (deallocateVmidIfEmpty dqm qpd).2.priv_queue_list = qpd.priv_queue_list := by
  obtain ⟨_, _, h⟩ := deallocateVmidIfEmpty_changes dqm qpd
  rw [h]

@[simp] theorem queue_count_deallocateVmidIfEmpty :
    (deallocateVmidIfEmpty dqm qpd).2.queue_count = qpd.queue_count := by
  obtain ⟨_, _, h⟩ := deallocateVmidIfEmpty_changes dqm qpd
  rw [h]

@[simp] theorem queues_list_deallocateDoorbell :
    (deallocateDoorbell dev qpd q).queues_list = qpd.queues_list := by
  obtain ⟨_, h⟩ := deallocateDoorbell_changes dev qpd q
  rw [h]

@[simp] theorem priv_queue_list_deallocateDoorbell :
    (deallocateDoorbell dev qpd q).priv_queue_list = qpd.priv_queue_list := by
  obtain ⟨_, h⟩ := deallocateDoorbell_changes dev qpd q
  rw [h]

@[simp] theorem queue_count_deallocateDoorbell :
    (deallocateDoorbell dev qpd q).queue_count = qpd.queue_count := by
  obtain ⟨_, h⟩ := deallocateDoorbell_changes dev qpd q
  rw [h]

theorem allocateSdmaQueue_frame (h : allocateSdmaQueue dev dqm q = .ok (dqm', q')) :
    dqm'.counters = dqm.counters ∧ q'.properties.is_gws = q.properties.is_gws := by
  obtain ⟨_, _, _, _, _, rfl, rfl⟩ := allocateSdmaQueue_changes h
  exact ⟨rfl, rfl⟩

theorem allocateSlot_frame (h : allocateSlot dev dqm q = .ok (dqm', q')) :
    dqm'.counters = dqm.counters ∧ q'.properties.is_gws = q.properties.is_gws := by
  obtain ⟨_, _, _, _, _, _, _, _, _, rfl, rfl⟩ := allocateSlot_changes h
  exact ⟨rfl, rfl⟩

theorem allocateDoorbell_frame (h : allocateDoorbell dev qpd q = .ok (qpd', q')) :
    qpd'.queues_list = qpd.queues_list ∧ qpd'.priv_queue_list = qpd.priv_queue_list ∧
      qpd'.queue_count = qpd.queue_count ∧ q'.properties.is_gws = q.properties.is_gws := by
  obtain ⟨_, _, rfl, rfl⟩ := allocateDoorbell_changes h
  exact ⟨rfl, rfl, rfl, rfl⟩

theorem allocateVmidIfEmpty_frame (h : allocateVmidIfEmpty dev dqm qpd q = .ok (dqm', qpd', q')) :
    dqm'.counters = dqm.counters ∧ qpd'.queues_list = qpd.queues_list ∧
      qpd'.priv_queue_list = qpd.priv_queue_list ∧ qpd'.queue_count = qpd.queue_count ∧
      q'.properties.is_gws = q.properties.is_gws := by
  obtain ⟨_, _, _, rfl, rfl, rfl⟩ := allocateVmidIfEmpty_changes h
  exact ⟨rfl, rfl, rfl, rfl, rfl⟩

end Frames

section Loads

variable {dqm : Manager} {qpd : Qpd} {q : Queue}

theorem load_of_active (h : q.properties.is_active = true) :
    q.load = (1, one q.properties.type.isCp, one q.properties.is_gws) := by
  simp [Queue.load, h]

theorem load_of_inactive (h : q.properties.is_active = false) : q.load = 0 := by
  simp [Queue.load, h]

theorem counters_incrementQueueCount (type : QueueType) :
    (incrementQueueCount dqm type).counters = dqm.counters + (1, one type.isCp, 0) := by
  simp [incrementQueueCount, Manager.counters, one]

theorem counters_decrementQueueCount (type : QueueType) :
    (decrementQueueCount dqm type).counters + (1, one type.isCp, 0) = dqm.counters := by
  simp [decrementQueueCount, Manager.counters, one]

end Loads

section Create

variable {dev : Dev} {active : MqdActive} {out : Outcome} {dqm : Manager} {qpd : Qpd} {q : Queue}

/-- A call that fails before it lists the queue changes nothing that is counted, and neither
does one that goes on. -/
theorem createQueueNocpschBegin_booked :
    Booked dqm qpd (createQueueNocpschBegin dev dqm qpd q).2.1
        (createQueueNocpschBegin dev dqm qpd q).2.2 ∧
      ∀ q', (createQueueNocpschBegin dev dqm qpd q).1 = .ok q' →
        q'.properties.is_gws = q.properties.is_gws := by
  unfold createQueueNocpschBegin
  split
  · exact ⟨.of_eq rfl rfl rfl rfl, fun q' h => by cases h⟩
  split
  · exact ⟨.of_eq rfl rfl rfl rfl, fun q' h => by cases h⟩
  rename_i hv
  obtain ⟨hc₁, hl₁, hp₁, hn₁, hg₁⟩ := allocateVmidIfEmpty_frame hv
  dsimp only
  split
  · exact ⟨.of_eq (by simp [hc₁]) (by simp [hl₁]) (by simp [hp₁]) (by simp [hn₁]),
      fun q' h => by cases h⟩
  rename_i hs
  obtain ⟨hc₂, hg₂⟩ := allocateSlot_frame hs
  split
  · exact ⟨.of_eq (by simp [hc₂, hc₁]) (by simp [hl₁]) (by simp [hp₁]) (by simp [hn₁]),
      fun q' h => by cases h⟩
  rename_i hd
  obtain ⟨hl₂, hp₂, hn₂, hg₃⟩ := allocateDoorbell_frame hd
  refine ⟨.of_eq (hc₂.trans hc₁) (hl₂.trans hl₁) (hp₂.trans hp₁) (hn₂.trans hn₁), fun q' h => ?_⟩
  cases h
  exact hg₃.trans (hg₂.trans hg₁)

/-- So does the first part of `create_queue_cpsch`. -/
theorem createQueueCpschBegin_booked :
    Booked dqm qpd (createQueueCpschBegin dev out dqm qpd q).2.1
        (createQueueCpschBegin dev out dqm qpd q).2.2 ∧
      ∀ q', (createQueueCpschBegin dev out dqm qpd q).1 = .ok q' →
        q'.properties.is_gws = q.properties.is_gws := by
  unfold createQueueCpschBegin
  split
  · exact ⟨.of_eq rfl rfl rfl rfl, fun q' h => by cases h⟩
  split
  · exact ⟨.of_eq rfl rfl rfl rfl, fun q' h => by cases h⟩
  rename_i hs
  obtain ⟨hc₁, hg₁⟩ := allocateSdmaQueue_frame hs
  split
  · exact ⟨.of_eq (by simp [hc₁]) rfl rfl rfl, fun q' h => by cases h⟩
  rename_i hd
  obtain ⟨hl, hp, hn, hg₂⟩ := allocateDoorbell_frame hd
  split
  · exact ⟨.of_eq (by simp [hc₁]) (by simp [hl]) (by simp [hp]) (by simp [hn]),
      fun q' h => by cases h⟩
  · refine ⟨.of_eq hc₁ hl hp hn, fun q' h => ?_⟩
    cases h
    exact hg₂.trans hg₁

/-- **A queue added to the list is counted**, if it does not own GWS yet. -/
theorem addQueueToList_booked (hg : q.properties.is_gws = false) :
    Booked dqm qpd (addQueueToList dqm qpd q).1 (addQueueToList dqm qpd q).2 := by
  have hload : (addQueueToList dqm qpd q).2.load = q.load + qpd.load := by
    simp [addQueueToList, Qpd.load, add_assoc]
  have hc : (addQueueToList dqm qpd q).1.counters = dqm.counters + q.load := by
    cases ha : q.properties.is_active with
    | true =>
      rw [load_of_active ha, hg]
      have h := @counters_incrementQueueCount dqm q.properties.type
      simpa [addQueueToList, ha, Manager.counters, one] using h
    | false => simp [addQueueToList, ha, load_of_inactive, Manager.counters]
  constructor
  · rw [hload, hc, add_assoc]
  · simp only [addQueueToList, List.length_cons]
    omega

theorem undoCreateNocpsch_booked :
    Booked dqm qpd (undoCreateNocpsch dev dqm qpd q).1 (undoCreateNocpsch dev dqm qpd q).2 := by
  unfold undoCreateNocpsch
  exact .of_eq (by simp) (by simp) (by simp) (by simp)

/-- **`create_queue_nocpsch`.** -/
theorem createQueueNocpschEnd_booked (hg : q.properties.is_gws = false) :
    Booked dqm qpd (createQueueNocpschEnd dev active out dqm qpd q).2.1
      (createQueueNocpschEnd dev active out dqm qpd q).2.2 := by
  have hg' : (q.setActive active).properties.is_gws = false := hg
  unfold createQueueNocpschEnd
  split
  · exact undoCreateNocpsch_booked
  · dsimp only
    split
    · split
      · exact undoCreateNocpsch_booked
      · exact addQueueToList_booked hg'
    · exact addQueueToList_booked hg'

/-- **`create_queue_cpsch`.** -/
theorem createQueueCpschEnd_booked (hg : q.properties.is_gws = false) :
    Booked dqm qpd (createQueueCpschEnd active out dqm qpd q).2.1
      (createQueueCpschEnd active out dqm qpd q).2.2 := by
  have hg' : ((q.setEvicted (qpd.evicted ≠ 0)).setActive active).properties.is_gws = false := hg
  unfold createQueueCpschEnd
  generalize (q.setEvicted (qpd.evicted ≠ 0)).setActive active = q' at hg'
  have hb := @addQueueToList_booked dqm qpd q' hg'
  refine ⟨?_, hb.count⟩
  refine Eq.trans (congrArg (· + qpd.load) ?_) hb.counters
  have h := @counters_executeQueuesCpsch (incrementQueueCount dqm q'.properties.type) out.fw
  cases ha : q'.properties.is_active with
  | true => simpa [addQueueToList, ha, Manager.counters] using h
  | false => simp [addQueueToList, ha, Manager.counters]

end Create

section Destroy

variable {dev : Dev} {out : Outcome} {dqm : Manager} {qpd : Qpd} {q : Queue}

/-- A queue off the list, and the list with the queue changed. -/
theorem load_of_find {f : Queue → Queue}
    (h : qpd.queues_list.find? (fun x => decide (x.ptr = q.ptr)) = some q) :
    qpd.load = q.load + (qpd.listDel q.ptr).load ∧
      qpd.queues_list.length = (qpd.listDel q.ptr).queues_list.length + 1 ∧
      ((updateFirst (fun x => decide (x.ptr = q.ptr)) f qpd.queues_list).map Queue.load).sum +
        q.load = (qpd.queues_list.map Queue.load).sum + (f q).load ∧
      (updateFirst (fun x => decide (x.ptr = q.ptr)) f qpd.queues_list).length =
        qpd.queues_list.length := by
  obtain ⟨A, B, hl, he, hf⟩ := exists_first h
  refine ⟨?_, ?_, ?_, ?_⟩
  · rw [Qpd.load, Qpd.load, Qpd.listDel, he, hl]
    simp only [List.map_append, List.map_cons, List.sum_append, List.sum_cons]
    abel
  · rw [Qpd.listDel, he, hl]
    simp only [List.length_append, List.length_cons]
    omega
  · rw [hf, hl]
    simp only [List.map_append, List.map_cons, List.sum_append, List.sum_cons]
    abel
  · rw [hf, hl]
    simp

theorem dropActive_frame :
    (dropActive dqm qpd q).1.counters + q.load = dqm.counters ∧
      (dropActive dqm qpd q).2.load = qpd.load ∧
      (dropActive dqm qpd q).2.queues_list = qpd.queues_list ∧
      (dropActive dqm qpd q).2.queue_count = qpd.queue_count := by
  have h := @counters_decrementQueueCount dqm q.properties.type
  unfold dropActive
  cases ha : q.properties.is_active with
  | false => simp [load_of_inactive ha]
  | true =>
    rw [load_of_active ha]
    cases hg : q.properties.is_gws with
    | false => exact ⟨h, rfl, rfl, rfl⟩
    | true =>
      refine ⟨?_, rfl, rfl, rfl⟩
      simpa [decrementQueueCount, Manager.counters, one] using h

theorem unlistNocpsch_frame (r : Option Errno) :
    (unlistNocpsch r dqm qpd q).1.counters = dqm.counters ∧
      (unlistNocpsch r dqm qpd q).2.load = (qpd.listDel q.ptr).load ∧
      (unlistNocpsch r dqm qpd q).2.queues_list = (qpd.listDel q.ptr).queues_list ∧
      (unlistNocpsch r dqm qpd q).2.queue_count = qpd.queue_count := by
  unfold unlistNocpsch
  dsimp only
  split <;> exact ⟨rfl, rfl, rfl, rfl⟩

/-- **`destroy_queue_nocpsch`.** -/
theorem destroyQueueNocpschLocked_booked
    (hq : qpd.queues_list.find? (fun x => decide (x.ptr = q.ptr)) = some q) :
    Booked dqm qpd (destroyQueueNocpschLocked dev out dqm qpd q).2.1
      (destroyQueueNocpschLocked dev out dqm qpd q).2.2 := by
  obtain ⟨hload, hlen, -⟩ := @load_of_find qpd q id hq
  unfold destroyQueueNocpschLocked
  split
  · exact .of_eq rfl rfl rfl rfl
  dsimp only
  split
  · exact .of_eq counters_deallocateSlot (by simp) (by simp) (by simp)
  set dqm₁ : Manager := { deallocateSlot dev dqm q with
    total_queue_count := (deallocateSlot dev dqm q).total_queue_count - 1 } with hdqm
  have hc₁ : dqm₁.counters = dqm.counters := counters_deallocateSlot
  obtain ⟨hc, hl, hls, hn⟩ :=
    @unlistNocpsch_frame dqm₁ (deallocateDoorbell dev qpd q) q (out.destroy_mqd q)
  generalize unlistNocpsch (out.destroy_mqd q) dqm₁ (deallocateDoorbell dev qpd q) q = x at *
  obtain ⟨h₁, h₂, h₃, h₄⟩ :=
    @dropActive_frame x.1 { x.2 with queue_count := x.2.queue_count - 1 } q
  have hdel : ((deallocateDoorbell dev qpd q).listDel q.ptr).load = (qpd.listDel q.ptr).load := by
    simp [Qpd.load, Qpd.listDel]
  constructor
  · rw [h₂, hload, ← hc₁, ← hc, ← h₁]
    show _ = _ + x.2.load
    rw [hl, hdel]
    abel
  · rw [h₃, h₄, hls, hn, hlen, queue_count_deallocateDoorbell, Qpd.listDel, Qpd.listDel,
      queues_list_deallocateDoorbell]
    push_cast
    ring

theorem dropActiveCpsch_frame (fw : Fw) :
    (dropActiveCpsch fw dqm qpd q).2.1.counters + q.load = dqm.counters ∧
      (dropActiveCpsch fw dqm qpd q).2.2.load = qpd.load ∧
      (dropActiveCpsch fw dqm qpd q).2.2.queues_list = qpd.queues_list ∧
      (dropActiveCpsch fw dqm qpd q).2.2.queue_count = qpd.queue_count := by
  have h := @counters_decrementQueueCount dqm q.properties.type
  rw [← @counters_executeQueuesCpsch _ fw] at h
  unfold dropActiveCpsch
  cases ha : q.properties.is_active with
  | false => simp [load_of_inactive ha]
  | true =>
    rw [load_of_active ha]
    cases hg : q.properties.is_gws with
    | false => exact ⟨h, rfl, rfl, rfl⟩
    | true =>
      refine ⟨?_, rfl, rfl, rfl⟩
      simpa [Manager.counters, one] using h

/-- **`destroy_queue_cpsch`.** -/
theorem destroyQueueCpsch_booked
    (hq : qpd.queues_list.find? (fun x => decide (x.ptr = q.ptr)) = some q) :
    Booked dqm qpd (destroyQueueCpsch dev out dqm qpd q).2.1
      (destroyQueueCpsch dev out dqm qpd q).2.2 := by
  obtain ⟨hload, hlen, -⟩ := @load_of_find qpd q id hq
  unfold destroyQueueCpsch
  split
  · exact .of_eq rfl rfl rfl rfl
  dsimp only
  set qpd₁ := (deallocateDoorbell dev qpd q).listDel q.ptr with hqpd
  obtain ⟨h₁, h₂, h₃, h₄⟩ := @dropActiveCpsch_frame (deallocateSdmaQueue dev dqm q)
    { qpd₁ with queue_count := qpd₁.queue_count - 1 } q out.fw
  have hdel : qpd₁.load = (qpd.listDel q.ptr).load := by
    simp [hqpd, Qpd.load, Qpd.listDel]
  rw [counters_deallocateSdmaQueue] at h₁
  constructor
  · rw [h₂, hload, ← h₁]
    show (dropActiveCpsch out.fw (deallocateSdmaQueue dev dqm q)
      { qpd₁ with queue_count := qpd₁.queue_count - 1 } q).2.1.counters + _ = _ + qpd₁.load
    rw [hdel]
    abel
  · rw [h₃, h₄, hlen, hqpd, Qpd.listDel, Qpd.listDel, queues_list_deallocateDoorbell,
      queue_count_deallocateDoorbell]
    push_cast
    ring

end Destroy

section Update

variable {active : MqdActive} {out : Outcome} {dqm dqm' : Manager} {qpd : Qpd} {q : Queue}

theorem counters_prepareUpdate :
    (∀ r dqm', prepareUpdate out dqm q = .error (r, dqm') → dqm'.counters = dqm.counters) ∧
      ∀ dqm', prepareUpdate out dqm q = .ok dqm' → dqm'.counters = dqm.counters :=
  prepareUpdate_keeps rfl counters_unmapQueuesCpsch

/-- The activity counted is the activity changed, but for a queue that owns GWS. -/
theorem countActivity_booked
    (hg : q.properties.is_gws = true → active q.properties = q.properties.is_active) :
    (countActivity dqm q.properties.type q.properties.is_active
        (active q.properties)).counters + q.load = dqm.counters + (q.setActive active).load := by
  have hi := @counters_incrementQueueCount dqm q.properties.type
  have hd := @counters_decrementQueueCount dqm q.properties.type
  unfold countActivity
  cases ha : q.properties.is_active <;> cases hb : active q.properties
  case false.false => simp [Queue.load, Queue.setActive, ha, hb]
  case true.true => simp [Queue.load, Queue.setActive, ha, hb]
  case false.true =>
    have hg : q.properties.is_gws = false := by
      by_contra h
      simpa [ha, hb] using hg (by simpa using h)
    simpa [Queue.load, Queue.setActive, ha, hb, hg, one] using hi
  case true.false =>
    have hg : q.properties.is_gws = false := by
      by_contra h
      simpa [ha, hb] using hg (by simpa using h)
    simpa [Queue.load, Queue.setActive, ha, hb, hg, one] using hd

/-- GWS queues are counted as they are marked. -/
theorem updateGws_booked (m : Bool) :
    (updateGws dqm m q).1.counters + q.load =
        dqm.counters + (updateGws dqm m q).2.2.load ∧
      (updateGws dqm m q).2.2.ptr = q.ptr := by
  unfold updateGws
  cases hw : q.gws <;> cases hg : q.properties.is_gws <;> cases ha : q.properties.is_active <;>
    simp [Queue.load, Manager.counters, hg, ha, one]

/-- **`update_queue`.**  The activity of a queue that owns GWS must not change: only
`active_queue_count` and `active_cp_queue_count` follow it. -/
theorem updateQueue_booked
    (hq : qpd.queues_list.find? (fun x => decide (x.ptr = q.ptr)) = some q)
    (hg : ∀ dqm', prepareUpdate out dqm q = .ok dqm' → q.properties.is_gws = true →
      active q.properties = q.properties.is_active) :
    Booked dqm qpd (updateQueue active out dqm qpd q).2.1
      (updateQueue active out dqm qpd q).2.2 := by
  unfold updateQueue
  split
  · rename_i hp
    exact .of_eq (counters_prepareUpdate.1 _ _ hp) rfl rfl rfl
  rename_i dqm₁ hp
  have hc₁ := counters_prepareUpdate.2 _ hp
  have h₁ := @countActivity_booked active dqm₁ q (hg dqm₁ hp)
  obtain ⟨h₂, hptr⟩ := @updateGws_booked (countActivity dqm₁ q.properties.type
    q.properties.is_active (active q.properties)) (q.setActive active) qpd.mapped_gws_queue
  dsimp only [Queue.setActive] at h₁ h₂ hptr ⊢
  generalize updateGws _ qpd.mapped_gws_queue _ = x at h₂ hptr ⊢
  obtain ⟨-, -, hload, hlen⟩ := @load_of_find qpd q (fun _ => x.2.2) hq
  have hb : ∀ dqm', dqm'.counters = x.1.counters → Booked dqm qpd dqm' { qpd with
      mapped_gws_queue := x.2.1
      queues_list := updateFirst (fun y => decide (y.ptr = x.2.2.ptr)) (fun _ => x.2.2)
        qpd.queues_list } := by
    intro dqm' hd
    rw [hptr]
    constructor
    · simp only [Qpd.load, hd]
      linear_combination h₁ + h₂ - hload + hc₁
    · rw [hlen]
  split
  · exact hb _ counters_mapQueuesCpsch
  · split
    · exact hb _ rfl
    · exact hb _ rfl

end Update

section Loops

variable {out : Outcome} {dqm : Manager} {qpd : Qpd} {q : Queue}

/-- A loop over the queues of a process that books each queue's change. -/
theorem forEach_booked {σ : Type*} {book : σ → Manager} {f : σ → Queue → σ × Queue} {s : σ}
    {qpd' : Qpd} (hf : ∀ q ∈ qpd.queues_list, ∀ s,
      (book (f s q).1).counters + q.load = (book s).counters + (f s q).2.load)
    (hl : qpd'.queues_list = (forEach f s qpd.queues_list).2)
    (hp : qpd'.priv_queue_list = qpd.priv_queue_list) (hn : qpd'.queue_count = qpd.queue_count) :
    Booked (book s) qpd (book (forEach f s qpd.queues_list).1) qpd' := by
  have h := @forEach_sum _ _ _ _ (fun s => (book s).counters) _ _ _ hf s
  constructor
  · rw [Qpd.load, Qpd.load, hl, hp]
    linear_combination h
  · rw [hn, hl, length_forEach]

theorem evictQueueNocpsch_booked (s : LoopState) (q : Queue) :
    (evictQueueNocpsch out s q).1.dqm.counters + q.load =
      s.dqm.counters + (evictQueueNocpsch out s q).2.load := by
  unfold evictQueueNocpsch
  cases ha : q.properties.is_active with
  | false => simp [Queue.setEvicted, Queue.load, ha]
  | true =>
    have h := @counters_decrementQueueCount s.dqm q.properties.type
    cases hg : q.properties.is_gws <;> cases hr : s.dqm.sched_running <;>
      simpa [Queue.setEvicted, Queue.load, decrementQueueCount, Manager.counters, ha, hg, hr, one]
        using h

/-- **`evict_process_queues_nocpsch`.** -/
theorem evictProcessQueuesNocpsch_booked :
    Booked dqm qpd (evictProcessQueuesNocpsch out dqm qpd).2.1
      (evictProcessQueuesNocpsch out dqm qpd).2.2 := by
  unfold evictProcessQueuesNocpsch
  dsimp only
  split
  · exact .of_eq rfl rfl rfl rfl
  · exact @forEach_booked qpd _ LoopState.dqm _ ⟨dqm, qpd.mapped_gws_queue, none⟩ _
      (fun q _ s => evictQueueNocpsch_booked s q) rfl rfl rfl

theorem evictQueueCpsch_booked
    (hg : q.properties.is_active = true → q.properties.is_gws = false) (dqm : Manager) :
    (evictQueueCpsch dqm q).1.counters + q.load =
      dqm.counters + (evictQueueCpsch dqm q).2.load := by
  unfold evictQueueCpsch
  cases ha : q.properties.is_active with
  | false => simp [Queue.setEvicted, Queue.load, ha]
  | true =>
    have h := @counters_decrementQueueCount dqm q.properties.type
    simpa [Queue.setEvicted, Queue.load, ha, hg ha, one] using h

/-- **`evict_process_queues_cpsch`.**  No queue deactivated may own GWS:
`evict_process_queues_nocpsch` counts it, this one does not. -/
theorem evictProcessQueuesCpsch_booked
    (hg : qpd.evicted = 0 → ∀ q ∈ qpd.queues_list, q.properties.is_active = true →
      q.properties.is_gws = false) :
    Booked dqm qpd (evictProcessQueuesCpsch out dqm qpd).2.1
      (evictProcessQueuesCpsch out dqm qpd).2.2 := by
  unfold evictProcessQueuesCpsch
  dsimp only
  split
  · exact .of_eq rfl rfl rfl rfl
  · have hb := @forEach_booked qpd _ id evictQueueCpsch dqm
      { qpd with
        evicted := qpd.evicted + 1, queues_list := (forEach evictQueueCpsch dqm qpd.queues_list).2 }
      (fun q hq s => evictQueueCpsch_booked (hg (by omega) q hq) s) rfl rfl rfl
    exact ⟨by rw [counters_executeQueuesCpsch]; exact hb.counters, hb.count⟩

theorem load_setEvicted (b : Bool) : (q.setEvicted b).load = q.load := rfl

theorem restoreQueueNocpsch_booked
    (hi : (q.setEvicted false).properties.queueIsActive = true → q.properties.is_active = false)
    (s : LoopState) :
    (restoreQueueNocpsch out s q).1.dqm.counters + q.load =
      s.dqm.counters + (restoreQueueNocpsch out s q).2.load := by
  have hi' : (q.setEvicted false).properties.queueIsActive = true →
      (q.setEvicted false).properties.is_active = false := hi
  unfold restoreQueueNocpsch
  rw [← load_setEvicted false]
  generalize q.setEvicted false = q' at hi' ⊢
  cases ha : q'.properties.queueIsActive with
  | false => simp [ha]
  | true =>
    have h := @counters_incrementQueueCount s.dqm q'.properties.type
    cases hg : q'.properties.is_gws <;> cases hr : s.dqm.sched_running <;>
      simpa [Queue.load, incrementQueueCount, Manager.counters, ha, hi' ha, hg, hr,
        one] using h

/-- **`restore_process_queues_nocpsch`.**  No queue activated may be active already. -/
theorem restoreProcessQueuesNocpsch_booked
    (hi : qpd.evicted = 1 → out.mm = true → ∀ q ∈ qpd.queues_list,
      (q.setEvicted false).properties.queueIsActive = true → q.properties.is_active = false) :
    Booked dqm qpd (restoreProcessQueuesNocpsch out dqm qpd).2.1
      (restoreProcessQueuesNocpsch out dqm qpd).2.2 := by
  unfold restoreProcessQueuesNocpsch
  split
  · exact .of_eq rfl rfl rfl rfl
  split
  · exact .of_eq rfl rfl rfl rfl
  split
  · exact .of_eq rfl rfl rfl rfl
  · rename_i hmm
    exact @forEach_booked qpd _ LoopState.dqm _ ⟨dqm, qpd.mapped_gws_queue, none⟩ _
      (fun q hq s => restoreQueueNocpsch_booked (hi (by omega) (by simpa using hmm) q hq) s)
      rfl rfl rfl

theorem restoreQueueCpsch_booked
    (hi : (q.setEvicted false).properties.queueIsActive = true →
      q.properties.is_active = false ∧ q.properties.is_gws = false) (dqm : Manager) :
    (restoreQueueCpsch dqm q).1.counters + q.load =
      dqm.counters + (restoreQueueCpsch dqm q).2.load := by
  have hi' : (q.setEvicted false).properties.queueIsActive = true →
      (q.setEvicted false).properties.is_active = false ∧
        (q.setEvicted false).properties.is_gws = false := hi
  unfold restoreQueueCpsch
  rw [← load_setEvicted false]
  generalize q.setEvicted false = q' at hi' ⊢
  cases ha : q'.properties.queueIsActive with
  | false => simp [ha]
  | true =>
    have h := @counters_incrementQueueCount dqm q'.properties.type
    simpa [Queue.load, ha, hi' ha, one] using h

/-- **`restore_process_queues_cpsch`.**  No queue activated may be active already, or own
GWS. -/
theorem restoreProcessQueuesCpsch_booked
    (hi : qpd.evicted = 1 → ∀ q ∈ qpd.queues_list,
      (q.setEvicted false).properties.queueIsActive = true →
        q.properties.is_active = false ∧ q.properties.is_gws = false) :
    Booked dqm qpd (restoreProcessQueuesCpsch out dqm qpd).2.1
      (restoreProcessQueuesCpsch out dqm qpd).2.2 := by
  unfold restoreProcessQueuesCpsch
  split
  · exact .of_eq rfl rfl rfl rfl
  split
  · exact .of_eq rfl rfl rfl rfl
  · have hb := @forEach_booked qpd _ id restoreQueueCpsch dqm
      { qpd with evicted := 0, queues_list := (forEach restoreQueueCpsch dqm qpd.queues_list).2 }
      (fun q hq s => restoreQueueCpsch_booked (hi (by omega) q hq) s) rfl rfl rfl
    exact ⟨by rw [counters_executeQueuesCpsch]; exact hb.counters, hb.count⟩

end Loops

section Kernel

variable {dev : Dev} {fw : Fw} {dqm : Manager} {qpd : Qpd} {kq : KernelQueue}

/-- **`create_kernel_queue_cpsch`.** -/
theorem createKernelQueueCpsch_booked :
    Booked dqm qpd (createKernelQueueCpsch dev fw dqm qpd kq).2.1
      (createKernelQueueCpsch dev fw dqm qpd kq).2.2 := by
  unfold createKernelQueueCpsch
  split
  · exact .of_eq rfl rfl rfl rfl
  · have h := @counters_incrementQueueCount
      { dqm with total_queue_count := dqm.total_queue_count + 1 } kq.type
    refine ⟨?_, rfl⟩
    rw [counters_executeQueuesCpsch, h]
    simp only [Qpd.load, List.map_cons, List.sum_cons, KernelQueue.load]
    show dqm.counters + _ + _ = _
    abel

/-- **`destroy_kernel_queue_cpsch`.** -/
theorem destroyKernelQueueCpsch_booked
    (hk : qpd.priv_queue_list.find? (fun x => decide (x.ptr = kq.ptr)) = some kq) :
    Booked dqm qpd (destroyKernelQueueCpsch fw dqm qpd kq).1
      (destroyKernelQueueCpsch fw dqm qpd kq).2 := by
  obtain ⟨A, B, hl, he, -⟩ := exists_first hk
  have h := @counters_decrementQueueCount dqm kq.type
  rw [← @counters_executeQueuesCpsch _ fw] at h
  refine ⟨?_, rfl⟩
  unfold destroyKernelQueueCpsch
  simp only [Qpd.load, he]
  rw [hl]
  simp only [List.map_append, List.map_cons, List.sum_append, List.sum_cons]
  rw [← h]
  show (executeQueuesCpsch fw (decrementQueueCount dqm kq.type)).2.counters + _ = _
  rw [show kq.load = (1, one kq.type.isCp, 0) from rfl]
  abel

end Kernel

end Codrive.Dqm
