/-
# What a process holds

The queues of a process, those under creation included, hold what they were given: `Held`.  Each
operation of `src/src/cmdio/linux/opu_device_queue_manager.c` on one process keeps it, whatever
the other processes hold.  Two do only under a condition: `create_queue_nocpsch` of an SDMA queue
asks for a device that has some, and `destroy_queue_nocpsch` for a scheduler that runs.
-/

import Codrive.Dqm.Resources
import Codrive.Dqm.Runs
import Codrive.Dqm.Termination
import Mathlib.Data.Finset.Basic

namespace Codrive.Dqm

open Codrive.Basis

/-- What of the manager is handed out. -/
def Manager.held (dqm : Manager) :
    (SchedPolicy × Finset ℕ × Finset ℕ × (ℕ → Finset ℕ)) × (ℕ → ℕ) := (dqm.pools, dqm.vmid_pasid)

/-- What of a process says what it was given, its vmid apart. -/
def Qpd.held (qpd : Qpd) : List Place × Finset ℕ × ℕ :=
  (qpd.queues_list.map Queue.place, qpd.doorbell_bitmap, qpd.pasid)

/-- The vmid of a process and its owner: without the scheduler, a process has one while it has
queues. -/
def Qpd.vmids (sched_policy : SchedPolicy) (qpd : Qpd) (creating : List Queue) :
    Multiset (ℕ × ℕ) :=
  if sched_policy = .noHws ∧ (creating ++ qpd.queues_list) ≠ [] then {(qpd.vmid, qpd.pasid)} else 0

/-- **What a process holds**: its queues, with those under `creating`, hold what is in use, beside
the `others` and `otherVmids` that other processes hold. -/
structure Held (dev : Dev) (reserved : Finset ℕ) (start dqm : Manager) (qpd : Qpd)
    (creating : List Queue) (others : Multiset Place) (otherVmids : Multiset (ℕ × ℕ)) : Prop where
  policy : dqm.sched_policy = start.sched_policy
  pasid : qpd.pasid ≠ 0
  pools : Pools dev start dqm (places (creating ++ qpd.queues_list) + others)
  doorbells : Doorbells dev reserved qpd (places (creating ++ qpd.queues_list))
  vmids : Vmids dev dqm (qpd.vmids start.sched_policy creating + otherVmids)

section Frames

variable {dev : Dev} {out : Outcome} {fw : Fw} {dqm dqm' : Manager} {qpd : Qpd} {q : Queue}

@[simp] theorem held_mapQueuesCpsch : (mapQueuesCpsch fw dqm).2.held = dqm.held :=
  view_mapQueuesCpsch fun _ _ _ => rfl

@[simp] theorem held_unmapQueuesCpsch : (unmapQueuesCpsch fw dqm).2.held = dqm.held :=
  view_unmapQueuesCpsch fun _ _ _ => rfl

@[simp] theorem held_executeQueuesCpsch : (executeQueuesCpsch fw dqm).2.held = dqm.held :=
  view_executeQueuesCpsch fun _ _ _ => rfl

@[simp] theorem held_dropActive : (dropActive dqm qpd q).1.held = dqm.held := by
  unfold dropActive
  dsimp only
  split
  · split <;> rfl
  · rfl

theorem dropActive_held : (dropActive dqm qpd q).2.held = qpd.held ∧
    (dropActive dqm qpd q).2.vmid = qpd.vmid := by
  unfold dropActive
  dsimp only
  split
  · split <;> exact ⟨rfl, rfl⟩
  · exact ⟨rfl, rfl⟩

@[simp] theorem held_dropActiveCpsch : (dropActiveCpsch fw dqm qpd q).2.1.held = dqm.held := by
  have h := @held_executeQueuesCpsch fw (decrementQueueCount dqm q.properties.type)
  unfold dropActiveCpsch
  dsimp only
  split
  · split
    · exact h
    · exact h
  · rfl

theorem dropActiveCpsch_held : (dropActiveCpsch fw dqm qpd q).2.2.held = qpd.held ∧
    (dropActiveCpsch fw dqm qpd q).2.2.vmid = qpd.vmid := by
  unfold dropActiveCpsch
  dsimp only
  split
  · split <;> exact ⟨rfl, rfl⟩
  · exact ⟨rfl, rfl⟩

theorem prepareUpdate_held :
    (∀ r dqm', prepareUpdate out dqm q = .error (r, dqm') → dqm'.held = dqm.held) ∧
      ∀ dqm', prepareUpdate out dqm q = .ok dqm' → dqm'.held = dqm.held :=
  prepareUpdate_keeps rfl held_unmapQueuesCpsch

@[simp] theorem held_countActivity {type : QueueType} {b c : Bool} :
    (countActivity dqm type b c).held = dqm.held := by
  unfold countActivity
  split_ifs <;> rfl

theorem updateGws_held (m : Bool) : (updateGws dqm m q).1.held = dqm.held ∧
    (updateGws dqm m q).2.2.place = q.place ∧ (updateGws dqm m q).2.2.ptr = q.ptr := by
  unfold updateGws
  dsimp only
  split_ifs <;> exact ⟨rfl, rfl, rfl⟩

end Frames

section Held

variable {dev : Dev} {reserved : Finset ℕ} {start dqm dqm' : Manager} {qpd qpd' : Qpd}
variable {creating : List Queue} {others : Multiset Place} {otherVmids : Multiset (ℕ × ℕ)}
variable {active : MqdActive} {out : Outcome} {fw : Fw} {q : Queue}

theorem places_append (l l' : List Queue) : places (l ++ l') = places l + places l' := by
  simp [places]

theorem places_cons (q : Queue) (l : List Queue) : places (q :: l) = q.place ::ₘ places l := rfl

/-- A queue found, and the others. -/
theorem places_of_find {ptr : ℕ}
    (h : qpd.queues_list.find? (fun x => decide (x.ptr = ptr)) = some q) :
    places qpd.queues_list = q.place ::ₘ places (qpd.listDel ptr).queues_list := by
  obtain ⟨A, B, hl, he, -⟩ := exists_first h
  rw [Qpd.listDel, he, hl, places_append, places_append, places_cons, Multiset.add_cons]

/-- Lists with the same places are empty together. -/
theorem ne_nil_of_held (h : qpd'.held = qpd.held) :
    creating ++ qpd'.queues_list ≠ [] ↔ creating ++ qpd.queues_list ≠ [] := by
  have hmap : qpd'.queues_list.map Queue.place = qpd.queues_list.map Queue.place :=
    congrArg Prod.fst h
  have hlen := congrArg List.length hmap
  simp only [List.length_map] at hlen
  rw [← List.length_pos_iff, ← List.length_pos_iff, List.length_append, List.length_append, hlen]

/-- **A call that hands nothing out and takes nothing back keeps what a process holds.** -/
theorem Held.of_eq (h : Held dev reserved start dqm qpd creating others otherVmids)
    (hd : dqm'.held = dqm.held) (hq : qpd'.held = qpd.held)
    (hv : creating ++ qpd.queues_list ≠ [] → qpd'.vmid = qpd.vmid) :
    Held dev reserved start dqm' qpd' creating others otherVmids := by
  have hpools : dqm'.pools = dqm.pools := congrArg Prod.fst hd
  have hbitmap : qpd'.doorbell_bitmap = qpd.doorbell_bitmap := congrArg (fun x => x.2.1) hq
  have hpasid : qpd'.pasid = qpd.pasid := congrArg (fun x => x.2.2) hq
  have hplaces : places (creating ++ qpd'.queues_list) = places (creating ++ qpd.queues_list) := by
    rw [places_append, places_append]
    exact congrArg
      (fun x : List Place × Finset ℕ × ℕ => places creating + (x.1 : Multiset Place)) hq
  have hvmids : qpd'.vmids start.sched_policy creating = qpd.vmids start.sched_policy creating := by
    unfold Qpd.vmids
    refine ite_congr (propext (and_congr_right fun _ => ne_nil_of_held hq)) (fun hc => ?_)
      fun _ => rfl
    rw [hv hc.2, hpasid]
  refine ⟨?_, hpasid ▸ h.pasid, ?_, ?_, ?_⟩
  · exact (congrArg Prod.fst hpools).trans h.policy
  · rw [hplaces]
    exact h.pools.of_eq hpools
  · rw [hplaces]
    exact h.doorbells.of_eq hbitmap
  · rw [hvmids]
    exact h.vmids.of_eq (congrArg Prod.snd hd)

/-! ### Updates, evictions, restores, kernel queues -/

theorem Held.update (h : Held dev reserved start dqm qpd creating others otherVmids)
    (hq : qpd.queues_list.find? (fun x => decide (x.ptr = q.ptr)) = some q) :
    Held dev reserved start (updateQueue active out dqm qpd q).2.1
      (updateQueue active out dqm qpd q).2.2 creating others otherVmids := by
  obtain ⟨herror, hok⟩ := @prepareUpdate_held out dqm q
  unfold updateQueue
  split
  · rename_i r dqm₁ hp
    exact h.of_eq (herror r dqm₁ hp) rfl fun _ => rfl
  rename_i dqm₁ hp
  obtain ⟨hheld, hplace, hptr⟩ := @updateGws_held (countActivity dqm₁ q.properties.type
    q.properties.is_active (q.setActive active).properties.is_active) (q.setActive active)
    qpd.mapped_gws_queue
  rw [held_countActivity, hok dqm₁ hp] at hheld
  dsimp only [Queue.setActive] at hheld hplace hptr ⊢
  generalize updateGws _ qpd.mapped_gws_queue _ = x at hheld hplace hptr ⊢
  have hlist : (updateFirst (fun y : Queue => decide (y.ptr = x.2.2.ptr)) (fun _ => x.2.2)
      qpd.queues_list).map Queue.place = qpd.queues_list.map Queue.place := by
    obtain ⟨A, B, hl, -, hf⟩ := exists_first hq
    rw [hptr]
    show (updateFirst (fun y : Queue => decide (y.ptr = q.ptr)) _ _).map _ = _
    rw [hf, hl, List.map_append, List.map_append, List.map_cons, List.map_cons, hplace]
    rfl
  have hqpd : ({ qpd with
      mapped_gws_queue := x.2.1
      queues_list := updateFirst (fun y : Queue => decide (y.ptr = x.2.2.ptr)) (fun _ => x.2.2)
        qpd.queues_list } : Qpd).held = qpd.held := by
    simp only [Qpd.held, hlist]
  split
  · exact h.of_eq (held_mapQueuesCpsch.trans hheld) hqpd fun _ => rfl
  · split
    · exact h.of_eq hheld hqpd fun _ => rfl
    · exact h.of_eq hheld hqpd fun _ => rfl

theorem Held.evict (h : Held dev reserved start dqm qpd creating others otherVmids) :
    Held dev reserved start (evictProcessQueues out dqm qpd).2.1
      (evictProcessQueues out dqm qpd).2.2 creating others otherVmids := by
  obtain ⟨hd, _, _, _, hq, hmap⟩ := view_evictProcessQueues (g := Manager.held)
    (f := Queue.place) (fun _ _ _ _ _ _ => rfl) fun _ _ _ => rfl
  exact h.of_eq hd (by simp only [hq, Qpd.held, hmap]) fun _ => (congrArg Qpd.vmid hq :)

theorem Held.restore (h : Held dev reserved start dqm qpd creating others otherVmids) :
    Held dev reserved start (restoreProcessQueues out dqm qpd).2.1
      (restoreProcessQueues out dqm qpd).2.2 creating others otherVmids := by
  obtain ⟨hd, _, _, _, hq, hmap⟩ := view_restoreProcessQueues (g := Manager.held)
    (f := Queue.place) (fun _ _ _ _ _ _ => rfl) fun _ _ _ => rfl
  exact h.of_eq hd (by simp only [hq, Qpd.held, hmap]) fun _ => (congrArg Qpd.vmid hq :)

theorem Held.createKernel {kq : KernelQueue}
    (h : Held dev reserved start dqm qpd creating others otherVmids) :
    Held dev reserved start (createKernelQueueCpsch dev fw dqm qpd kq).2.1
      (createKernelQueueCpsch dev fw dqm qpd kq).2.2 creating others otherVmids := by
  unfold createKernelQueueCpsch
  split
  · exact h
  · exact h.of_eq held_executeQueuesCpsch rfl fun _ => rfl

theorem Held.destroyKernel {kq : KernelQueue}
    (h : Held dev reserved start dqm qpd creating others otherVmids) :
    Held dev reserved start (destroyKernelQueueCpsch fw dqm qpd kq).1
      (destroyKernelQueueCpsch fw dqm qpd kq).2 creating others otherVmids := by
  refine h.of_eq ?_ rfl fun _ => rfl
  exact @held_executeQueuesCpsch fw (decrementQueueCount dqm kq.type)

/-! ### Creating a queue -/

theorem vmids_of_ne {sched_policy : SchedPolicy} (h : sched_policy ≠ .noHws) :
    qpd.vmids sched_policy creating = 0 := if_neg fun hc => h hc.1

theorem vmids_of_ne_nil (h : creating ++ qpd.queues_list ≠ []) :
    qpd.vmids .noHws creating = {(qpd.vmid, qpd.pasid)} := if_pos ⟨rfl, h⟩

theorem vmids_of_nil (h : creating ++ qpd.queues_list = []) {sched_policy : SchedPolicy} :
    qpd.vmids sched_policy creating = 0 := if_neg fun hc => hc.2 h

/-- **`allocate_vmid`, for the first queue of a process**, and what it leaves. -/
theorem allocateVmidIfEmpty_spec {q' : Queue}
    (ha : allocateVmidIfEmpty dev dqm qpd q = .ok (dqm', qpd', q')) :
    dqm'.pools = dqm.pools ∧ qpd' = { qpd with vmid := qpd'.vmid } ∧
      q'.properties.type = q.properties.type ∧
      (qpd.queues_list ≠ [] → dqm'.vmid_pasid = dqm.vmid_pasid ∧ qpd'.vmid = qpd.vmid) ∧
      (qpd.queues_list = [] → dev.IsVmid qpd'.vmid ∧ dqm.vmid_pasid qpd'.vmid = 0 ∧
        dqm'.vmid_pasid = Function.update dqm.vmid_pasid qpd'.vmid qpd.pasid) := by
  unfold allocateVmidIfEmpty at ha
  split at ha
  · rename_i hnil
    obtain ⟨vmid, hv, h0, he⟩ := allocateVmid_eq ha
    cases he
    exact ⟨rfl, rfl, rfl, fun hne => absurd (List.isEmpty_iff.1 hnil) hne, fun _ => ⟨hv, h0, rfl⟩⟩
  · rename_i hne
    cases ha
    exact ⟨rfl, rfl, rfl, fun _ => ⟨rfl, rfl⟩, fun hnil => absurd (List.isEmpty_iff.2 hnil) hne⟩

/-- The process has a vmid then. -/
theorem Vmids.allocateIfEmpty {q' : Queue}
    (h : Vmids dev dqm (qpd.vmids .noHws [] + otherVmids)) (hp : qpd.pasid ≠ 0)
    (ha : allocateVmidIfEmpty dev dqm qpd q = .ok (dqm', qpd', q')) :
    Vmids dev dqm' ((qpd'.vmid, qpd.pasid) ::ₘ otherVmids) := by
  obtain ⟨-, -, -, hlisted, hempty⟩ := allocateVmidIfEmpty_spec ha
  by_cases hnil : qpd.queues_list = []
  · obtain ⟨hv, h0, he⟩ := hempty hnil
    rw [vmids_of_nil (by simpa using hnil), Multiset.zero_add] at h
    exact (h.allocate hp hv h0).of_eq he
  · obtain ⟨he, hvmid⟩ := hlisted hnil
    rw [vmids_of_ne_nil (by simpa using hnil)] at h
    rw [hvmid]
    exact h.of_eq he

/-- A process without queues gives its vmid back. -/
theorem Vmids.deallocateIfEmpty (h : Vmids dev dqm ((qpd.vmid, qpd.pasid) ::ₘ otherVmids)) :
    Vmids dev (deallocateVmidIfEmpty dqm qpd).1
      ((deallocateVmidIfEmpty dqm qpd).2.vmids .noHws [] + otherVmids) := by
  unfold deallocateVmidIfEmpty
  split
  · rename_i hnil
    rw [vmids_of_nil (by simpa [Dqm.deallocateVmid] using hnil), Multiset.zero_add]
    exact h.deallocate
  · rename_i hne
    rw [vmids_of_ne_nil (by simpa using hne)]
    exact h

theorem deallocateVmidIfEmpty_frame :
    (deallocateVmidIfEmpty dqm qpd).1.pools = dqm.pools ∧
      (deallocateVmidIfEmpty dqm qpd).2.held = qpd.held := by
  obtain ⟨_, _, h⟩ := deallocateVmidIfEmpty_changes dqm qpd
  rw [h]
  exact ⟨rfl, rfl⟩

theorem vmid_pasid_allocateSlot {q' : Queue} (ha : allocateSlot dev dqm q = .ok (dqm', q')) :
    dqm'.vmid_pasid = dqm.vmid_pasid := by
  obtain ⟨_, _, _, _, _, _, _, _, _, rfl, rfl⟩ := allocateSlot_changes ha
  rfl

theorem deallocateSdmaQueue_frame :
    (deallocateSdmaQueue dev dqm q).vmid_pasid = dqm.vmid_pasid ∧
      (deallocateSdmaQueue dev dqm q).sched_policy = dqm.sched_policy := by
  obtain ⟨_, _, h⟩ := deallocateSdmaQueue_changes dev dqm q
  rw [h]
  exact ⟨rfl, rfl⟩

theorem deallocateSlot_frame : (deallocateSlot dev dqm q).vmid_pasid = dqm.vmid_pasid ∧
    (deallocateSlot dev dqm q).sched_policy = dqm.sched_policy := by
  obtain ⟨_, _, _, h⟩ := deallocateSlot_changes dev dqm q
  rw [h]
  exact ⟨rfl, rfl⟩

theorem deallocateDoorbell_frame : (deallocateDoorbell dev qpd q).queues_list = qpd.queues_list ∧
    (deallocateDoorbell dev qpd q).vmid = qpd.vmid ∧
    (deallocateDoorbell dev qpd q).pasid = qpd.pasid := by
  obtain ⟨_, h⟩ := deallocateDoorbell_changes dev qpd q
  rw [h]
  exact ⟨rfl, rfl, rfl⟩

/-- **`create_queue_nocpsch`, up to where it gives the lock up**, takes what the queue gets. -/
theorem Held.createBeginNocpsch {q' : Queue}
    (h : Held dev reserved start dqm qpd [] others otherVmids)
    (hp : start.sched_policy = .noHws) (hu : q.properties.type.isUser = true)
    (hstart : StartsRight dev start q.properties.type)
    (hb : createQueueNocpschBegin dev dqm qpd q = (.ok q', dqm', qpd')) :
    Held dev reserved start dqm' qpd' [q'] others otherVmids := by
  obtain ⟨dqm₁, qpd₁, q₁, q₂, hvmid, hslot, hdoorbell⟩ := createQueueNocpschBegin_ok hb
  obtain ⟨hpools, hqpd, htype, -, -⟩ := allocateVmidIfEmpty_spec hvmid
  have hv := Vmids.allocateIfEmpty (hp ▸ h.vmids) h.pasid hvmid
  have hd₁ : Doorbells dev reserved qpd₁ _ := h.doorbells.of_eq (by rw [hqpd])
  obtain ⟨hd, hq₃, hqpd₂⟩ := hd₁.allocate hdoorbell
  have hty : q₁.properties.type = q.properties.type := htype
  obtain ⟨hpl, -, hpol⟩ := (h.pools.of_eq hpools).allocateSlot hslot
    (show q₁.properties.type.isUser = true by rw [hty]; exact hu)
    (show StartsRight dev start q₁.properties.type by rw [hty]; exact hstart) q'.doorbell_id
  rw [← hq₃] at hpl
  have hlist : qpd'.queues_list = qpd.queues_list := by rw [hqpd₂, hqpd]
  have hpasid : qpd'.pasid = qpd.pasid := by rw [hqpd₂, hqpd]
  have hvm : qpd'.vmid = qpd₁.vmid := by rw [hqpd₂]
  refine ⟨?_, hpasid ▸ h.pasid, ?_, ?_, ?_⟩
  · exact hpol.trans ((congrArg Prod.fst hpools).trans h.policy)
  · rw [List.singleton_append, hlist, places_cons, Multiset.cons_add]
    exact hpl
  · rw [List.singleton_append, hlist, places_cons]
    exact hd
  · rw [hp, vmids_of_ne_nil (by simp), hvm, hpasid]
    exact hv.of_eq (vmid_pasid_allocateSlot hslot)

/-- **What the error labels of `create_queue_nocpsch` give back** is what the queue was given. -/
theorem Held.undoCreate (h : Held dev reserved start dqm qpd [q] others otherVmids)
    (hp : start.sched_policy = .noHws) :
    Held dev reserved start (undoCreateNocpsch dev dqm qpd q).1
      (undoCreateNocpsch dev dqm qpd q).2 [] others otherVmids := by
  obtain ⟨hlist, hvmid, hpasid⟩ := @deallocateDoorbell_frame dev qpd q
  obtain ⟨hpools, hheld⟩ := @deallocateVmidIfEmpty_frame (deallocateSlot dev dqm q)
    (deallocateDoorbell dev qpd q)
  have hlist' : (undoCreateNocpsch dev dqm qpd q).2.queues_list = qpd.queues_list :=
    queues_list_deallocateVmidIfEmpty.trans hlist
  have hbitmap := congrArg (fun x : List Place × Finset ℕ × ℕ => x.2.1) hheld
  have hpasid' := congrArg (fun x : List Place × Finset ℕ × ℕ => x.2.2) hheld
  have hgiven := h.pools
  have hdoorbells := h.doorbells
  rw [List.singleton_append, places_cons, Multiset.cons_add] at hgiven
  rw [List.singleton_append, places_cons] at hdoorbells
  refine ⟨?_, ?_, ?_, ?_, ?_⟩
  · exact (congrArg Prod.fst hpools).trans (deallocateSlot_frame.2.trans h.policy)
  · exact fun h0 => h.pasid ((hpasid'.trans hpasid).symm.trans h0)
  · rw [List.nil_append, hlist']
    exact hgiven.deallocateSlot.of_eq hpools
  · rw [List.nil_append, hlist']
    exact hdoorbells.deallocate.of_eq hbitmap
  · have hv := h.vmids
    rw [hp, vmids_of_ne_nil (by simp)] at hv
    rw [hp]
    refine Vmids.deallocateIfEmpty ?_
    rw [hvmid, hpasid]
    exact hv.of_eq deallocateSlot_frame.1

/-- A queue under creation is listed with what it was given. -/
theorem Held.list (h : Held dev reserved start dqm qpd [q] others otherVmids) (q' : Queue)
    (hplace : q'.place = q.place) (hd : dqm'.held = dqm.held)
    (hlist : qpd'.queues_list = q' :: qpd.queues_list)
    (hbitmap : qpd'.doorbell_bitmap = qpd.doorbell_bitmap) (hpasid : qpd'.pasid = qpd.pasid)
    (hvmid : qpd'.vmid = qpd.vmid) :
    Held dev reserved start dqm' qpd' [] others otherVmids := by
  have hpools : dqm'.pools = dqm.pools := congrArg Prod.fst hd
  have hplaces : places ([] ++ qpd'.queues_list) = places ([q] ++ qpd.queues_list) := by
    rw [List.nil_append, hlist, List.singleton_append, places_cons, places_cons, hplace]
  have hvmids : qpd'.vmids start.sched_policy [] = qpd.vmids start.sched_policy [q] := by
    unfold Qpd.vmids
    rw [hvmid, hpasid, hlist]
    exact ite_congr (propext (and_congr_right fun _ => by simp)) (fun _ => rfl) fun _ => rfl
  refine ⟨(congrArg Prod.fst hpools).trans h.policy, hpasid ▸ h.pasid, ?_, ?_, ?_⟩
  · rw [hplaces]
    exact h.pools.of_eq hpools
  · rw [hplaces]
    exact h.doorbells.of_eq hbitmap
  · rw [hvmids]
    exact h.vmids.of_eq (congrArg Prod.snd hd)

theorem held_addQueueToList : (addQueueToList dqm qpd q).1.held = dqm.held := by
  unfold addQueueToList
  dsimp only
  split <;> rfl

/-- **The rest of `create_queue`** lists the queue, or gives back what it was given. -/
theorem Held.createEnd (h : Held dev reserved start dqm qpd [q] others otherVmids) :
    Held dev reserved start (createEnd dev active out dqm qpd q).2.1
      (createEnd dev active out dqm qpd q).2.2 [] others otherVmids := by
  unfold Dqm.createEnd
  split
  · rename_i hp
    have hundo := h.undoCreate (h.policy ▸ hp)
    have hlist : Held dev reserved start (addQueueToList dqm qpd (q.setActive active)).1
        (addQueueToList dqm qpd (q.setActive active)).2 [] others otherVmids :=
      h.list (q.setActive active) rfl held_addQueueToList rfl rfl rfl rfl
    unfold createQueueNocpschEnd
    split
    · exact hundo
    · dsimp only
      split
      · split
        · exact hundo
        · exact hlist
      · exact hlist
  · unfold createQueueCpschEnd
    dsimp only
    refine h.list ((q.setEvicted (qpd.evicted ≠ 0)).setActive active) rfl ?_ rfl rfl rfl rfl
    split
    · exact @held_executeQueuesCpsch out.fw (incrementQueueCount dqm q.properties.type)
    · rfl

theorem vmid_pasid_allocateSdmaQueue {q' : Queue}
    (ha : allocateSdmaQueue dev dqm q = .ok (dqm', q')) : dqm'.vmid_pasid = dqm.vmid_pasid := by
  unfold allocateSdmaQueue at ha
  split at ha
  · split at ha <;> cases ha
    rfl
  · split at ha <;> cases ha
    rfl
  · cases ha
    rfl

/-- **`create_queue_cpsch`, before it takes the lock**, takes what the queue gets. -/
theorem Held.createBeginCpsch {q' : Queue}
    (h : Held dev reserved start dqm qpd [] others otherVmids)
    (hp : start.sched_policy ≠ .noHws) (hu : q.properties.type.isUser = true)
    (hstart : StartsRight dev start q.properties.type)
    (hb : createQueueCpschBegin dev out dqm qpd q = (.ok q', dqm', qpd')) :
    Held dev reserved start dqm' qpd' [q'] others otherVmids := by
  unfold createQueueCpschBegin at hb
  split at hb
  · cases hb
  split at hb
  · cases hb
  rename_i dqm₁ q₁ hsdma
  split at hb
  · cases hb
  rename_i qpd₁ q₂ hdoorbell
  split at hb
  · cases hb
  cases hb
  obtain ⟨hd, hq', hqpd'⟩ := h.doorbells.allocate hdoorbell
  obtain ⟨hpl, -, hpol⟩ := h.pools.allocateSdmaQueue hsdma hu hstart
    (fun hno => absurd (h.policy ▸ hno) hp) q'.doorbell_id
  rw [← hq'] at hpl
  have hlist : qpd'.queues_list = qpd.queues_list := by rw [hqpd']
  have hpasid : qpd'.pasid = qpd.pasid := by rw [hqpd']
  refine ⟨hpol.trans h.policy, hpasid ▸ h.pasid, ?_, ?_, ?_⟩
  · rw [List.singleton_append, hlist, places_cons, Multiset.cons_add]
    exact hpl
  · rw [List.singleton_append, hlist, places_cons]
    exact hd
  · have hv := h.vmids
    rw [vmids_of_ne hp] at hv ⊢
    exact hv.of_eq (vmid_pasid_allocateSdmaQueue hsdma)

/-- **The first part of `create_queue`** takes what the queue gets. -/
theorem Held.createBegin {q' : Queue} (h : Held dev reserved start dqm qpd [] others otherVmids)
    (hu : q.properties.type.isUser = true) (hstart : StartsRight dev start q.properties.type)
    (hb : createBegin dev out dqm qpd q = (.ok q', dqm', qpd')) :
    Held dev reserved start dqm' qpd' [q'] others otherVmids := by
  unfold Dqm.createBegin at hb
  split at hb
  · rename_i hp
    exact h.createBeginNocpsch (h.policy ▸ hp) hu hstart hb
  · rename_i hp
    exact h.createBeginCpsch (h.policy ▸ hp) hu hstart hb

/-! ### A creation that fails -/

/-- What a creation that fails leaves as it was. -/
structure Unchanged (dqm : Manager) (qpd : Qpd) (dqm' : Manager) (qpd' : Qpd) : Prop where
  manager : dqm'.held = dqm.held
  process : qpd'.held = qpd.held
  vmid : qpd.queues_list ≠ [] → qpd'.vmid = qpd.vmid

theorem Unchanged.refl : Unchanged dqm qpd dqm qpd := ⟨rfl, rfl, fun _ => rfl⟩

/-- An SDMA queue given back at once. -/
theorem deallocate_allocateSdmaQueue {given : Multiset Place} {q' : Queue}
    (h : Pools dev start dqm given) (hstart : StartsRight dev start q.properties.type)
    (ha : allocateSdmaQueue dev dqm q = .ok (dqm', q')) :
    (deallocateSdmaQueue dev dqm' q').held = dqm.held := by
  unfold allocateSdmaQueue at ha
  split at ha
  · rename_i ht
    split at ha
    · cases ha
    rename_i b hb
    cases ha
    have hmem := lowestBit_mem hb
    have hlt := hstart.1 ht b ((h.sdma.free_iff b).1 hmem).1
    unfold deallocateSdmaQueue
    simp only [ht, ge_iff_le, Nat.not_le.2 hlt, if_false]
    simp only [Manager.held, Manager.pools, Finset.insert_erase hmem]
  · rename_i ht
    split at ha
    · cases ha
    rename_i b hb
    cases ha
    have hmem := lowestBit_mem hb
    have hlt := hstart.2 ht b ((h.xgmi.free_iff b).1 hmem).1
    unfold deallocateSdmaQueue
    simp only [ht, ge_iff_le, Nat.not_le.2 hlt, if_false]
    simp only [Manager.held, Manager.pools, Finset.insert_erase hmem]
  · rename_i hs hx
    cases ha
    unfold deallocateSdmaQueue
    split
    · contradiction
    · contradiction
    · rfl

/-- A hardware slot given back at once. -/
theorem deallocate_allocateHqd {q' : Queue} (ha : allocateHqd dev dqm q = .ok (dqm', q')) :
    (deallocateHqd dqm' q').held = dqm.held := by
  unfold allocateHqd at ha
  dsimp only at ha
  split at ha
  · cases ha
  rename_i pipe bit hslot
  cases ha
  have hmem : bit ∈ dqm.allocated_queues pipe := by
    obtain ⟨i, -, hi⟩ := List.exists_of_findSome?_eq_some hslot
    split at hi
    · obtain ⟨b, hb, hpair⟩ := Option.map_eq_some_iff.1 hi
      cases hpair
      exact lowestBit_mem hb
    · cases hi
  simp only [deallocateHqd, Manager.held, Manager.pools, Function.update_self,
    Function.update_idem]
  rw [Finset.insert_erase hmem, Function.update_eq_self]

/-- The slot of a queue given back at once. -/
theorem deallocate_allocateSlot {given : Multiset Place} {q' : Queue}
    (ha : allocateSlot dev dqm q = .ok (dqm', q')) (h : Pools dev start dqm given)
    (hstart : StartsRight dev start q.properties.type) :
    (deallocateSlot dev dqm' q').held = dqm.held ∧ q'.properties.type = q.properties.type := by
  have htype : q'.properties.type = q.properties.type := by
    obtain ⟨_, _, _, _, _, _, _, _, _, -, rfl⟩ := allocateSlot_changes ha
    rfl
  refine ⟨?_, htype⟩
  unfold deallocateSlot
  rw [htype]
  unfold allocateSlot at ha
  split at ha
  · rw [if_pos (by assumption)]
    exact deallocate_allocateHqd ha
  · rw [if_neg (by assumption)]
    exact deallocate_allocateSdmaQueue h hstart ha

/-- A doorbell given back at once. -/
theorem deallocate_allocateDoorbell {q' : Queue}
    (ha : allocateDoorbell dev qpd q = .ok (qpd', q')) :
    (deallocateDoorbell dev qpd' q').held = qpd.held ∧
      (deallocateDoorbell dev qpd' q').vmid = qpd.vmid := by
  unfold allocateDoorbell at ha
  unfold deallocateDoorbell
  split at ha
  · rename_i hsoc
    cases ha
    simp [hsoc]
  split at ha
  · rename_i hsdma
    cases ha
    simp [hsdma]
  rename_i hsoc hsdma
  split at ha
  · cases ha
  rename_i found hfound
  cases ha
  have hclear : found ∉ qpd.doorbell_bitmap := by simpa using List.find?_some hfound
  simp only [Bool.not_eq_true] at hsoc hsdma
  simp [hsoc, hsdma, Qpd.held, Finset.erase_insert hclear]

/-- The vmid of a process without queues given back at once, whatever was done to the pools. -/
theorem deallocate_allocateVmidIfEmpty {q' : Queue} {dqm₂ : Manager} {qpd₂ : Qpd}
    (ha : allocateVmidIfEmpty dev dqm qpd q = .ok (dqm', qpd', q'))
    (hd : dqm₂.held = dqm'.held) (hq : qpd₂.held = qpd'.held) (hv : qpd₂.vmid = qpd'.vmid) :
    Unchanged dqm qpd (deallocateVmidIfEmpty dqm₂ qpd₂).1 (deallocateVmidIfEmpty dqm₂ qpd₂).2 := by
  obtain ⟨hpools, hqpd, -, hlisted, hempty⟩ := allocateVmidIfEmpty_spec ha
  obtain ⟨hpools₂, hheld₂⟩ := @deallocateVmidIfEmpty_frame dqm₂ qpd₂
  have hpools' : (deallocateVmidIfEmpty dqm₂ qpd₂).1.pools = dqm.pools :=
    hpools₂.trans ((congrArg Prod.fst hd).trans hpools)
  have hqpd' : qpd'.held = qpd.held := by rw [hqpd]; rfl
  have hvm₂ : dqm₂.vmid_pasid = dqm'.vmid_pasid := congrArg Prod.snd hd
  have hnil : qpd₂.queues_list.isEmpty = qpd.queues_list.isEmpty := by
    have hlen := congrArg (fun x : List Place × Finset ℕ × ℕ => x.1.isEmpty) (hq.trans hqpd')
    simpa [Qpd.held] using hlen
  refine ⟨Prod.ext hpools' ?_, hheld₂.trans (hq.trans hqpd'), fun hne => ?_⟩
  · show (deallocateVmidIfEmpty dqm₂ qpd₂).1.vmid_pasid = dqm.vmid_pasid
    unfold deallocateVmidIfEmpty
    rw [hnil]
    split
    · rename_i hemp
      obtain ⟨-, h0, he⟩ := hempty (List.isEmpty_iff.1 hemp)
      show Function.update dqm₂.vmid_pasid qpd₂.vmid 0 = dqm.vmid_pasid
      rw [hvm₂, he, hv, Function.update_idem, ← h0, Function.update_eq_self]
    · rename_i hne
      exact hvm₂.trans (hlisted fun h => hne (List.isEmpty_iff.2 h)).1
  · unfold deallocateVmidIfEmpty
    rw [hnil, if_neg fun h => hne (List.isEmpty_iff.1 h)]
    exact hv.trans (hlisted hne).2

/-- What `create_queue_nocpsch` was given up to where it gives the lock up, given back at once. -/
theorem undo_createQueueNocpschBegin {q' : Queue}
    (h : Held dev reserved start dqm qpd [] others otherVmids)
    (hstart : StartsRight dev start q.properties.type)
    (hb : createQueueNocpschBegin dev dqm qpd q = (.ok q', dqm', qpd')) :
    Unchanged dqm qpd (undoCreateNocpsch dev dqm' qpd' q').1
      (undoCreateNocpsch dev dqm' qpd' q').2 := by
  obtain ⟨dqm₁, qpd₁, q₁, q₂, hvmid, hslot, hdoorbell⟩ := createQueueNocpschBegin_ok hb
  obtain ⟨hpools, -, htype, -, -⟩ := allocateVmidIfEmpty_spec hvmid
  obtain ⟨hback, -⟩ := deallocate_allocateSlot hslot (h.pools.of_eq hpools)
    (show StartsRight dev start q₁.properties.type by rw [htype]; exact hstart)
  obtain ⟨hdback, hvback⟩ := deallocate_allocateDoorbell hdoorbell
  have hd₁ : Doorbells dev reserved qpd₁ _ := h.doorbells.of_eq (by
    rw [(allocateVmidIfEmpty_spec hvmid).2.1])
  have hq₃ := (hd₁.allocate hdoorbell).2.1
  refine deallocate_allocateVmidIfEmpty hvmid ?_ hdback hvback
  rw [hq₃]
  exact hback

/-- **The first part of a creation that fails leaves everything as it was.** -/
theorem unchanged_createBegin {e : Errno}
    (h : Held dev reserved start dqm qpd [] others otherVmids)
    (hstart : StartsRight dev start q.properties.type)
    (hb : createBegin dev out dqm qpd q = (.error e, dqm', qpd')) :
    Unchanged dqm qpd dqm' qpd' := by
  unfold Dqm.createBegin at hb
  split at hb
  · unfold createQueueNocpschBegin at hb
    split at hb
    · cases hb
      exact .refl
    split at hb
    · cases hb
      exact .refl
    rename_i dqm₁ qpd₁ q₁ hvmid
    obtain ⟨hpools, -, htype, -, -⟩ := allocateVmidIfEmpty_spec hvmid
    dsimp only at hb
    split at hb
    · have hback := deallocate_allocateVmidIfEmpty hvmid rfl rfl rfl
      have hpair : deallocateVmidIfEmpty dqm₁ qpd₁ = (dqm', qpd') := congrArg Prod.snd hb
      rwa [hpair] at hback
    rename_i dqm₂ q₂ hslot
    split at hb
    · obtain ⟨hslots, -⟩ := deallocate_allocateSlot hslot (h.pools.of_eq hpools)
        (show StartsRight dev start q₁.properties.type by rw [htype]; exact hstart)
      have hback := deallocate_allocateVmidIfEmpty hvmid hslots rfl rfl
      have hpair : deallocateVmidIfEmpty (deallocateSlot dev dqm₂ q₂) qpd₁ = (dqm', qpd') :=
        congrArg Prod.snd hb
      rwa [hpair] at hback
    · cases hb
  · unfold createQueueCpschBegin at hb
    split at hb
    · cases hb
      exact .refl
    split at hb
    · cases hb
      exact .refl
    rename_i dqm₁ q₁ hsdma
    have hback := deallocate_allocateSdmaQueue h.pools hstart hsdma
    split at hb
    · cases hb
      exact ⟨hback, rfl, fun _ => rfl⟩
    rename_i qpd₁ q₂ hdoorbell
    split at hb
    · cases hb
      obtain ⟨hdback, hvback⟩ := deallocate_allocateDoorbell hdoorbell
      refine ⟨?_, hdback, fun _ => hvback⟩
      rw [(h.doorbells.allocate hdoorbell).2.1]
      exact hback
    · cases hb

/-- **And so does the rest of one that fails.** -/
theorem unchanged_createEnd {out' : Outcome} {q' : Queue} {e : Errno}
    (h : Held dev reserved start dqm qpd [] others otherVmids)
    (hu : q.properties.type.isUser = true) (hstart : StartsRight dev start q.properties.type)
    (hb : createBegin dev out dqm qpd q = (.ok q', dqm', qpd'))
    (he : (createEnd dev active out' dqm' qpd' q').1 = some e) :
    Unchanged dqm qpd (createEnd dev active out' dqm' qpd' q').2.1
      (createEnd dev active out' dqm' qpd' q').2.2 := by
  have hpolicy := (h.createBegin hu hstart hb).policy.trans h.policy.symm
  by_cases hp : dqm.sched_policy = .noHws
  · unfold Dqm.createBegin at hb
    rw [if_pos hp] at hb
    have hundo := undo_createQueueNocpschBegin h hstart hb
    unfold Dqm.createEnd createQueueNocpschEnd at he ⊢
    rw [if_pos (hpolicy.trans hp)] at he ⊢
    -- the call fails at one of its error labels, or lists the queue
    split at he
    · rename_i hmqd
      rw [if_pos hmqd]
      exact hundo
    rename_i hmqd
    rw [if_neg hmqd]
    dsimp only at he ⊢
    split at he
    · rename_i hload
      rw [if_pos hload]
      split at he
      · exact hundo
      · cases he
    · cases he
  · unfold Dqm.createEnd createQueueCpschEnd at he
    rw [if_neg (hpolicy ▸ hp)] at he
    cases he

/-! ### Destroying a queue -/

theorem unlistNocpsch_held (r : Option Errno) :
    (unlistNocpsch r dqm qpd q).1 = (deallocateVmidIfEmpty dqm (qpd.listDel q.ptr)).1 ∧
      (unlistNocpsch r dqm qpd q).2.held =
        (deallocateVmidIfEmpty dqm (qpd.listDel q.ptr)).2.held ∧
      (unlistNocpsch r dqm qpd q).2.vmid =
        (deallocateVmidIfEmpty dqm (qpd.listDel q.ptr)).2.vmid := by
  unfold unlistNocpsch deallocateVmidIfEmpty
  cases hnil : (qpd.listDel q.ptr).queues_list.isEmpty with
  | true =>
    simp only [Qpd.listDel] at hnil
    simp only [Qpd.listDel, hnil, if_true]
    exact ⟨rfl, rfl, rfl⟩
  | false =>
    simp only [Qpd.listDel] at hnil
    simp only [Qpd.listDel, hnil, Bool.false_eq_true, if_false]
    exact ⟨trivial, rfl, trivial⟩

/-- **`destroy_queue_nocpsch`, while the scheduler runs**, gives back what the queue was given. -/
theorem Held.destroyNocpsch (h : Held dev reserved start dqm qpd [] others otherVmids)
    (hp : start.sched_policy = .noHws) (hr : dqm.sched_running = true)
    (hq : qpd.queues_list.find? (fun x => decide (x.ptr = q.ptr)) = some q) :
    Held dev reserved start (destroyQueueNocpschLocked dev out dqm qpd q).2.1
      (destroyQueueNocpschLocked dev out dqm qpd q).2.2 [] others otherVmids := by
  have hmem := List.mem_of_find?_eq_some hq
  have hplaces := places_of_find hq
  have hgiven := h.pools
  have hdoorbells := h.doorbells
  have hv := h.vmids
  rw [List.nil_append, hplaces, Multiset.cons_add] at hgiven
  rw [List.nil_append, hplaces] at hdoorbells
  rw [hp, vmids_of_ne_nil (by simpa using List.ne_nil_of_mem hmem)] at hv
  have hu := (hgiven.placed q.place (Multiset.mem_cons_self ..)).user
  rw [destroyQueueNocpschLocked_running hr hu]
  dsimp only
  set dqm₁ : Manager := { deallocateSlot dev dqm q with
    total_queue_count := (deallocateSlot dev dqm q).total_queue_count - 1 }
  obtain ⟨hlist, hvmid, hpasid⟩ := @deallocateDoorbell_frame dev qpd q
  set qpd₁ := deallocateDoorbell dev qpd q
  obtain ⟨hd₂, hq₂, hv₂⟩ := @unlistNocpsch_held dqm₁ qpd₁ q (out.destroy_mqd q)
  obtain ⟨hpools, hheld⟩ := @deallocateVmidIfEmpty_frame dqm₁ (qpd₁.listDel q.ptr)
  set x := unlistNocpsch (out.destroy_mqd q) dqm₁ qpd₁ q
  obtain ⟨hheld₃, hvmid₃⟩ :=
    @dropActive_held x.1 { x.2 with queue_count := x.2.queue_count - 1 } q
  -- what the process holds before the counters change
  have hlast : Held dev reserved start (deallocateVmidIfEmpty dqm₁ (qpd₁.listDel q.ptr)).1
      (deallocateVmidIfEmpty dqm₁ (qpd₁.listDel q.ptr)).2 [] others otherVmids := by
    have hbitmap := congrArg (fun x : List Place × Finset ℕ × ℕ => x.2.1) hheld
    have hpasid' := congrArg (fun x : List Place × Finset ℕ × ℕ => x.2.2) hheld
    have hlist' : (deallocateVmidIfEmpty dqm₁ (qpd₁.listDel q.ptr)).2.queues_list =
        (qpd.listDel q.ptr).queues_list := by
      rw [queues_list_deallocateVmidIfEmpty, Qpd.listDel, Qpd.listDel, hlist]
    refine ⟨?_, fun h0 => h.pasid ((hpasid'.trans hpasid).symm.trans h0), ?_, ?_, ?_⟩
    · exact (congrArg Prod.fst hpools).trans (deallocateSlot_frame.2.trans h.policy)
    · rw [List.nil_append, hlist']
      exact hgiven.deallocateSlot.of_eq hpools
    · rw [List.nil_append, hlist']
      exact hdoorbells.deallocate.of_eq hbitmap
    · rw [hp]
      refine Vmids.deallocateIfEmpty ?_
      show Vmids dev dqm₁ ((qpd₁.vmid, qpd₁.pasid) ::ₘ otherVmids)
      rw [hvmid, hpasid]
      exact hv.of_eq deallocateSlot_frame.1
  refine hlast.of_eq ?_ (hheld₃.trans hq₂) fun _ => hvmid₃.trans hv₂
  rw [held_dropActive, hd₂]

/-- **`destroy_queue_cpsch`** gives back what the queue was given, or changes nothing. -/
theorem Held.destroyCpsch (h : Held dev reserved start dqm qpd [] others otherVmids)
    (hp : start.sched_policy ≠ .noHws)
    (hq : qpd.queues_list.find? (fun x => decide (x.ptr = q.ptr)) = some q) :
    Held dev reserved start (destroyQueueCpsch dev out dqm qpd q).2.1
      (destroyQueueCpsch dev out dqm qpd q).2.2 [] others otherVmids := by
  have hplaces := places_of_find hq
  have hgiven := h.pools
  have hdoorbells := h.doorbells
  have hv := h.vmids
  rw [List.nil_append, hplaces, Multiset.cons_add] at hgiven
  rw [List.nil_append, hplaces] at hdoorbells
  rw [vmids_of_ne hp] at hv
  have hno : dqm.sched_policy = .noHws → q.properties.type ≠ .compute :=
    fun hno => absurd (h.policy ▸ hno) hp
  obtain ⟨hvm, hpolicy⟩ := @deallocateSdmaQueue_frame dev dqm q
  obtain ⟨hlist, -, hpasid⟩ := @deallocateDoorbell_frame dev qpd q
  unfold destroyQueueCpsch
  split
  · exact h
  dsimp only
  set qpd₁ := (deallocateDoorbell dev qpd q).listDel q.ptr with hqpd₁
  obtain ⟨hheld, hvmid⟩ := @dropActiveCpsch_held out.fw (deallocateSdmaQueue dev dqm q)
    { qpd₁ with queue_count := qpd₁.queue_count - 1 } q
  have hdropped := @held_dropActiveCpsch out.fw (deallocateSdmaQueue dev dqm q)
    { qpd₁ with queue_count := qpd₁.queue_count - 1 } q
  have hlist₁ : qpd₁.queues_list = (qpd.listDel q.ptr).queues_list := by
    rw [hqpd₁, Qpd.listDel, Qpd.listDel, hlist]
  have hlast : Held dev reserved start (deallocateSdmaQueue dev dqm q) qpd₁ [] others
      otherVmids := by
    refine ⟨hpolicy.trans h.policy, fun h0 => h.pasid (hpasid.symm.trans h0), ?_, ?_, ?_⟩
    · rw [List.nil_append, hlist₁]
      exact hgiven.deallocateSdmaQueue hno
    · rw [List.nil_append, hlist₁]
      exact hdoorbells.deallocate.of_eq rfl
    · rw [vmids_of_ne hp]
      exact hv.of_eq hvm
  exact hlast.of_eq hdropped hheld fun _ => hvmid

/-- **`destroy_queue`** gives back what the queue was given. -/
theorem Held.destroy (h : Held dev reserved start dqm qpd [] others otherVmids)
    (hr : dqm.sched_policy = .noHws → dqm.sched_running = true)
    (hq : qpd.queues_list.find? (fun x => decide (x.ptr = q.ptr)) = some q) :
    Held dev reserved start (destroyQueue dev out dqm qpd q).2.1
      (destroyQueue dev out dqm qpd q).2.2 [] others otherVmids := by
  unfold destroyQueue
  split
  · rename_i hp
    exact h.destroyNocpsch (h.policy ▸ hp) (hr hp) hq
  · rename_i hp
    exact h.destroyCpsch (h.policy ▸ hp) hq

/-! ### Terminating a process -/

theorem held_foldl_dropKernelQueue (l : List KernelQueue) (dqm : Manager) :
    (l.foldl dropKernelQueue dqm).held = dqm.held := by
  induction l generalizing dqm with
  | nil => rfl
  | cons kq l ih => exact ih _

theorem foldl_freeFirstMqd (qpd : Qpd) (freed : List Queue) :
    qpd.queues_list.foldl freeFirstMqd (qpd, freed) =
      ({ qpd with queues_list := [], queue_count := qpd.queue_count - qpd.queues_list.length },
        freed ++ qpd.queues_list) := by
  suffices h : ∀ (l : List Queue) (qpd : Qpd) (freed : List Queue), qpd.queues_list = l →
      l.foldl freeFirstMqd (qpd, freed) =
        ({ qpd with queues_list := [], queue_count := qpd.queue_count - l.length }, freed ++ l) from
    h _ qpd freed rfl
  intro l
  induction l with
  | nil =>
    intro qpd freed hl
    cases qpd
    simp_all
  | cons q l ih =>
    intro qpd freed hl
    rw [List.foldl_cons]
    show l.foldl freeFirstMqd (({ qpd with
      queues_list := qpd.queues_list.tail, queue_count := qpd.queue_count - 1 } : Qpd),
        freed ++ [q]) = _
    rw [ih _ _ (by rw [hl, List.tail_cons])]
    simp only [List.length_cons, List.append_assoc, List.singleton_append, Prod.mk.injEq,
      and_true, Qpd.mk.injEq, true_and]
    push_cast
    ring

/-- The pass of `process_termination_cpsch` over the queues gives the SDMA queues back, and
nothing else. -/
theorem foldl_dropUserQueue (hp : start.sched_policy ≠ .noHws) : ∀ (l : List Queue)
    (dqm : Manager) (qpd : Qpd) (others : Multiset Place),
    dqm.sched_policy = start.sched_policy → Pools dev start dqm (places l + others) →
      Pools dev start (l.foldl (dropUserQueue dev) (dqm, qpd)).1 others ∧
        (l.foldl (dropUserQueue dev) (dqm, qpd)).1.sched_policy = start.sched_policy ∧
        (l.foldl (dropUserQueue dev) (dqm, qpd)).1.vmid_pasid = dqm.vmid_pasid ∧
        (l.foldl (dropUserQueue dev) (dqm, qpd)).2.held = qpd.held ∧
        (l.foldl (dropUserQueue dev) (dqm, qpd)).2.queues_list = qpd.queues_list := by
  intro l
  induction l with
  | nil =>
    intro dqm qpd others hpol h
    exact ⟨by simpa [places] using h, hpol, rfl, rfl, rfl⟩
  | cons q l ih =>
    intro dqm qpd others hpol h
    obtain ⟨hvm, hpolicy⟩ := @deallocateSdmaQueue_frame dev dqm q
    rw [places_cons, Multiset.cons_add] at h
    have hgiven := h.deallocateSdmaQueue fun hno => absurd (hpol ▸ hno) hp
    have hdrop := @held_dropActive (deallocateSdmaQueue dev dqm q) qpd q
    have hpools := congrArg Prod.fst hdrop
    rw [List.foldl_cons]
    obtain ⟨h₁, h₂, h₃, h₄, h₅⟩ := ih
      { (dropActive (deallocateSdmaQueue dev dqm q) qpd q).1 with
        total_queue_count :=
          (dropActive (deallocateSdmaQueue dev dqm q) qpd q).1.total_queue_count - 1 }
      (dropActive (deallocateSdmaQueue dev dqm q) qpd q).2 others
      ((congrArg Prod.fst hpools).trans (hpolicy.trans hpol)) (hgiven.of_eq hpools)
    refine ⟨h₁, h₂, h₃.trans ?_, h₄.trans dropActive_held.1, h₅.trans dropActive_frame.2.2.1⟩
    exact (congrArg Prod.snd hdrop).trans hvm

/-- A queue with a doorbell reserved for it alone. -/
def Queue.HasDoorbell (dev : Dev) (q : Queue) : Prop :=
  dev.is_soc15 = true ∧ q.properties.type.isSdma = false

/-- **`process_termination_cpsch`** gives back what the queues of the process were given, but for
their doorbells. -/
theorem Held.terminateCpsch (h : Held dev reserved start dqm qpd [] others otherVmids)
    (hp : start.sched_policy ≠ .noHws) (hdoor : ∀ q ∈ qpd.queues_list, ¬q.HasDoorbell dev) :
    Held dev reserved start (processTerminationCpsch dev fw dqm qpd).dqm
      (processTerminationCpsch dev fw dqm qpd).qpd [] others otherVmids := by
  have hkernel := held_foldl_dropKernelQueue qpd.priv_queue_list dqm
  have hpools : (qpd.priv_queue_list.foldl dropKernelQueue dqm).pools = dqm.pools :=
    congrArg Prod.fst hkernel
  obtain ⟨h₁, h₂, h₃, h₄, h₅⟩ := @foldl_dropUserQueue dev start hp qpd.queues_list
    (qpd.priv_queue_list.foldl dropKernelQueue dqm)
    { qpd with
      priv_queue_list := [], is_debug := qpd.is_debug && qpd.priv_queue_list.isEmpty }
    others ((congrArg Prod.fst hpools).trans h.policy) (h.pools.of_eq hpools)
  unfold processTerminationCpsch
  dsimp only
  generalize qpd.queues_list.foldl (dropUserQueue dev) _ = x at h₁ h₂ h₃ h₄ h₅ ⊢
  rw [foldl_freeFirstMqd]
  have hunreg : (unregisterProcess x.1 x.2).2.held = x.1.held := by
    unfold unregisterProcess
    split <;> rfl
  have hexec := (@held_executeQueuesCpsch fw (unregisterProcess x.1 x.2).2).trans hunreg
  have hbitmap : x.2.doorbell_bitmap = qpd.doorbell_bitmap :=
    congrArg (fun x : List Place × Finset ℕ × ℕ => x.2.1) h₄
  have hpasid : x.2.pasid = qpd.pasid := congrArg (fun x : List Place × Finset ℕ × ℕ => x.2.2) h₄
  refine ⟨?_, fun h0 => h.pasid (hpasid.symm.trans h0), ?_, ?_, ?_⟩
  · exact (congrArg (fun x => x.1.1) hexec).trans h₂
  · simpa [places] using h₁.of_eq (congrArg Prod.fst hexec)
  · have hd : Doorbells dev reserved x.2 _ := h.doorbells.of_eq hbitmap
    refine ⟨?_, hd.lt⟩
    have hnone : (places qpd.queues_list).filterMap (fun p => p.doorbell dev) = 0 := by
      refine Multiset.eq_zero_of_forall_notMem fun b hb => ?_
      obtain ⟨p, hp, hb⟩ := (Multiset.mem_filterMap _ _).1 hb
      obtain ⟨q, hq, rfl⟩ := List.mem_map.1 (Multiset.mem_coe.1 hp)
      have hno := hdoor q hq
      rw [Queue.doorbell_place, if_neg (by simpa [Queue.HasDoorbell] using hno)] at hb
      cases hb
    have hpool := hd.pool
    rw [List.nil_append, hnone] at hpool
    simpa [places] using hpool
  · have hv := h.vmids
    rw [vmids_of_ne hp] at hv ⊢
    refine hv.of_eq ?_
    exact (congrArg Prod.snd hexec).trans (h₃.trans (congrArg Prod.snd hkernel))

/-- **`process_termination_nocpsch`, while the scheduler runs**, ends and gives back what the
queues were given. -/
theorem Held.terminateNocpsch (h : Held dev reserved start dqm qpd [] others otherVmids)
    (hp : start.sched_policy = .noHws) (hr : dqm.sched_running = true ∨ qpd.queues_list = [])
    {fuel : ℕ} {t : Terminated} (ht : processTerminationNocpsch dev out fuel dqm qpd = some t) :
    Held dev reserved start t.dqm t.qpd [] others otherVmids := by
  obtain ⟨t', hclear, rfl⟩ := Option.map_eq_some_iff.1 ht
  have hunreg : (unregisterProcess t'.dqm t'.qpd).2.held = t'.dqm.held := by
    unfold unregisterProcess
    split <;> rfl
  have hlast : ∀ (fuel : ℕ) (t₀ : Terminated),
      Held dev reserved start t₀.dqm t₀.qpd [] others otherVmids →
      t₀.dqm.sched_running = true ∨ t₀.qpd.queues_list = [] →
      clearQueuesNocpsch dev out fuel t₀ = some t' →
      Held dev reserved start t'.dqm t'.qpd [] others otherVmids := by
    intro fuel
    induction fuel with
    | zero => exact fun _ _ _ h => by cases h
    | succ fuel ih =>
      intro t₀ h₀ hr₀ hc
      rw [clearQueuesNocpsch] at hc
      split at hc
      · cases hc
        exact h₀
      · rename_i q l hl
        have hrun : t₀.dqm.sched_running = true := by
          rcases hr₀ with hrun | hnil
          · exact hrun
          · rw [hl] at hnil
            cases hnil
        have hq : t₀.qpd.queues_list.find? (fun x => decide (x.ptr = q.ptr)) = some q := by
          rw [hl, List.find?_cons_of_pos (by simp)]
        have hu : q.properties.type.isUser = true := by
          refine (h₀.pools.placed q.place ?_).user
          rw [List.nil_append, hl, places_cons, Multiset.cons_add]
          exact Multiset.mem_cons_self ..
        exact ih _ (h₀.destroyNocpsch hp hrun hq)
          (.inl (queues_list_destroyQueueNocpschLocked hrun hu hl).2) hc
  exact (hlast fuel ⟨none, dqm, qpd, []⟩ h hr hclear).of_eq hunreg rfl fun _ => rfl

end Held

end Codrive.Dqm
