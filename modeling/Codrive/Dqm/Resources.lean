/-
# What a queue is given

The pools of `src/src/cmdio/linux/opu_device_queue_manager.c`: the SDMA and XGMI-SDMA bitmaps,
the slots of the pipes and the vmids, of the device, and the doorbells of a process; and what the
functions that hand them out and take them back do to them.  A `Place` is what a queue was given.
-/

import Codrive.Basis.Pool
import Codrive.Dqm.Counters
import Mathlib.Data.Multiset.MapFold

namespace Codrive.Dqm

open Codrive.Basis

/-- What a queue was given. -/
structure Place where
  type : QueueType
  sdma_id : ℕ
  sdma_engine_id : ℕ
  sdma_queue_id : ℕ
  pipe : ℕ
  queue : ℕ
  doorbell_id : ℕ
  deriving DecidableEq

/-- What a queue was given. -/
def Queue.place (q : Queue) : Place :=
  ⟨q.properties.type, q.sdma_id, q.properties.sdma_engine_id, q.properties.sdma_queue_id, q.pipe,
    q.queue, q.doorbell_id⟩

namespace Place

variable (p : Place)

/-- The SDMA queue of the device. -/
def sdma : Option ℕ := if p.type = .sdma then some p.sdma_id else none

/-- The XGMI-SDMA queue of the device. -/
def xgmi : Option ℕ := if p.type = .sdmaXgmi then some p.sdma_id else none

/-- The hardware slot. -/
def hqd : Option (ℕ × ℕ) := if p.type = .compute then some (p.pipe, p.queue) else none

/-- The doorbell reserved for it alone. -/
def doorbell (dev : Dev) : Option ℕ :=
  if dev.is_soc15 && !p.type.isSdma then some p.doorbell_id else none

/-- The engine and queue follow from the SDMA queue, which is one of the device. -/
structure Placed (dev : Dev) : Prop where
  user : p.type.isUser = true
  sdma : p.type = .sdma → p.sdma_id < getNumSdmaQueues dev ∧
    p.sdma_engine_id = p.sdma_id % dev.num_sdma_engines ∧
    p.sdma_queue_id = p.sdma_id / dev.num_sdma_engines
  xgmi : p.type = .sdmaXgmi → p.sdma_id < getNumXgmiSdmaQueues dev ∧
    p.sdma_engine_id = dev.num_sdma_engines + p.sdma_id % dev.num_xgmi_sdma_engines ∧
    p.sdma_queue_id = p.sdma_id / dev.num_xgmi_sdma_engines

end Place

theorem Queue.sdma_place (q : Queue) :
    q.place.sdma = if q.properties.type = .sdma then some q.sdma_id else none := rfl

theorem Queue.xgmi_place (q : Queue) :
    q.place.xgmi = if q.properties.type = .sdmaXgmi then some q.sdma_id else none := rfl

theorem Queue.hqd_place (q : Queue) :
    q.place.hqd = if q.properties.type = .compute then some (q.pipe, q.queue) else none := rfl

theorem Queue.doorbell_place (q : Queue) (dev : Dev) : q.place.doorbell dev =
    if dev.is_soc15 && !q.properties.type.isSdma then some q.doorbell_id else none := rfl

/-- What queues were given. -/
def places (l : List Queue) : Multiset Place := (l.map Queue.place : List Place)

/-- **The pools of the device**, which starts as `start`: what is not free is what its queues were
given.  Without the scheduler there are slots. -/
structure Pools (dev : Dev) (start dqm : Manager) (given : Multiset Place) : Prop where
  sdma : Pool {b | b ∈ start.sdma_bitmap} {b | b ∈ dqm.sdma_bitmap} (given.filterMap Place.sdma)
  xgmi : Pool {b | b ∈ start.xgmi_sdma_bitmap} {b | b ∈ dqm.xgmi_sdma_bitmap}
    (given.filterMap Place.xgmi)
  hqd : dqm.sched_policy = .noHws → Pool {x | x.2 ∈ start.allocated_queues x.1}
    {x | x.2 ∈ dqm.allocated_queues x.1} (given.filterMap Place.hqd)
  placed : ∀ p ∈ given, p.Placed dev

/-- **The doorbells of a process**: what is neither free nor reserved is what its queues were
given. -/
structure Doorbells (dev : Dev) (reserved : Finset ℕ) (qpd : Qpd) (given : Multiset Place) :
    Prop where
  pool : Pool {b | b < maxNumOfQueuesPerProcess ∧ b ∉ reserved}
    {b | b < maxNumOfQueuesPerProcess ∧ b ∉ qpd.doorbell_bitmap}
    (given.filterMap fun p => p.doorbell dev)
  lt : ∀ b ∈ qpd.doorbell_bitmap, b < maxNumOfQueuesPerProcess

/-- The vmids of the device's processes. -/
def Dev.IsVmid (dev : Dev) (v : ℕ) : Prop := dev.first_vmid_kfd ≤ v ∧ v ≤ dev.last_vmid_kfd

/-- **The vmids**: what is not free was given to a process, whose `pasid` it has. -/
structure Vmids (dev : Dev) (dqm : Manager) (given : Multiset (ℕ × ℕ)) : Prop where
  pool : Pool {v | dev.IsVmid v} {v | dev.IsVmid v ∧ dqm.vmid_pasid v = 0} (given.map Prod.fst)
  pasid : ∀ x ∈ given, dqm.vmid_pasid x.1 = x.2
  isVmid : ∀ v, dqm.vmid_pasid v ≠ 0 → dev.IsVmid v

/-- What the pools of the device are read off. -/
def Manager.pools (dqm : Manager) : SchedPolicy × Finset ℕ × Finset ℕ × (ℕ → Finset ℕ) :=
  (dqm.sched_policy, dqm.sdma_bitmap, dqm.xgmi_sdma_bitmap, dqm.allocated_queues)

section

variable {dev : Dev} {start dqm dqm' : Manager} {qpd qpd' : Qpd} {q q' : Queue}
variable {given : Multiset Place} {reserved : Finset ℕ} {p : Place}

theorem Pools.of_eq (h : Pools dev start dqm given) (he : dqm'.pools = dqm.pools) :
    Pools dev start dqm' given := by
  simp only [Manager.pools, Prod.mk.injEq] at he
  obtain ⟨h₁, h₂, h₃, h₄⟩ := he
  exact ⟨h₂ ▸ h.sdma, h₃ ▸ h.xgmi, h₁ ▸ h₄ ▸ h.hqd, h.placed⟩

theorem Doorbells.of_eq (h : Doorbells dev reserved qpd given)
    (he : qpd'.doorbell_bitmap = qpd.doorbell_bitmap) : Doorbells dev reserved qpd' given :=
  ⟨he ▸ h.pool, he ▸ h.lt⟩

theorem lowestBit_mem {s : Finset ℕ} {width b : ℕ} (h : lowestBit s width = some b) : b ∈ s := by
  simpa using List.find?_some h

/-- A key that a place does not have. -/
theorem filterMap_cons_none {β : Type} {f : Place → Option β} (h : f p = none) :
    (p ::ₘ given).filterMap f = given.filterMap f := Multiset.filterMap_cons_none _ _ h

/-- A key that a place has. -/
theorem filterMap_cons_some {β : Type} {f : Place → Option β} {b : β} (h : f p = some b) :
    (p ::ₘ given).filterMap f = b ::ₘ given.filterMap f := Multiset.filterMap_cons_some f _ _ h

/-! ### SDMA queues -/

/-- An SDMA queue that a device starts with is one of its queues. -/
def StartsRight (dev : Dev) (start : Manager) (type : QueueType) : Prop :=
  (type = .sdma → ∀ b ∈ start.sdma_bitmap, b < getNumSdmaQueues dev) ∧
    (type = .sdmaXgmi → ∀ b ∈ start.xgmi_sdma_bitmap, b < getNumXgmiSdmaQueues dev)

/-- **`allocate_sdma_queue`** takes a queue from its bitmap. -/
theorem Pools.allocateSdmaQueue (h : Pools dev start dqm given)
    (ha : allocateSdmaQueue dev dqm q = .ok (dqm', q')) (huser : q.properties.type.isUser = true)
    (hstart : StartsRight dev start q.properties.type)
    (hpolicy : dqm.sched_policy = .noHws → q.properties.type ≠ .compute) (doorbell_id : ℕ) :
    Pools dev start dqm' ({ q' with doorbell_id }.place ::ₘ given) ∧
      q'.properties.type = q.properties.type ∧ dqm'.sched_policy = dqm.sched_policy := by
  unfold Dqm.allocateSdmaQueue at ha
  split at ha
  · rename_i ht
    split at ha
    · cases ha
    · rename_i b hb
      cases ha
      have hmem := lowestBit_mem hb
      have hall := ((h.sdma.free_iff b).1 hmem).1
      refine ⟨⟨?_, ?_, fun hp => ?_, fun p hp => ?_⟩, rfl, rfl⟩
      · rw [filterMap_cons_some (b := b) (by simp [Place.sdma, Queue.place, ht])]
        exact h.sdma.take hmem fun y => by simp [and_comm]
      · rw [filterMap_cons_none (by simp [Place.xgmi, Queue.place, ht])]
        exact h.xgmi
      · rw [filterMap_cons_none (by simp [Place.hqd, Queue.place, ht])]
        exact h.hqd hp
      · rcases Multiset.mem_cons.1 hp with rfl | hp
        · exact ⟨huser, fun _ => ⟨hstart.1 ht b hall, rfl, rfl⟩,
            fun hx => by simp [Queue.place, ht] at hx⟩
        · exact h.placed p hp
  · rename_i ht
    split at ha
    · cases ha
    · rename_i b hb
      cases ha
      have hmem := lowestBit_mem hb
      have hall := ((h.xgmi.free_iff b).1 hmem).1
      refine ⟨⟨?_, ?_, fun hp => ?_, fun p hp => ?_⟩, rfl, rfl⟩
      · rw [filterMap_cons_none (by simp [Place.sdma, Queue.place, ht])]
        exact h.sdma
      · rw [filterMap_cons_some (b := b) (by simp [Place.xgmi, Queue.place, ht])]
        exact h.xgmi.take hmem fun y => by simp [and_comm]
      · rw [filterMap_cons_none (by simp [Place.hqd, Queue.place, ht])]
        exact h.hqd hp
      · rcases Multiset.mem_cons.1 hp with rfl | hp
        · exact ⟨huser, fun hx => by simp [Queue.place, ht] at hx,
            fun _ => ⟨hstart.2 ht b hall, rfl, rfl⟩⟩
        · exact h.placed p hp
  · rename_i hs hx
    cases ha
    refine ⟨⟨?_, ?_, fun hp => ?_, fun p hp => ?_⟩, rfl, rfl⟩
    · rw [filterMap_cons_none (by rw [Queue.sdma_place, if_neg hs])]
      exact h.sdma
    · rw [filterMap_cons_none (by rw [Queue.xgmi_place, if_neg hx])]
      exact h.xgmi
    · rw [filterMap_cons_none (by rw [Queue.hqd_place, if_neg (hpolicy hp)])]
      exact h.hqd hp
    · rcases Multiset.mem_cons.1 hp with rfl | hp
      · exact ⟨huser, fun ht => absurd ht hs, fun ht => absurd ht hx⟩
      · exact h.placed p hp

/-- **`deallocate_sdma_queue`** gives it back. -/
theorem Pools.deallocateSdmaQueue (h : Pools dev start dqm (q.place ::ₘ given))
    (hpolicy : dqm.sched_policy = .noHws → q.properties.type ≠ .compute) :
    Pools dev start (deallocateSdmaQueue dev dqm q) given := by
  have hplaced := h.placed q.place (Multiset.mem_cons_self ..)
  have hrest : ∀ p ∈ given, p.Placed dev := fun p hp => h.placed p (Multiset.mem_cons_of_mem hp)
  unfold Dqm.deallocateSdmaQueue
  split
  · rename_i ht
    have hlt : ¬q.sdma_id ≥ getNumSdmaQueues dev := Nat.not_le.2 (hplaced.sdma ht).1
    have hsdma := h.sdma
    have hxgmi := h.xgmi
    rw [filterMap_cons_some (by rw [Queue.sdma_place, if_pos ht])] at hsdma
    rw [filterMap_cons_none (by simp [Place.xgmi, Queue.place, ht])] at hxgmi
    rw [if_neg hlt]
    refine ⟨hsdma.give fun y => by simp [or_comm], hxgmi, fun hp => ?_, hrest⟩
    have hhqd := h.hqd hp
    rwa [filterMap_cons_none (by simp [Place.hqd, Queue.place, ht])] at hhqd
  · rename_i ht
    have hlt : ¬q.sdma_id ≥ getNumXgmiSdmaQueues dev := Nat.not_le.2 (hplaced.xgmi ht).1
    have hsdma := h.sdma
    have hxgmi := h.xgmi
    rw [filterMap_cons_none (by simp [Place.sdma, Queue.place, ht])] at hsdma
    rw [filterMap_cons_some (by rw [Queue.xgmi_place, if_pos ht])] at hxgmi
    rw [if_neg hlt]
    refine ⟨hsdma, hxgmi.give fun y => by simp [or_comm], fun hp => ?_, hrest⟩
    have hhqd := h.hqd hp
    rwa [filterMap_cons_none (by simp [Place.hqd, Queue.place, ht])] at hhqd
  · rename_i hs hx
    have hsdma := h.sdma
    have hxgmi := h.xgmi
    rw [filterMap_cons_none (by rw [Queue.sdma_place, if_neg hs])] at hsdma
    rw [filterMap_cons_none (by rw [Queue.xgmi_place, if_neg hx])] at hxgmi
    refine ⟨hsdma, hxgmi, fun hp => ?_, hrest⟩
    have hhqd := h.hqd hp
    rwa [filterMap_cons_none (by rw [Queue.hqd_place, if_neg (hpolicy hp)])] at hhqd

/-! ### Hardware slots -/

/-- **`allocate_hqd`** takes a slot. -/
theorem Pools.allocateHqd (h : Pools dev start dqm given)
    (ha : allocateHqd dev dqm q = .ok (dqm', q')) (ht : q.properties.type = .compute)
    (doorbell_id : ℕ) :
    Pools dev start dqm' ({ q' with doorbell_id }.place ::ₘ given) ∧
      q'.properties.type = q.properties.type ∧ dqm'.sched_policy = dqm.sched_policy := by
  unfold Dqm.allocateHqd at ha
  dsimp only at ha
  split at ha
  · cases ha
  · rename_i pipe bit hslot
    cases ha
    have hmem : bit ∈ dqm.allocated_queues pipe := by
      obtain ⟨i, -, hi⟩ := List.exists_of_findSome?_eq_some hslot
      split at hi
      · obtain ⟨b, hb, hpair⟩ := Option.map_eq_some_iff.1 hi
        cases hpair
        exact lowestBit_mem hb
      · cases hi
    refine ⟨⟨?_, ?_, fun hp => ?_, fun p hp => ?_⟩, rfl, rfl⟩
    · rw [filterMap_cons_none (by simp [Place.sdma, Queue.place, ht])]
      exact h.sdma
    · rw [filterMap_cons_none (by simp [Place.xgmi, Queue.place, ht])]
      exact h.xgmi
    · rw [filterMap_cons_some (b := (pipe, bit)) (by simp [Place.hqd, Queue.place, ht])]
      refine (h.hqd hp).take hmem fun ⟨pipe', bit'⟩ => ?_
      by_cases hpipe : pipe' = pipe
      · subst hpipe
        simp [and_comm]
      · simp [hpipe]
    · rcases Multiset.mem_cons.1 hp with rfl | hp
      · refine ⟨?_, fun hx => ?_, fun hx => ?_⟩
        · simp [Queue.place, ht, QueueType.isUser]
        · simp [Queue.place, ht] at hx
        · simp [Queue.place, ht] at hx
      · exact h.placed p hp

/-- **`deallocate_hqd`** gives it back. -/
theorem Pools.deallocateHqd (h : Pools dev start dqm (q.place ::ₘ given))
    (ht : q.properties.type = .compute) : Pools dev start (deallocateHqd dqm q) given := by
  have hsdma := h.sdma
  have hxgmi := h.xgmi
  rw [filterMap_cons_none (by simp [Place.sdma, Queue.place, ht])] at hsdma
  rw [filterMap_cons_none (by simp [Place.xgmi, Queue.place, ht])] at hxgmi
  refine ⟨hsdma, hxgmi, fun hp => ?_, fun p hp => h.placed p (Multiset.mem_cons_of_mem hp)⟩
  have hhqd := h.hqd hp
  rw [filterMap_cons_some (by rw [Queue.hqd_place, if_pos ht])] at hhqd
  refine hhqd.give fun ⟨pipe, bit⟩ => ?_
  by_cases hpipe : pipe = q.pipe
  · subst hpipe
    simp [Dqm.deallocateHqd, or_comm]
  · simp [Dqm.deallocateHqd, hpipe]

/-- **The slot of a queue**, without the scheduler. -/
theorem Pools.allocateSlot (h : Pools dev start dqm given)
    (ha : allocateSlot dev dqm q = .ok (dqm', q')) (huser : q.properties.type.isUser = true)
    (hstart : StartsRight dev start q.properties.type) (doorbell_id : ℕ) :
    Pools dev start dqm' ({ q' with doorbell_id }.place ::ₘ given) ∧
      q'.properties.type = q.properties.type ∧ dqm'.sched_policy = dqm.sched_policy := by
  unfold Dqm.allocateSlot at ha
  split at ha
  · exact h.allocateHqd ha (by assumption) doorbell_id
  · exact h.allocateSdmaQueue ha huser hstart (fun _ => by assumption) doorbell_id

theorem Pools.deallocateSlot (h : Pools dev start dqm (q.place ::ₘ given)) :
    Pools dev start (deallocateSlot dev dqm q) given := by
  unfold Dqm.deallocateSlot
  split
  · exact h.deallocateHqd (by assumption)
  · exact h.deallocateSdmaQueue fun _ => by assumption

/-! ### Doorbells -/

/-- **`allocate_doorbell`** takes a doorbell, and changes nothing else of the queue. -/
theorem Doorbells.allocate (h : Doorbells dev reserved qpd given)
    (ha : allocateDoorbell dev qpd q = .ok (qpd', q')) :
    Doorbells dev reserved qpd' (q'.place ::ₘ given) ∧
      q' = { q with doorbell_id := q'.doorbell_id } ∧
      qpd' = { qpd with doorbell_bitmap := qpd'.doorbell_bitmap } := by
  unfold allocateDoorbell at ha
  split at ha
  · rename_i hsoc
    cases ha
    refine ⟨⟨?_, h.lt⟩, rfl, rfl⟩
    rw [filterMap_cons_none (by simp [Place.doorbell, by simpa using hsoc])]
    exact h.pool
  split at ha
  · rename_i hsdma
    cases ha
    refine ⟨⟨?_, h.lt⟩, rfl, rfl⟩
    rw [filterMap_cons_none (by simp [Place.doorbell, Queue.place, hsdma])]
    exact h.pool
  rename_i hsoc hsdma
  split at ha
  · cases ha
  rename_i found hfound
  cases ha
  have hclear : found ∉ qpd.doorbell_bitmap := by simpa using List.find?_some hfound
  have hlt : found < maxNumOfQueuesPerProcess := List.mem_range.1 (List.mem_of_find?_eq_some hfound)
  refine ⟨⟨?_, fun b hb => ?_⟩, rfl, rfl⟩
  · rw [filterMap_cons_some (b := found) (by
      simp [Place.doorbell, Queue.place, by simpa using hsoc, by simpa using hsdma])]
    refine h.pool.take ⟨hlt, hclear⟩ fun y => ?_
    show y < maxNumOfQueuesPerProcess ∧ y ∉ insert found qpd.doorbell_bitmap ↔
      (y < maxNumOfQueuesPerProcess ∧ y ∉ qpd.doorbell_bitmap) ∧ y ≠ found
    rw [Finset.mem_insert, not_or]
    constructor
    · rintro ⟨hy, hne, hmem⟩
      exact ⟨⟨hy, hmem⟩, hne⟩
    · rintro ⟨⟨hy, hmem⟩, hne⟩
      exact ⟨hy, hne, hmem⟩
  · rcases Finset.mem_insert.1 hb with rfl | hb
    · exact hlt
    · exact h.lt b hb

/-- **`deallocate_doorbell`** gives it back. -/
theorem Doorbells.deallocate (h : Doorbells dev reserved qpd (q.place ::ₘ given)) :
    Doorbells dev reserved (deallocateDoorbell dev qpd q) given := by
  have hpool := h.pool
  unfold deallocateDoorbell
  by_cases hkey : dev.is_soc15 = true ∧ q.properties.type.isSdma = false
  · obtain ⟨hsoc, hsdma⟩ := hkey
    rw [filterMap_cons_some (b := q.doorbell_id) (by
      simp [Place.doorbell, Queue.place, hsoc, hsdma])] at hpool
    simp only [hsoc, hsdma, Bool.not_true, Bool.or_self, Bool.false_eq_true, if_false]
    refine ⟨hpool.give fun y => ?_, fun b hb => h.lt b (Finset.mem_of_mem_erase hb)⟩
    have hlt := (hpool.used_mem q.doorbell_id (Multiset.mem_cons_self ..)).1
    show y < maxNumOfQueuesPerProcess ∧ y ∉ qpd.doorbell_bitmap.erase q.doorbell_id ↔
      (y < maxNumOfQueuesPerProcess ∧ y ∉ qpd.doorbell_bitmap) ∨ y = q.doorbell_id
    rw [Finset.mem_erase, not_and]
    constructor
    · rintro ⟨hy, hmem⟩
      by_cases hyq : y = q.doorbell_id
      · exact .inr hyq
      · exact .inl ⟨hy, hmem hyq⟩
    · rintro (⟨hy, hmem⟩ | rfl)
      · exact ⟨hy, fun _ => hmem⟩
      · exact ⟨hlt, fun hne => absurd rfl hne⟩
  · have hcond : (!dev.is_soc15 || q.properties.type.isSdma) = true := by
      cases hsoc : dev.is_soc15 <;> cases hsdma : q.properties.type.isSdma <;>
        simp_all
    have hnone : ¬(dev.is_soc15 && !q.properties.type.isSdma) = true := by simpa using hkey
    rw [filterMap_cons_none (by rw [Queue.doorbell_place, if_neg hnone])] at hpool
    rw [if_pos hcond]
    exact ⟨hpool, h.lt⟩

/-! ### Vmids -/

theorem Vmids.of_eq {vmids : Multiset (ℕ × ℕ)} (h : Vmids dev dqm vmids)
    (he : dqm'.vmid_pasid = dqm.vmid_pasid) : Vmids dev dqm' vmids :=
  ⟨he ▸ h.pool, he ▸ h.pasid, he ▸ h.isVmid⟩

/-- What `allocate_vmid` does: a free vmid is the process's. -/
theorem allocateVmid_eq {x : Manager × Qpd × Queue} (ha : allocateVmid dev dqm qpd q = .ok x) :
    ∃ vmid, dev.IsVmid vmid ∧ dqm.vmid_pasid vmid = 0 ∧
      x = ({ dqm with vmid_pasid := Function.update dqm.vmid_pasid vmid qpd.pasid },
        { qpd with vmid }, { q with properties := { q.properties with vmid } }) := by
  unfold allocateVmid at ha
  split at ha
  · cases ha
  · rename_i vmid hvmid
    cases ha
    have hrange := List.mem_range'_1.1 (List.mem_of_find?_eq_some hvmid)
    exact ⟨vmid, ⟨hrange.1, by omega⟩, by simpa using List.find?_some hvmid, rfl⟩

/-- **`allocate_vmid`** takes a vmid. -/
theorem Vmids.allocate {vmids : Multiset (ℕ × ℕ)} (h : Vmids dev dqm vmids)
    (hp : qpd.pasid ≠ 0) {vmid : ℕ} (hv : dev.IsVmid vmid) (h0 : dqm.vmid_pasid vmid = 0) :
    Vmids dev { dqm with vmid_pasid := Function.update dqm.vmid_pasid vmid qpd.pasid }
      ((vmid, qpd.pasid) ::ₘ vmids) := by
  have hfree : vmid ∉ vmids.map Prod.fst := ((h.pool.free_iff vmid).1 ⟨hv, h0⟩).2
  refine ⟨?_, fun x hx => ?_, fun v hne => ?_⟩
  · rw [Multiset.map_cons]
    refine h.pool.take ⟨hv, h0⟩ fun y => ?_
    show dev.IsVmid y ∧ Function.update dqm.vmid_pasid vmid qpd.pasid y = 0 ↔
      (dev.IsVmid y ∧ dqm.vmid_pasid y = 0) ∧ y ≠ vmid
    by_cases hy : y = vmid
    · subst hy
      simp [hp]
    · simp [hy]
  · show Function.update dqm.vmid_pasid vmid qpd.pasid x.1 = x.2
    rcases Multiset.mem_cons.1 hx with rfl | hx
    · exact Function.update_self ..
    · have hne : x.1 ≠ vmid := fun he => hfree (he ▸ Multiset.mem_map_of_mem _ hx)
      rw [Function.update_of_ne hne]
      exact h.pasid x hx
  · by_cases hy : v = vmid
    · exact hy ▸ hv
    · exact h.isVmid v (by simpa [hy] using hne)

/-- **`deallocate_vmid`** gives it back. -/
theorem Vmids.deallocate {vmids : Multiset (ℕ × ℕ)}
    (h : Vmids dev dqm ((qpd.vmid, qpd.pasid) ::ₘ vmids)) :
    Vmids dev (deallocateVmid dqm qpd).1 vmids := by
  have hpool := h.pool
  rw [Multiset.map_cons] at hpool
  have hused : qpd.vmid ∉ vmids.map Prod.fst := (Multiset.nodup_cons.1 hpool.nodup).1
  have hv : dev.IsVmid qpd.vmid := hpool.used_mem _ (Multiset.mem_cons_self ..)
  refine ⟨hpool.give fun y => ?_, fun x hx => ?_, fun v hne => ?_⟩
  · show dev.IsVmid y ∧ Function.update dqm.vmid_pasid qpd.vmid 0 y = 0 ↔
      (dev.IsVmid y ∧ dqm.vmid_pasid y = 0) ∨ y = qpd.vmid
    by_cases hy : y = qpd.vmid
    · subst hy
      simp [hv]
    · simp [hy]
  · have hne : x.1 ≠ qpd.vmid := fun he => hused (he ▸ Multiset.mem_map_of_mem _ hx)
    show Function.update dqm.vmid_pasid qpd.vmid 0 x.1 = x.2
    rw [Function.update_of_ne hne]
    exact h.pasid x (Multiset.mem_cons_of_mem hx)
  · by_cases hy : v = qpd.vmid
    · exact hy ▸ hv
    · refine h.isVmid v fun h0 => hne ?_
      show Function.update dqm.vmid_pasid qpd.vmid 0 v = 0
      rw [Function.update_of_ne hy]
      exact h0

end

end Codrive.Dqm
