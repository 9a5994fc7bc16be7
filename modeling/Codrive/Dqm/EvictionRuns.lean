/-
# Runs with evictions and restores

Evictions and restores of the processes of a device, nested as deep as they come, with creations,
updates and destructions in between.  An update writes the properties of a queue without the lock
and calls `update_queue` then; the holder of the mutex of a process does one such thing at a time.

Three calls break what evictions and restores promise, in
`src/src/cmdio/linux/opu_device_queue_manager.c`: `create_queue_nocpsch` lists a queue as not
evicted when the process was evicted while the lock was given up; `update_queue` leaves the old
activity of a queue with new properties when it cannot be taken off the hardware; and
`destroy_queue_nocpsch` leaves the queue listed while the scheduler is stopped.
-/

import Codrive.Dqm.Evictions

namespace Codrive.Dqm

open Codrive.Basis

/-- The device and its processes, and the queue each process is updating. -/
structure UpdatingState where
  state : State
  updating : ℕ → Option ℕ := fun _ => none

/-- The queue under creation of a process: none of its other calls with the mutex is made. -/
def UpdatingState.Free (x : UpdatingState) (i : ℕ) : Prop :=
  x.updating i = none ∧ ∀ c ∈ x.state.creating, c.1 ≠ i

/-- The calls with the mutex of a process are made one after the other. -/
def UpdatingState.Allows (x : UpdatingState) : Op → Prop
  | .setProperties i _ _ _ _ _ => x.Free i
  | .setGws i _ _ => x.Free i
  | .update i ptr _ => x.updating i = some ptr
  | .createBegin i _ _ => x.Free i
  | .destroy i _ _ => x.Free i
  | _ => True

/-- What the holder of the mutex does next. -/
def UpdatingState.next (x : UpdatingState) : Op → ℕ → Option ℕ
  | .setProperties i ptr _ _ _ _ => Function.update x.updating i (some ptr)
  | .setGws i ptr _ => Function.update x.updating i (some ptr)
  | .update i _ _ => Function.update x.updating i none
  | _ => x.updating

/-- One step. -/
structure UpdatingState.Step (dev : Dev) (active : MqdActive) (x : UpdatingState) (op : Op)
    (y : UpdatingState) : Prop where
  allows : x.Allows op
  step : x.state.Step dev active op y.state
  updating : y.updating = x.next op

theorem UpdatingState.Step.of {dev : Dev} {active : MqdActive} {x : UpdatingState} {op : Op}
    {t : State} (hallow : x.Allows op) (h : x.state.Step dev active op t) :
    x.Step dev active op ⟨t, x.next op⟩ :=
  ⟨hallow, h, rfl⟩

/-- The steps that keep this. -/
def UpdatingState.StepOk (active : MqdActive) (x : UpdatingState) : Op → Prop
  -- the eviction flag that `create_queue_nocpsch` captured is still right
  | .createEnd i ptr out => x.state.dqm.sched_policy = .noHws → ∀ qpd, x.state.qpds[i]? = some qpd →
      ∀ q, (i, q) ∈ x.state.creating → q.ptr = ptr → CreateLists active out x.state.dqm q →
        0 < qpd.evicted → q.properties.is_evicted = true
  -- a queue whose activity changes can be taken off the hardware
  | .update i ptr out => ∀ qpd, x.state.qpds[i]? = some qpd → ∀ q, qpd.find ptr = some q →
      qpd.evicted = 0 → q.properties.is_active ≠ q.properties.queueIsActive →
        TakenOff out x.state.dqm q
  -- `destroy_queue_nocpsch` takes the queue off its list
  | .destroy _ _ _ => x.state.dqm.sched_policy = .noHws → x.state.dqm.sched_running = true
  | _ => True

section

variable {dev : Dev} {active : MqdActive} {sched_policy : SchedPolicy} {x y : UpdatingState}
variable {op : Op} {ops : List Op} {i : ℕ} {A B : List Qpd} {qpd qpd' : Qpd} {dqm' : Manager}

/-- The invariant. -/
structure UpdatingState.Inv (x : UpdatingState) : Prop where
  flags : ∀ (i : ℕ) (qpd : Qpd), x.state.qpds[i]? = some qpd → qpd.Flags (x.updating i)
  count : x.state.dqm.active_queue_count = (x.state.qpds.map Qpd.activeLoad).sum
  /-- A process that creates a queue updates none. -/
  creating : ∀ c ∈ x.state.creating, x.updating c.1 = none
  /-- A queue under creation owns no GWS. -/
  gws : ∀ c ∈ x.state.creating, c.2.properties.is_gws = false

/-- One process changed. -/
theorem forall_getElem?_set {P : ℕ → Qpd → Prop} (qpd : Qpd) (hA : A.length = i)
    (h : ∀ j z, (A ++ qpd :: B)[j]? = some z → j ≠ i → P j z) (hi : P i qpd') :
    ∀ j z, (A ++ qpd' :: B)[j]? = some z → P j z := by
  intro j z hz
  by_cases hj : j = i
  · subst hj
    rw [← hA, List.getElem?_append_right (Nat.le_refl _), Nat.sub_self] at hz
    obtain rfl := Option.some.inj hz
    exact hi
  · refine h j z ?_ hj
    rcases Nat.lt_or_gt_of_ne hj with hlt | hgt
    · rw [List.getElem?_append_left (hA ▸ hlt)] at hz ⊢
      exact hz
    · rw [List.getElem?_append_right (by omega)] at hz ⊢
      obtain ⟨k, hk⟩ := Nat.exists_eq_add_of_lt hgt
      rw [show j - A.length = k + 1 by omega] at hz ⊢
      exact hz

/-- **A step of one process keeps the invariant if it keeps its flags and counts its queues.** -/
theorem UpdatingState.Inv.set (h : x.Inv) (hs : x.state.qpds = A ++ qpd :: B) (hA : A.length = i)
    (hb : ActiveBooked x.state.dqm qpd dqm' qpd') {updating : ℕ → Option ℕ}
    {creating : List (ℕ × Queue)} (hother : ∀ j ≠ i, updating j = x.updating j)
    (hflags : qpd.Flags (x.updating i) → qpd'.Flags (updating i))
    (hcr : ∀ c ∈ creating, updating c.1 = none)
    (hg : ∀ c ∈ creating, c.2.properties.is_gws = false) :
    UpdatingState.Inv ⟨{ dqm := dqm', qpds := A ++ qpd' :: B, creating }, updating⟩ := by
  have hflags' := h.flags
  have hcount := h.count
  rw [hs] at hflags' hcount
  refine ⟨forall_getElem?_set qpd hA (fun j z hz hj => ?_) ?_, ?_, hcr, hg⟩
  · show z.Flags (updating j)
    rw [hother j hj]
    exact hflags' j z hz
  · exact hflags (hflags' i qpd (by simp [← hA]))
  · unfold ActiveBooked at hb
    simp only [List.map_append, List.map_cons, List.sum_append, List.sum_cons] at hcount ⊢
    omega

theorem UpdatingState.Inv.at {f : Manager → Qpd → Manager × Qpd} {t : State} (h : x.Inv)
    (hat : x.state.At i f t) (hf : ∀ qpd, qpd.Flags (x.updating i) →
      ActiveBooked x.state.dqm qpd (f x.state.dqm qpd).1 (f x.state.dqm qpd).2 ∧
        (f x.state.dqm qpd).2.Flags (x.updating i)) : UpdatingState.Inv ⟨t, x.updating⟩ := by
  obtain ⟨A, qpd, B, hs, hA, rfl⟩ := hat
  have hflags := h.flags i qpd (by simp [hs, ← hA])
  exact h.set hs hA (hf qpd hflags).1 (fun _ _ => rfl) (fun _ => (hf qpd hflags).2) h.creating h.gws

/-- A step of the device. -/
theorem UpdatingState.Inv.manager (h : x.Inv)
    (hd : dqm'.active_queue_count = x.state.dqm.active_queue_count) :
    UpdatingState.Inv ⟨{ x.state with dqm := dqm' }, x.updating⟩ :=
  ⟨h.flags, hd.trans h.count, h.creating, h.gws⟩

/-- The window of an update opens. -/
theorem UpdatingState.Inv.modify {ptr : ℕ} {f : Queue → Queue} {t : State} (h : x.Inv)
    (hfree : x.Free i) (hat : x.state.At i (fun dqm qpd => (dqm, qpd.modify ptr f)) t)
    (hptr : ∀ q, (f q).ptr = q.ptr)
    (hf : ∀ q, (f q).properties.is_evicted = q.properties.is_evicted ∧
      (f q).properties.is_active = q.properties.is_active) :
    UpdatingState.Inv ⟨t, Function.update x.updating i (some ptr)⟩ := by
  obtain ⟨A, qpd, B, hs, hA, rfl⟩ := hat
  refine h.set hs hA (.of_eq rfl ?_) (fun j hj => Function.update_of_ne hj ..) (fun hflags => ?_)
    (fun c hc => ?_) h.gws
  · have hmap := map_updateFirst (p := fun q : Queue => decide (q.ptr = ptr)) (f := f)
      (g := fun q : Queue => one q.properties.is_active) (fun q => by rw [(hf q).2])
      qpd.queues_list
    unfold Qpd.activeLoad Qpd.modify
    rw [hmap]
  · rw [Function.update_self]
    rw [hfree.1] at hflags
    exact hflags.modify hptr hf
  · rw [Function.update_of_ne (hfree.2 c hc)]
    exact h.creating c hc

/-- **A step that keeps the promises keeps the invariant.** -/
theorem UpdatingState.Inv.step (hactive : ∀ p : QueueProperties, active p = p.queueIsActive)
    (h : x.Inv) (hok : x.StepOk active op) (hs : x.Step dev active op y) : y.Inv := by
  obtain ⟨hallow, hs, hnext⟩ := hs
  obtain ⟨t, updating⟩ := y
  dsimp only at hs hnext
  subst hnext
  cases hs with
  | openProcess pasid =>
    refine ⟨fun j qpd hqpd => ?_, ?_, h.creating, h.gws⟩
    · rcases Nat.lt_or_ge j x.state.qpds.length with hj | hj
      · exact h.flags j qpd (by rwa [List.getElem?_append_left hj] at hqpd)
      · rw [List.getElem?_append_right hj] at hqpd
        obtain rfl : qpd = { pasid } := by simpa using List.mem_of_getElem? hqpd
        exact ⟨fun hpos => absurd hpos (Nat.lt_irrefl 0),
          fun _ q hq => absurd (mem_of_mem_settled hq) List.not_mem_nil⟩
    · simpa [Qpd.activeLoad] using h.count
  | register h' => exact h.at h' fun qpd hf => ⟨.of_eq rfl rfl, hf⟩
  | unregister h' =>
    refine h.at h' fun qpd hf => ⟨.of_eq ?_ rfl, hf⟩
    unfold unregisterProcess
    split <;> rfl
  | setProperties h' => exact h.modify hallow h' (fun _ => rfl) fun _ => ⟨rfl, rfl⟩
  | setGws h' => exact h.modify hallow h' (fun _ => rfl) fun _ => ⟨rfl, rfl⟩
  | evict h' => exact h.at h' fun qpd hf => ⟨evictProcessQueues_eq.2.2, hf.evict⟩
  | restore h' =>
    exact h.at h' fun qpd hf =>
      ⟨(restoreProcessQueues_eq fun h1 q hq => (hf.evicted (by omega) q hq).2).2.2, hf.restore⟩
  | createKernel _ h' =>
    refine h.at h' fun qpd hf => ⟨createKernelQueueCpsch_booked.activeBooked, ?_⟩
    unfold createKernelQueueCpsch
    split
    · exact hf
    · exact hf.of_eq rfl rfl
  | @destroyKernel i ptr fw A B qpd kq _ hs hA hk =>
    have hptr := List.find?_some hk
    simp only [decide_eq_true_eq] at hptr
    subst hptr
    exact h.set hs hA (destroyKernelQueueCpsch_booked hk).activeBooked (fun _ _ => rfl)
      (fun hf => hf.of_eq rfl rfl) h.creating h.gws
  | @createBegin i args out A B qpd qpd' dqm' q _ hs hA hb =>
    obtain ⟨hbooked, hgws⟩ := createBegin_booked hb
    have hframe := @createBegin_evicted dev out x.state.dqm qpd args.initUserQueue
    rw [hb] at hframe
    exact h.set hs hA hbooked.activeBooked (fun _ _ => rfl) (fun hf => hf.of_eq hframe.1 hframe.2)
      (List.forall_mem_cons.2 ⟨hallow.1, h.creating⟩)
      (List.forall_mem_cons.2 ⟨hgws q rfl, h.gws⟩)
  | @createFails i args out A B qpd qpd' dqm' e _ hs hA hb =>
    have hframe := @createBegin_evicted dev out x.state.dqm qpd args.initUserQueue
    rw [hb] at hframe
    exact h.set hs hA (createBegin_booked hb).1.activeBooked (fun _ _ => rfl)
      (fun hf => hf.of_eq hframe.1 hframe.2) h.creating h.gws
  | @createEnd i ptr out q t C D hc hptr h' =>
    obtain ⟨A, qpd, B, hs, hA, rfl⟩ := h'
    have hmem : (i, q) ∈ x.state.creating :=
      hc ▸ List.mem_append_right _ (List.mem_cons_self ..)
    have hrest : ∀ c ∈ C ++ D, c ∈ x.state.creating := by
      intro c hmem
      rw [hc]
      rcases List.mem_append.1 hmem with hmem | hmem
      · exact List.mem_append_left _ hmem
      · exact List.mem_append_right _ (List.mem_cons_of_mem _ hmem)
    have hnone : x.updating i = none := h.creating _ hmem
    have hs' : x.state.qpds = A ++ qpd :: B := hs
    have hbooked : Booked x.state.dqm qpd (createEnd dev active out x.state.dqm qpd q).2.1
        (createEnd dev active out x.state.dqm qpd q).2.2 := by
      unfold Dqm.createEnd
      split
      · exact createQueueNocpschEnd_booked (h.gws _ hmem)
      · exact createQueueCpschEnd_booked (h.gws _ hmem)
    refine h.set hs hA hbooked.activeBooked (fun _ _ => rfl) (fun hf => ?_)
      (fun c hc => h.creating c (hrest c hc)) fun c hc => h.gws c (hrest c hc)
    show Qpd.Flags (x.updating i) _
    rw [hnone] at hf ⊢
    exact hf.createEnd hactive fun hp => hok hp qpd (by simp [hs', ← hA]) q hmem hptr
  | @destroy i ptr out A B qpd q hs hA hq =>
    have hptr := List.find?_some hq
    simp only [decide_eq_true_eq] at hptr
    subst hptr
    have hbooked : Booked x.state.dqm qpd (destroyQueue dev out x.state.dqm qpd q).2.1
        (destroyQueue dev out x.state.dqm qpd q).2.2 := by
      unfold destroyQueue
      split
      · exact destroyQueueNocpschLocked_booked hq
      · exact destroyQueueCpsch_booked hq
    refine h.set hs hA hbooked.activeBooked (fun _ _ => rfl) (fun hf => ?_) h.creating h.gws
    have hnone : x.updating i = none := hallow.1
    show Qpd.Flags (x.updating i) _
    rw [hnone] at hf ⊢
    exact hf.subset queues_list_destroyQueue_subset.1 queues_list_destroyQueue_subset.2
  | @update i ptr out A B qpd q hs hA hq =>
    have hptr := List.find?_some hq
    simp only [decide_eq_true_eq] at hptr
    subst hptr
    refine h.set hs hA (updateQueue_eq hq).2.1 (fun j hj => Function.update_of_ne hj ..)
      (fun hf => ?_) (fun c hc => ?_) h.gws
    · show Qpd.Flags (Function.update x.updating i none i) _
      rw [Function.update_self]
      rw [show x.updating i = some q.ptr from hallow] at hf
      exact hf.update hactive hq fun h0 hne => hok qpd (by simp [hs, ← hA]) q hq h0 hne
    · show Function.update x.updating i none c.1 = none
      by_cases hci : c.1 = i
      · rw [hci, Function.update_self]
      · rw [Function.update_of_ne hci]
        exact h.creating c hc
  | start fw =>
    refine h.manager ?_
    split
    · unfold startNocpsch
      split <;> rfl
    · exact active_queue_count_executeQueuesCpsch
  | stop fw =>
    refine h.manager ?_
    split
    · rfl
    · unfold stopCpsch
      dsimp only
      split
      · exact congrArg Prod.fst counters_unmapQueuesCpsch
      · rfl
  | preReset => exact h.manager rfl

/-- The manager starts with the invariant. -/
theorem UpdatingState.inv_init {sched_policy : SchedPolicy} :
    UpdatingState.Inv ⟨State.init dev sched_policy, fun _ => none⟩ where
  flags _ _ hi := absurd (List.mem_of_getElem? hi) List.not_mem_nil
  count := by
    unfold State.init
    dsimp only
    split <;> rfl
  creating _ hc := absurd hc List.not_mem_nil
  gws _ hc := absurd hc List.not_mem_nil

end

end Codrive.Dqm
