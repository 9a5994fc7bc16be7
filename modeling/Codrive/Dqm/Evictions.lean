/-
# The eviction depth and the activity of the queues

While a process is evicted its queues are marked so and none is active; otherwise each is as
active as its properties say.  `Flags` says this of one process, and each operation of
`src/src/cmdio/linux/opu_device_queue_manager.c` keeps it and counts the active queues
(`ActiveBooked`).  A queue that is being updated has new properties and its old activity until
`update_queue` runs, and is left out meanwhile.

`create_queue_nocpsch` reads the eviction depth before it gives the lock up, so an eviction in
between goes unnoticed; and `update_queue` returns before `update_mqd` when the queue cannot be
taken off the hardware.
-/

import Codrive.Dqm.Runs

namespace Codrive.Dqm

open Codrive.Basis

/-- The queues of a list but the one that is being updated. -/
def settledQueues (updating : Option ℕ) (l : List Queue) : List Queue :=
  match updating with
  | none => l
  | some ptr => l.eraseP (·.ptr = ptr)

/-- **The activity of the queues follows the eviction depth.** -/
structure Qpd.Flags (updating : Option ℕ) (qpd : Qpd) : Prop where
  evicted : 0 < qpd.evicted → ∀ q ∈ qpd.queues_list,
    q.properties.is_evicted = true ∧ q.properties.is_active = false
  active : qpd.evicted = 0 → ∀ q ∈ settledQueues updating qpd.queues_list,
    q.properties.is_active = q.properties.queueIsActive

/-- How many of the queues of a process are active, its kernel queues included. -/
def Qpd.activeLoad (qpd : Qpd) : ℤ :=
  (qpd.queues_list.map fun q => one q.properties.is_active).sum + qpd.priv_queue_list.length

/-- `active_queue_count` changed as the active queues of the process did. -/
def ActiveBooked (dqm : Manager) (qpd : Qpd) (dqm' : Manager) (qpd' : Qpd) : Prop :=
  dqm'.active_queue_count + qpd.activeLoad = dqm.active_queue_count + qpd'.activeLoad

/-- A queue as the evictions leave it. -/
def Queue.evict (q : Queue) : Queue :=
  { q with properties := { q.properties with is_evicted := true, is_active := false } }

/-- A queue as the restores leave it. -/
def Queue.restore (q : Queue) : Queue :=
  let q := q.setEvicted false
  if q.properties.queueIsActive then
    { q with properties := { q.properties with is_active := true } }
  else q

/-- The queue of a creation gets listed. -/
def CreateLists (active : MqdActive) (out : Outcome) (dqm : Manager) (q : Queue) : Prop :=
  out.allocate_mqd = true ∧ (active q.properties = true → dqm.sched_running = true →
    out.load_mqd (q.setActive active) = none)

/-- A queue that `update_queue` gets off the hardware. -/
def TakenOff (out : Outcome) (dqm : Manager) (q : Queue) : Prop :=
  if dqm.sched_policy ≠ .noHws then (unmapQueuesCpsch out.fw dqm).1 = none
  else q.properties.is_active = true → q.properties.type.isUser = true →
    dqm.sched_running = true ∧ out.destroy_mqd q = none

section

variable {dev : Dev} {active : MqdActive} {out : Outcome} {fw : Fw} {updating : Option ℕ}
variable {dqm dqm' : Manager} {qpd qpd' : Qpd} {q : Queue}

/-! ### Counting the active queues -/

theorem fst_load (q : Queue) : q.load.1 = one q.properties.is_active := by
  unfold Queue.load one
  split <;> rfl

theorem fst_sum {l : List (ℤ × ℤ × ℤ)} : l.sum.1 = (l.map Prod.fst).sum := by
  induction l with
  | nil => rfl
  | cons x l ih => rw [List.sum_cons, List.map_cons, List.sum_cons, Prod.fst_add, ih]

theorem activeLoad_eq : qpd.activeLoad = qpd.load.1 := by
  unfold Qpd.activeLoad Qpd.load
  rw [Prod.fst_add, fst_sum, fst_sum, List.map_map, List.map_map]
  congr 1
  · exact congrArg List.sum (List.map_congr_left fun q _ => (fst_load q).symm)
  · induction qpd.priv_queue_list with
    | nil => rfl
    | cons kq l ih =>
      rw [List.length_cons, List.map_cons, List.sum_cons, ← ih]
      push_cast
      exact add_comm _ _

/-- What is booked in all counters is booked in this one. -/
theorem Booked.activeBooked (h : Booked dqm qpd dqm' qpd') : ActiveBooked dqm qpd dqm' qpd' := by
  unfold ActiveBooked
  rw [activeLoad_eq, activeLoad_eq]
  exact congrArg Prod.fst h.counters

theorem ActiveBooked.of_eq (hd : dqm'.active_queue_count = dqm.active_queue_count)
    (hq : qpd'.activeLoad = qpd.activeLoad) : ActiveBooked dqm qpd dqm' qpd' := by
  unfold ActiveBooked
  rw [hd, hq]

theorem active_queue_count_executeQueuesCpsch :
    (executeQueuesCpsch fw dqm).2.active_queue_count = dqm.active_queue_count :=
  congrArg Prod.fst counters_executeQueuesCpsch

/-! ### Evictions and restores -/

theorem evictQueueNocpsch_eq (s : LoopState) : (evictQueueNocpsch out s q).2 = q.evict ∧
    (evictQueueNocpsch out s q).1.dqm.active_queue_count + one q.properties.is_active =
      s.dqm.active_queue_count := by
  unfold evictQueueNocpsch
  cases ha : q.properties.is_active with
  | false =>
    refine ⟨?_, by simp [Queue.setEvicted, ha, one]⟩
    simp only [Queue.setEvicted, ha, Bool.not_false, if_true, Queue.evict]
  | true =>
    cases hg : q.properties.is_gws <;> cases hr : s.dqm.sched_running <;>
      simp [Queue.setEvicted, decrementQueueCount, ha, hg, hr, Queue.evict, one]

theorem evictQueueCpsch_eq : (evictQueueCpsch dqm q).2 = q.evict ∧
    (evictQueueCpsch dqm q).1.active_queue_count + one q.properties.is_active =
      dqm.active_queue_count := by
  unfold evictQueueCpsch
  cases ha : q.properties.is_active with
  | false =>
    refine ⟨?_, by simp [Queue.setEvicted, ha, one]⟩
    simp only [Queue.setEvicted, ha, Bool.not_false, if_true, Queue.evict]
  | true => simp [Queue.setEvicted, decrementQueueCount, ha, Queue.evict, one]

theorem restoreQueueNocpsch_eq (s : LoopState) (hi : q.properties.is_active = false) :
    (restoreQueueNocpsch out s q).2 = q.restore ∧
      (restoreQueueNocpsch out s q).1.dqm.active_queue_count =
        s.dqm.active_queue_count + one q.restore.properties.is_active := by
  have hi' : (q.setEvicted false).properties.is_active = false := hi
  unfold restoreQueueNocpsch Queue.restore
  generalize q.setEvicted false = q' at hi' ⊢
  cases ha : q'.properties.queueIsActive with
  | false => simp [ha, hi', one]
  | true =>
    cases hg : q'.properties.is_gws <;> cases hr : s.dqm.sched_running <;>
      simp [incrementQueueCount, ha, hg, hr, one]

theorem restoreQueueCpsch_eq (hi : q.properties.is_active = false) :
    (restoreQueueCpsch dqm q).2 = q.restore ∧
      (restoreQueueCpsch dqm q).1.active_queue_count =
        dqm.active_queue_count + one q.restore.properties.is_active := by
  have hi' : (q.setEvicted false).properties.is_active = false := hi
  unfold restoreQueueCpsch Queue.restore
  generalize q.setEvicted false = q' at hi' ⊢
  cases ha : q'.properties.queueIsActive with
  | false => simp [ha, hi', one]
  | true => simp [ha, incrementQueueCount, one]

/-- **A loop that changes each queue alike**, and books its activity. -/
theorem forEach_active {σ : Type*} (book : σ → Manager) (P : Queue → Prop)
    {f : σ → Queue → σ × Queue} {g : Queue → Queue} (hf : ∀ s q, P q → (f s q).2 = g q ∧
      (book (f s q).1).active_queue_count + one q.properties.is_active =
        (book s).active_queue_count + one (g q).properties.is_active) (s : σ) (l : List Queue)
    (hl : ∀ q ∈ l, P q) :
    (forEach f s l).2 = l.map g ∧ (book (forEach f s l).1).active_queue_count +
      (l.map fun q => one q.properties.is_active).sum =
        (book s).active_queue_count + ((l.map g).map fun q => one q.properties.is_active).sum := by
  induction l generalizing s with
  | nil => exact ⟨rfl, rfl⟩
  | cons q l ih =>
    obtain ⟨hq, hl⟩ := List.forall_mem_cons.1 hl
    obtain ⟨h₁, h₂⟩ := hf s q hq
    obtain ⟨h₃, h₄⟩ := ih (f s q).1 hl
    simp only [forEach, List.map_cons, List.sum_cons]
    refine ⟨by rw [h₁, h₃], ?_⟩
    omega

theorem restore_active (q : Queue) (hi : q.properties.is_active = false) :
    q.restore.properties.is_active = q.restore.properties.queueIsActive := by
  unfold Queue.restore
  dsimp only
  split
  · rename_i ha
    exact ha.symm
  · rename_i ha
    rw [Bool.not_eq_true] at ha
    rw [ha]
    exact hi

/-- **`evict_process_queues`** counts the evictions, and the first one deactivates the queues. -/
theorem evictProcessQueues_eq :
    (evictProcessQueues out dqm qpd).2.2.evicted = qpd.evicted + 1 ∧
      (evictProcessQueues out dqm qpd).2.2.queues_list =
        (if qpd.evicted = 0 then qpd.queues_list.map Queue.evict else qpd.queues_list) ∧
      ActiveBooked dqm qpd (evictProcessQueues out dqm qpd).2.1
        (evictProcessQueues out dqm qpd).2.2 := by
  unfold evictProcessQueues
  split
  · obtain ⟨hl, hc⟩ := forEach_active LoopState.dqm (fun _ => True)
      (fun s q _ => ⟨(@evictQueueNocpsch_eq out q s).1,
        by simpa [Queue.evict, one] using (@evictQueueNocpsch_eq out q s).2⟩)
      ⟨dqm, qpd.mapped_gws_queue, none⟩ qpd.queues_list fun _ _ => trivial
    unfold evictProcessQueuesNocpsch
    dsimp only
    split
    · rename_i h
      exact ⟨rfl, by rw [if_neg (by omega)], .of_eq rfl rfl⟩
    · rename_i h
      refine ⟨rfl, by rw [if_pos (by omega)]; exact hl, ?_⟩
      unfold ActiveBooked Qpd.activeLoad
      dsimp only
      rw [hl]
      dsimp only at hc
      omega
  · obtain ⟨hl, hc⟩ := forEach_active id (fun _ => True)
      (fun s q _ => ⟨(@evictQueueCpsch_eq s q).1,
        by simpa [Queue.evict, one] using (@evictQueueCpsch_eq s q).2⟩)
      dqm qpd.queues_list fun _ _ => trivial
    unfold evictProcessQueuesCpsch
    dsimp only
    split
    · rename_i h
      exact ⟨rfl, by rw [if_neg (by omega)], .of_eq rfl rfl⟩
    · rename_i h
      refine ⟨rfl, by rw [if_pos (by omega)]; exact hl, ?_⟩
      unfold ActiveBooked Qpd.activeLoad
      rw [active_queue_count_executeQueuesCpsch]
      dsimp only
      rw [hl]
      dsimp only [id] at hc
      omega

/-- **`restore_process_queues`** counts back, and the last one activates the queues of a process
whose memory is there. -/
theorem restoreProcessQueues_eq
    (hi : qpd.evicted = 1 → ∀ q ∈ qpd.queues_list, q.properties.is_active = false) :
    let stays := dqm.sched_policy = .noHws ∧ out.mm = false ∧ qpd.evicted = 1
    (restoreProcessQueues out dqm qpd).2.2.evicted =
        (if stays then 1 else qpd.evicted - 1) ∧
      (restoreProcessQueues out dqm qpd).2.2.queues_list =
        (if qpd.evicted = 1 ∧ ¬stays then qpd.queues_list.map Queue.restore
          else qpd.queues_list) ∧
      ActiveBooked dqm qpd (restoreProcessQueues out dqm qpd).2.1
        (restoreProcessQueues out dqm qpd).2.2 := by
  intro stays
  unfold restoreProcessQueues
  by_cases hp : dqm.sched_policy = .noHws
  · rw [if_pos hp]
    unfold restoreProcessQueuesNocpsch
    by_cases h0 : qpd.evicted = 0
    · rw [if_pos h0, if_neg (by simp [stays, h0]), if_neg (by simp [h0])]
      exact ⟨show qpd.evicted = qpd.evicted - 1 by omega, rfl, .of_eq rfl rfl⟩
    by_cases h1 : qpd.evicted > 1
    · have hne : qpd.evicted ≠ 1 := by omega
      rw [if_neg h0, if_pos h1, if_neg (by simp [stays, hne]), if_neg (by simp [hne])]
      exact ⟨rfl, rfl, .of_eq rfl rfl⟩
    have h1' : qpd.evicted = 1 := by omega
    by_cases hmm : out.mm = false
    · have hstays : stays := ⟨hp, hmm, h1'⟩
      rw [if_neg h0, if_neg h1, if_pos (by simp [hmm]), if_pos hstays, if_neg (by simp [hstays])]
      exact ⟨h1', rfl, .of_eq rfl rfl⟩
    · have hstays : ¬stays := fun h => hmm h.2.1
      obtain ⟨hl, hc⟩ := forEach_active LoopState.dqm (fun q => q.properties.is_active = false)
        (fun s q hq => ⟨(@restoreQueueNocpsch_eq out q s hq).1,
          by rw [hq]; simpa [one] using (@restoreQueueNocpsch_eq out q s hq).2⟩)
        ⟨dqm, qpd.mapped_gws_queue, none⟩ qpd.queues_list (hi (by omega))
      rw [if_neg h0, if_neg h1, if_neg (by simp [hmm]), if_neg hstays, if_pos ⟨h1', hstays⟩]
      refine ⟨by simp [h1'], hl, ?_⟩
      unfold ActiveBooked Qpd.activeLoad
      dsimp only
      rw [hl]
      dsimp only at hc
      omega
  · rw [if_neg hp]
    have hstays : ¬stays := fun h => hp h.1
    unfold restoreProcessQueuesCpsch
    rw [if_neg hstays]
    by_cases h0 : qpd.evicted = 0
    · rw [if_pos h0, if_neg (by simp [h0])]
      exact ⟨show qpd.evicted = qpd.evicted - 1 by omega, rfl, .of_eq rfl rfl⟩
    by_cases h1 : qpd.evicted > 1
    · have hne : qpd.evicted ≠ 1 := by omega
      rw [if_neg h0, if_pos h1, if_neg (by simp [hne])]
      exact ⟨rfl, rfl, .of_eq rfl rfl⟩
    have h1' : qpd.evicted = 1 := by omega
    obtain ⟨hl, hc⟩ := forEach_active id (fun q => q.properties.is_active = false)
      (fun s q hq => ⟨(@restoreQueueCpsch_eq s q hq).1,
        by rw [hq]; simpa [one] using (@restoreQueueCpsch_eq s q hq).2⟩)
      dqm qpd.queues_list (hi (by omega))
    rw [if_neg h0, if_neg h1, if_pos ⟨h1', hstays⟩]
    refine ⟨by simp [h1'], hl, ?_⟩
    unfold ActiveBooked Qpd.activeLoad
    dsimp only
    rw [active_queue_count_executeQueuesCpsch, hl]
    dsimp only [id] at hc
    omega

/-! ### What each operation keeps -/

theorem mem_of_mem_settled {l : List Queue} (h : q ∈ settledQueues updating l) : q ∈ l := by
  unfold settledQueues at h
  split at h
  · exact h
  · exact List.mem_of_mem_eraseP h

/-- A call that leaves the depth and the queues leaves the flags. -/
theorem Qpd.Flags.of_eq (h : qpd.Flags updating) (he : qpd'.evicted = qpd.evicted)
    (hl : qpd'.queues_list = qpd.queues_list) : qpd'.Flags updating :=
  ⟨by rw [he, hl]; exact h.evicted, by rw [he, hl]; exact h.active⟩

/-- Fewer queues keep the flags. -/
theorem Qpd.Flags.subset (h : qpd.Flags none) (he : qpd'.evicted = qpd.evicted)
    (hl : ∀ q ∈ qpd'.queues_list, q ∈ qpd.queues_list) : qpd'.Flags none :=
  ⟨fun hpos q hq => h.evicted (he ▸ hpos) q (hl q hq),
    fun h0 q hq => h.active (he ▸ h0) q (hl q hq)⟩

theorem Qpd.Flags.evict (h : qpd.Flags updating) :
    (evictProcessQueues out dqm qpd).2.2.Flags updating := by
  obtain ⟨he, hl, -⟩ := @evictProcessQueues_eq out dqm qpd
  refine ⟨fun _ q hq => ?_, fun h0 => by omega⟩
  rw [hl] at hq
  split at hq
  · obtain ⟨q, -, rfl⟩ := List.mem_map.1 hq
    exact ⟨rfl, rfl⟩
  · rename_i hne
    exact h.evicted (by omega) q hq

theorem Qpd.Flags.restore (h : qpd.Flags updating) :
    (restoreProcessQueues out dqm qpd).2.2.Flags updating := by
  have hi : 0 < qpd.evicted → ∀ q ∈ qpd.queues_list, q.properties.is_active = false :=
    fun hpos q hq => (h.evicted hpos q hq).2
  obtain ⟨he, hl, -⟩ := @restoreProcessQueues_eq out dqm qpd fun h1 => hi (by omega)
  refine ⟨fun hpos q hq => ?_, fun h0 q hq => ?_⟩
  · rw [he] at hpos
    rw [hl] at hq
    split at hq
    · rename_i hc
      rw [if_neg hc.2] at hpos
      omega
    · refine h.evicted ?_ q hq
      split at hpos
      · rename_i hs
        omega
      · omega
  · rw [he] at h0
    rw [hl] at hq
    split at hq
    · rename_i hc
      obtain ⟨q, hmem, rfl⟩ := List.mem_map.1 (mem_of_mem_settled hq)
      exact restore_active q (hi (by omega) q hmem)
    · rename_i hc
      refine h.active ?_ q hq
      split at h0
      · omega
      · rename_i hs
        by_contra hne
        exact hc ⟨by omega, hs⟩

/-- What writes the properties of a queue. -/
theorem Qpd.Flags.modify {ptr : ℕ} {f : Queue → Queue} (h : qpd.Flags none)
    (hptr : ∀ q, (f q).ptr = q.ptr)
    (hf : ∀ q, (f q).properties.is_evicted = q.properties.is_evicted ∧
      (f q).properties.is_active = q.properties.is_active) :
    (qpd.modify ptr f).Flags (some ptr) := by
  refine ⟨fun hpos => ?_, fun h0 q hq => ?_⟩
  · have hmap := map_updateFirst (p := fun q : Queue => decide (q.ptr = ptr))
      (g := fun q : Queue => (q.properties.is_evicted, q.properties.is_active)) (f := f)
      (fun q => Prod.ext (hf q).1 (hf q).2) qpd.queues_list
    intro q hq
    have hmem : (q.properties.is_evicted, q.properties.is_active) ∈
        qpd.queues_list.map fun q => (q.properties.is_evicted, q.properties.is_active) :=
      hmap ▸ List.mem_map_of_mem hq
    obtain ⟨q', hq', he⟩ := List.mem_map.1 hmem
    have hflags := h.evicted hpos q' hq'
    simp only [Prod.mk.injEq] at he
    exact ⟨he.1 ▸ hflags.1, he.2 ▸ hflags.2⟩
  · refine h.active h0 q ?_
    have herase := eraseP_updateFirst (p := fun q : Queue => decide (q.ptr = ptr)) (f := f)
      (fun q => by simp only [hptr]) qpd.queues_list
    show q ∈ qpd.queues_list
    have hq' : q ∈ (updateFirst (fun q : Queue => decide (q.ptr = ptr)) f qpd.queues_list).eraseP
        (fun q : Queue => decide (q.ptr = ptr)) := hq
    rw [herase] at hq'
    exact List.mem_of_mem_eraseP hq'

/-- **A queue that is listed inactive or unevicted** keeps the flags. -/
theorem Qpd.Flags.cons (h : qpd.Flags none) (he : qpd'.evicted = qpd.evicted)
    (hl : qpd'.queues_list = q :: qpd.queues_list)
    (hactive : q.properties.is_active = q.properties.queueIsActive)
    (hev : 0 < qpd.evicted → q.properties.is_evicted = true) : qpd'.Flags none := by
  refine ⟨fun hpos x hx => ?_, fun h0 x hx => ?_⟩
  · rw [he] at hpos
    rw [hl] at hx
    rcases List.mem_cons.1 hx with rfl | hx
    · refine ⟨hev hpos, ?_⟩
      rw [hactive]
      simp [QueueProperties.queueIsActive, hev hpos]
    · exact h.evicted hpos x hx
  · rw [he] at h0
    have hx' : x ∈ q :: qpd.queues_list := hl ▸ hx
    rcases List.mem_cons.1 hx' with rfl | hx
    · exact hactive
    · exact h.active h0 x hx

theorem undoCreateNocpsch_frame : (undoCreateNocpsch dev dqm qpd q).2.evicted = qpd.evicted ∧
    (undoCreateNocpsch dev dqm qpd q).2.queues_list = qpd.queues_list := by
  unfold undoCreateNocpsch
  obtain ⟨_, _, hvmid⟩ := deallocateVmidIfEmpty_changes (deallocateSlot dev dqm q)
    (deallocateDoorbell dev qpd q)
  obtain ⟨_, hdoorbell⟩ := deallocateDoorbell_changes dev qpd q
  rw [hvmid, hdoorbell]
  exact ⟨rfl, rfl⟩

/-- **The rest of `create_queue`**, of a queue whose eviction flag is still right. -/
theorem Qpd.Flags.createEnd (h : qpd.Flags none)
    (hactive : ∀ p : QueueProperties, active p = p.queueIsActive)
    (hev : dqm.sched_policy = .noHws → CreateLists active out dqm q → 0 < qpd.evicted →
      q.properties.is_evicted = true) :
    (createEnd dev active out dqm qpd q).2.2.Flags none := by
  have hset : (q.setActive active).properties.is_active =
      (q.setActive active).properties.queueIsActive := hactive _
  unfold Dqm.createEnd
  split
  · rename_i hp
    have hundo : (undoCreateNocpsch dev dqm qpd q).2.Flags none :=
      h.of_eq undoCreateNocpsch_frame.1 undoCreateNocpsch_frame.2
    have hlist : CreateLists active out dqm q →
        (addQueueToList dqm qpd (q.setActive active)).2.Flags none :=
      fun hlists => h.cons rfl rfl hset (hev hp hlists)
    unfold createQueueNocpschEnd
    split
    · exact hundo
    rename_i hmqd
    have hmqd' : out.allocate_mqd = true := by simpa using hmqd
    dsimp only
    split
    · split
      · exact hundo
      · rename_i hload
        exact hlist ⟨hmqd', fun _ _ => hload⟩
    · rename_i hno
      refine hlist ⟨hmqd', fun ha hr => absurd ?_ hno⟩
      simp [Queue.setActive, ha, hr]
  · unfold createQueueCpschEnd
    exact h.cons (q := (q.setEvicted (qpd.evicted ≠ 0)).setActive active) rfl rfl
      (hactive _) fun hpos => decide_eq_true (by omega)

theorem deallocateDoorbell_evicted : (deallocateDoorbell dev qpd q).evicted = qpd.evicted ∧
    (deallocateDoorbell dev qpd q).queues_list = qpd.queues_list := by
  obtain ⟨_, h⟩ := deallocateDoorbell_changes dev qpd q
  rw [h]
  exact ⟨rfl, rfl⟩

/-- What `destroy_queue` leaves listed. -/
theorem queues_list_destroyQueue_subset :
    (destroyQueue dev out dqm qpd q).2.2.evicted = qpd.evicted ∧
      ∀ x ∈ (destroyQueue dev out dqm qpd q).2.2.queues_list, x ∈ qpd.queues_list := by
  have hdoor := @deallocateDoorbell_evicted dev qpd q
  have hdel : ∀ x ∈ ((deallocateDoorbell dev qpd q).listDel q.ptr).queues_list,
      x ∈ qpd.queues_list := by
    intro x hx
    rw [← hdoor.2]
    exact List.mem_of_mem_eraseP hx
  have hdrop : ∀ dqm qpd, (dropActive dqm qpd q).2.evicted = qpd.evicted := by
    intro dqm qpd
    unfold dropActive
    dsimp only
    split
    · split <;> rfl
    · rfl
  have hunlist : ∀ r dqm qpd, (unlistNocpsch r dqm qpd q).2.evicted = qpd.evicted := by
    intro r dqm qpd
    unfold unlistNocpsch
    dsimp only
    split <;> rfl
  have hcpsch : ∀ dqm qpd, (dropActiveCpsch out.fw dqm qpd q).2.2.evicted = qpd.evicted := by
    intro dqm qpd
    unfold dropActiveCpsch
    dsimp only
    split
    · split <;> rfl
    · rfl
  unfold destroyQueue
  split
  · unfold destroyQueueNocpschLocked
    split
    · exact ⟨rfl, fun _ hx => hx⟩
    dsimp only
    split
    · exact ⟨hdoor.1, fun x hx => hdoor.2 ▸ hx⟩
    · refine ⟨(hdrop _ _).trans ((hunlist _ _ _).trans hdoor.1), fun x hx => hdel x ?_⟩
      rw [dropActive_frame.2.2.1] at hx
      rwa [(unlistNocpsch_frame _).2.2.1] at hx
  · unfold destroyQueueCpsch
    split
    · exact ⟨rfl, fun _ hx => hx⟩
    · refine ⟨(hcpsch _ _).trans hdoor.1, fun x hx => hdel x ?_⟩
      dsimp only at hx
      rwa [(dropActiveCpsch_frame _).2.2.1] at hx

/-- `update_queue` returns before `update_mqd` exactly when the queue cannot be taken off. -/
theorem prepareUpdate_spec :
    (∃ r dqm', prepareUpdate out dqm q = .error (r, dqm') ∧ ¬TakenOff out dqm q ∧
      dqm'.active_queue_count = dqm.active_queue_count) ∨
    ∃ dqm', prepareUpdate out dqm q = .ok dqm' ∧
      dqm'.active_queue_count = dqm.active_queue_count := by
  have hcount : (unmapQueuesCpsch out.fw dqm).2.active_queue_count = dqm.active_queue_count :=
    congrArg Prod.fst counters_unmapQueuesCpsch
  unfold prepareUpdate TakenOff
  by_cases hp : dqm.sched_policy ≠ .noHws
  · rw [if_pos hp, if_pos hp]
    generalize unmapQueuesCpsch out.fw dqm = x at hcount ⊢
    obtain ⟨_ | e, dqm'⟩ := x
    · exact .inr ⟨_, rfl, hcount⟩
    · exact .inl ⟨_, _, rfl, by simp, hcount⟩
  · rw [if_neg hp, if_neg hp]
    by_cases ha : (q.properties.is_active && q.properties.type.isUser) = true
    · have ha' := ha
      rw [Bool.and_eq_true] at ha'
      rw [if_pos ha]
      by_cases hr : dqm.sched_running = true
      · rw [if_neg (by simp [hr])]
        cases hd : out.destroy_mqd q with
        | none => exact .inr ⟨_, rfl, rfl⟩
        | some e => exact .inl ⟨_, _, rfl, fun h => by simpa using (h ha'.1 ha'.2).2, rfl⟩
      · rw [if_pos (by simp [hr])]
        exact .inl ⟨_, _, rfl, fun h => hr (h ha'.1 ha'.2).1, rfl⟩
    · rw [if_neg ha]
      exact .inr ⟨_, rfl, rfl⟩

theorem updateGws_active (m : Bool) :
    (updateGws dqm m q).1.active_queue_count = dqm.active_queue_count ∧
      (updateGws dqm m q).2.2.ptr = q.ptr ∧
      (updateGws dqm m q).2.2.properties.is_active = q.properties.is_active ∧
      (updateGws dqm m q).2.2.properties.is_evicted = q.properties.is_evicted ∧
      (updateGws dqm m q).2.2.properties.queueIsActive = q.properties.queueIsActive := by
  unfold updateGws
  dsimp only
  split_ifs <;> exact ⟨rfl, rfl, rfl, rfl, rfl⟩

theorem countActivity_active (type : QueueType) (b c : Bool) :
    (countActivity dqm type b c).active_queue_count + one b = dqm.active_queue_count + one c := by
  unfold countActivity
  cases b <;> cases c <;> simp [incrementQueueCount, decrementQueueCount, one]

/-- What `update_queue` does to the queues and to the count. -/
theorem updateQueue_eq (hq : qpd.queues_list.find? (fun x => decide (x.ptr = q.ptr)) = some q) :
    (updateQueue active out dqm qpd q).2.2.evicted = qpd.evicted ∧
      ActiveBooked dqm qpd (updateQueue active out dqm qpd q).2.1
        (updateQueue active out dqm qpd q).2.2 ∧
      ((updateQueue active out dqm qpd q).2.2.queues_list = qpd.queues_list ∧
          ¬TakenOff out dqm q ∨
        ∃ q', (updateQueue active out dqm qpd q).2.2.queues_list =
            updateFirst (fun x => decide (x.ptr = q.ptr)) (fun _ => q') qpd.queues_list ∧
          q'.properties.is_evicted = q.properties.is_evicted ∧
          q'.properties.is_active = active q.properties ∧
          q'.properties.queueIsActive = q.properties.queueIsActive) := by
  unfold updateQueue
  rcases @prepareUpdate_spec out dqm q with ⟨r, dqm₁, hp, hoff, hc⟩ | ⟨dqm₁, hp, hc⟩
  · rw [hp]
    exact ⟨rfl, .of_eq hc rfl, .inl ⟨rfl, hoff⟩⟩
  rw [hp]
  have hcount := @countActivity_active dqm₁ q.properties.type q.properties.is_active
    (active q.properties)
  obtain ⟨hg, hptr, hact, hev, hqa⟩ := @updateGws_active (countActivity dqm₁ q.properties.type
    q.properties.is_active (active q.properties)) (q.setActive active) qpd.mapped_gws_queue
  dsimp only [Queue.setActive] at hg hptr hact hev hqa ⊢
  generalize updateGws _ qpd.mapped_gws_queue _ = x at hg hptr hact hev hqa ⊢
  obtain ⟨A, B, hl, -, hf⟩ := exists_first hq
  have hlist : updateFirst (fun y : Queue => decide (y.ptr = x.2.2.ptr)) (fun _ => x.2.2)
      qpd.queues_list = A ++ x.2.2 :: B := by
    rw [hptr]
    exact hf fun _ => x.2.2
  -- the count follows the queue
  have hbooked : ∀ dqm' : Manager, dqm'.active_queue_count = x.1.active_queue_count →
      ActiveBooked dqm qpd dqm' { qpd with
        mapped_gws_queue := x.2.1
        queues_list := updateFirst (fun y : Queue => decide (y.ptr = x.2.2.ptr)) (fun _ => x.2.2)
          qpd.queues_list } := by
    intro dqm' hd
    unfold ActiveBooked Qpd.activeLoad
    dsimp only
    rw [hlist, hl]
    simp only [List.map_append, List.map_cons, List.sum_append, List.sum_cons, hact]
    omega
  have hupdated : ∃ q' : Queue, updateFirst (fun y : Queue => decide (y.ptr = x.2.2.ptr))
      (fun _ => x.2.2) qpd.queues_list =
        updateFirst (fun x => decide (x.ptr = q.ptr)) (fun _ => q') qpd.queues_list ∧
      q'.properties.is_evicted = q.properties.is_evicted ∧
      q'.properties.is_active = active q.properties ∧
      q'.properties.queueIsActive = q.properties.queueIsActive :=
    ⟨x.2.2, by rw [hptr], hev, hact, hqa⟩
  split
  · have hmap : (mapQueuesCpsch out.fw x.1).2.active_queue_count = x.1.active_queue_count :=
      congrArg Prod.fst counters_mapQueuesCpsch
    exact ⟨rfl, hbooked _ hmap, .inr hupdated⟩
  · split
    · exact ⟨rfl, hbooked _ rfl, .inr hupdated⟩
    · exact ⟨rfl, hbooked _ rfl, .inr hupdated⟩

/-- **`update_queue`**, of a queue that is taken off the hardware or need not be. -/
theorem Qpd.Flags.update (h : qpd.Flags (some q.ptr))
    (hactive : ∀ p : QueueProperties, active p = p.queueIsActive)
    (hq : qpd.queues_list.find? (fun x => decide (x.ptr = q.ptr)) = some q)
    (hoff : qpd.evicted = 0 → q.properties.is_active ≠ q.properties.queueIsActive →
      TakenOff out dqm q) :
    (updateQueue active out dqm qpd q).2.2.Flags none := by
  obtain ⟨he, -, hcases⟩ := @updateQueue_eq active out dqm qpd q hq
  obtain ⟨A, B, hl, herase, hf⟩ := exists_first hq
  have hmem : q ∈ qpd.queues_list := List.mem_of_find?_eq_some hq
  have hrest : qpd.evicted = 0 →
      ∀ x ∈ A ++ B, x.properties.is_active = x.properties.queueIsActive :=
    fun h0 x hx => h.active h0 x (show x ∈ qpd.queues_list.eraseP _ from herase ▸ hx)
  have hall : ∀ q', (qpd.evicted = 0 → q'.properties.is_active = q'.properties.queueIsActive) →
      qpd.evicted = 0 →
        ∀ x ∈ A ++ q' :: B, x.properties.is_active = x.properties.queueIsActive := by
    intro q' hq' h0 x hx
    rcases List.mem_append.1 hx with hx | hx
    · exact hrest h0 x (List.mem_append_left _ hx)
    · rcases List.mem_cons.1 hx with rfl | hx
      · exact hq' h0
      · exact hrest h0 x (List.mem_append_right _ hx)
  rcases hcases with ⟨hlist, hstuck⟩ | ⟨q', hlist, hev, hact, hqa⟩
  · refine ⟨fun hpos => ?_, fun h0 => ?_⟩
    · rw [hlist]
      exact h.evicted (he ▸ hpos)
    · show ∀ x ∈ (updateQueue active out dqm qpd q).2.2.queues_list, _
      rw [hlist, hl]
      refine hall q (fun h0 => ?_) (he ▸ h0)
      by_contra hne
      exact hstuck (hoff h0 hne)
  · rw [hf] at hlist
    refine ⟨fun hpos x hx => ?_, fun h0 => ?_⟩
    · rw [he] at hpos
      rw [hlist] at hx
      rcases List.mem_append.1 hx with hx | hx
      · exact h.evicted hpos x (hl ▸ List.mem_append_left _ hx)
      · rcases List.mem_cons.1 hx with rfl | hx
        · have hqev := (h.evicted hpos q hmem).1
          refine ⟨hev.trans hqev, ?_⟩
          rw [hact, hactive]
          simp [QueueProperties.queueIsActive, hqev]
        · exact h.evicted hpos x (hl ▸ List.mem_append_right _ (List.mem_cons_of_mem _ hx))
    · show ∀ x ∈ (updateQueue active out dqm qpd q).2.2.queues_list, _
      rw [hlist]
      refine hall q' (fun _ => ?_) (he ▸ h0)
      rw [hact, hactive, hqa]

theorem evicted_deallocateVmidIfEmpty :
    (deallocateVmidIfEmpty dqm qpd).2.evicted = qpd.evicted := by
  obtain ⟨_, _, h⟩ := deallocateVmidIfEmpty_changes dqm qpd
  rw [h]

theorem allocateVmidIfEmpty_evicted {q' : Queue}
    (h : allocateVmidIfEmpty dev dqm qpd q = .ok (dqm', qpd', q')) :
    qpd'.evicted = qpd.evicted ∧ qpd'.queues_list = qpd.queues_list := by
  obtain ⟨_, _, _, rfl, rfl, rfl⟩ := allocateVmidIfEmpty_changes h
  exact ⟨rfl, rfl⟩

theorem allocateDoorbell_evicted {q' : Queue}
    (h : allocateDoorbell dev qpd q = .ok (qpd', q')) :
    qpd'.evicted = qpd.evicted ∧ qpd'.queues_list = qpd.queues_list := by
  obtain ⟨_, _, rfl, rfl⟩ := allocateDoorbell_changes h
  exact ⟨rfl, rfl⟩

/-- The first part of a creation lists nothing. -/
theorem createBegin_evicted : (createBegin dev out dqm qpd q).2.2.evicted = qpd.evicted ∧
    (createBegin dev out dqm qpd q).2.2.queues_list = qpd.queues_list := by
  unfold createBegin
  split
  · unfold createQueueNocpschBegin
    split
    · exact ⟨rfl, rfl⟩
    split
    · exact ⟨rfl, rfl⟩
    rename_i hvmid
    obtain ⟨h₁, h₂⟩ := allocateVmidIfEmpty_evicted hvmid
    dsimp only
    split
    · exact ⟨evicted_deallocateVmidIfEmpty.trans h₁, queues_list_deallocateVmidIfEmpty.trans h₂⟩
    split
    · exact ⟨evicted_deallocateVmidIfEmpty.trans h₁, queues_list_deallocateVmidIfEmpty.trans h₂⟩
    · rename_i hd
      obtain ⟨h₃, h₄⟩ := allocateDoorbell_evicted hd
      exact ⟨h₃.trans h₁, h₄.trans h₂⟩
  · unfold createQueueCpschBegin
    split
    · exact ⟨rfl, rfl⟩
    split
    · exact ⟨rfl, rfl⟩
    split
    · exact ⟨rfl, rfl⟩
    · rename_i hd
      obtain ⟨h₁, h₂⟩ := allocateDoorbell_evicted hd
      split
      · obtain ⟨h₃, h₄⟩ := @deallocateDoorbell_evicted dev _ _
        exact ⟨h₃.trans h₁, h₄.trans h₂⟩
      · exact ⟨h₁, h₂⟩

end

end Codrive.Dqm
