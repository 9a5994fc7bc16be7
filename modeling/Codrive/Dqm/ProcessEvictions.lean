/-
# Evicting a process from all its devices

`opu_process_evict_queues` and `opu_process_restore_queues` of
`src/src/cmdio/linux/opu_process.c`: the queues of a process on each of its devices, one device
after the other.  When a device fails, the evictions before it are rolled back.

An eviction that fails has been counted already and its queues are marked
(`evict_process_queues_nocpsch`: "keep going to maintain a consistent eviction state"), and the
rollback ends before the device that failed.
-/

import Codrive.Dqm.Evictions

namespace Codrive.Dqm

open Codrive.Basis

/-- `struct opu_process_device`: the process on one device, with the manager of the device. -/
structure Pdd where
  dqm : Manager
  qpd : Qpd

/-- `evict_process_queues` of the device. -/
def Pdd.evict (out : Outcome) (pdd : Pdd) : Option Errno × Pdd :=
  let r := evictProcessQueues out pdd.dqm pdd.qpd
  (r.1, { dqm := r.2.1, qpd := r.2.2 })

/-- `restore_process_queues` of the device. -/
def Pdd.restore (out : Outcome) (pdd : Pdd) : Option Errno × Pdd :=
  let r := restoreProcessQueues out pdd.dqm pdd.qpd
  (r.1, { dqm := r.2.1, qpd := r.2.2 })

/-- The first loop of `opu_process_evict_queues` from device `i` on: the error, the devices and
`n_evicted`. -/
def evictLoop (outs : ℕ → Outcome) (i : ℕ) : List Pdd → Option Errno × List Pdd × ℕ
  | [] => (none, [], 0)
  | pdd :: pdds =>
    match pdd.evict (outs i) with
    | (some e, pdd) => (some e, pdd :: pdds, 0)
    | (none, pdd) =>
      let (r, pdds, n_evicted) := evictLoop outs (i + 1) pdds
      (r, pdd :: pdds, n_evicted + 1)

/-- Its second loop, which restores `n_evicted` devices. -/
def rollBack (outs : ℕ → Outcome) (i : ℕ) : List Pdd → ℕ → List Pdd
  | pdd :: pdds, n_evicted + 1 => (pdd.restore (outs i)).2 :: rollBack outs (i + 1) pdds n_evicted
  | pdds, _ => pdds

/-- `opu_process_evict_queues`.  Device `i` gets `outs i` for its eviction and `backs i` for the
restore of the rollback. -/
def opuProcessEvictQueues (outs backs : ℕ → Outcome) (pdds : List Pdd) :
    Option Errno × List Pdd :=
  match evictLoop outs 0 pdds with
  | (none, pdds, _) => (none, pdds)
  | (some e, pdds, n_evicted) => (some e, rollBack backs 0 pdds n_evicted)

/-- What the evictions of a process change on a device. -/
structure Snapshot where
  evicted : ℕ
  /-- `is_active` and `is_evicted` of each queue. -/
  flags : List (Bool × Bool)
  /-- `active_queue_count`, `active_cp_queue_count` and `gws_queue_count`. -/
  counters : ℤ × ℤ × ℤ
  total_queue_count : ℤ
  processes_count : ℤ
  queue_count : ℤ
  deriving DecidableEq

/-- `is_active` and `is_evicted`. -/
def Queue.flags (q : Queue) : Bool × Bool := (q.properties.is_active, q.properties.is_evicted)

def Pdd.snapshot (pdd : Pdd) : Snapshot where
  evicted := pdd.qpd.evicted
  flags := pdd.qpd.queues_list.map Queue.flags
  counters := pdd.dqm.counters
  total_queue_count := pdd.dqm.total_queue_count
  processes_count := pdd.dqm.processes_count
  queue_count := pdd.qpd.queue_count

/-- The device has been evicted once more. -/
structure EvictedOnce (pdd pdd' : Pdd) : Prop where
  evicted : pdd'.qpd.evicted = pdd.qpd.evicted + 1
  queues_list : pdd'.qpd.queues_list =
    if pdd.qpd.evicted = 0 then pdd.qpd.queues_list.map Queue.evict else pdd.qpd.queues_list
  active : ActiveBooked pdd.dqm pdd.qpd pdd'.dqm pdd'.qpd

/-- **What an eviction of a process promises**: all its devices, or none. -/
structure AllOrNone (pdds : List Pdd) (r : Option Errno × List Pdd) : Prop where
  failed : r.1 ≠ none → r.2.map Pdd.snapshot = pdds.map Pdd.snapshot
  evicted : r.1 = none → List.Forall₂ EvictedOnce pdds r.2

/-- The run list of a device with `left` active queues cannot be replaced. -/
def RunlistFails (fw : Fw) (dqm : Manager) (left : ℤ) : Prop :=
  dqm.is_hws_hang = true ∨ dqm.sched_running = true ∧
    (dqm.active_runlist = true ∧
        (fw.send_unmap ≠ none ∨ fw.fence_timeout = true ∨ fw.unresponding = true) ∨
      0 < left ∧ 0 < dqm.processes_count ∧ fw.send_runlist ≠ none)

/-- The device does not let go of an active queue of the process. -/
def Pdd.Stuck (out : Outcome) (pdd : Pdd) : Prop :=
  pdd.qpd.evicted = 0 ∧
    if pdd.dqm.sched_policy = .noHws then
      pdd.dqm.sched_running = true ∧ ∃ q ∈ pdd.qpd.queues_list,
        q.properties.is_active = true ∧ out.destroy_mqd q.evict ≠ none
    else RunlistFails out.fw pdd.dqm
      (pdd.dqm.active_queue_count - pdd.qpd.queues_list.countP (·.properties.is_active))

/-- The flags of the queues of a process that is not evicted. -/
def Qpd.Settled (qpd : Qpd) : Prop :=
  qpd.evicted = 0 → ∀ q ∈ qpd.queues_list,
    q.properties.is_evicted = false ∧ q.properties.is_active = q.properties.queueIsActive

section

variable {out out' : Outcome} {fw : Fw} {dqm : Manager} {qpd : Qpd} {q : Queue} {pdd pdd' : Pdd}
variable {outs backs : ℕ → Outcome} {pdds : List Pdd} {i : ℕ}

/-! ### When an eviction fails -/

/-- `map_queues_cpsch` fails. -/
theorem mapQueuesCpsch_ne_none (hr : dqm.sched_running = true) (ha : dqm.active_runlist = false) :
    (mapQueuesCpsch fw dqm).1 ≠ none ↔
      0 < dqm.active_queue_count ∧ 0 < dqm.processes_count ∧ fw.send_runlist ≠ none := by
  unfold mapQueuesCpsch
  rw [if_neg (by simp [hr])]
  by_cases hc : dqm.active_queue_count ≤ 0 ∨ dqm.processes_count ≤ 0
  · rw [if_pos (by simpa using hc)]
    exact iff_of_false (fun h => h rfl) fun h => by omega
  · rw [if_neg (by simpa using hc), if_neg (by simp [ha])]
    have hpos : 0 < dqm.active_queue_count ∧ 0 < dqm.processes_count := by omega
    cases hs : fw.send_runlist with
    | none => simp
    | some e => simpa using hpos

/-- `unmap_queues_cpsch` of a device that answers fails, or leaves no run list. -/
theorem unmapQueuesCpsch_spec (hr : dqm.sched_running = true) (hh : dqm.is_hws_hang = false) :
    (∃ e dqm', unmapQueuesCpsch fw dqm = (some e, dqm') ∧ dqm.active_runlist = true ∧
      (fw.send_unmap ≠ none ∨ fw.fence_timeout = true ∨ fw.unresponding = true)) ∨
    unmapQueuesCpsch fw dqm = (none, { dqm with active_runlist := false }) ∧
      ¬(dqm.active_runlist = true ∧
        (fw.send_unmap ≠ none ∨ fw.fence_timeout = true ∨ fw.unresponding = true)) := by
  unfold unmapQueuesCpsch
  rw [if_neg (by simp [hr]), if_neg (by simp [hh])]
  cases ha : dqm.active_runlist with
  | false =>
    refine .inr ⟨?_, by simp⟩
    rw [if_pos (by simp), ← ha]
  | true =>
    rw [if_neg (by simp)]
    cases hu : fw.send_unmap with
    | some e => exact .inl ⟨e, dqm, rfl, rfl, .inl (by simp)⟩
    | none =>
      cases ht : fw.fence_timeout with
      | true => exact .inl ⟨.etime, _, rfl, rfl, .inr (.inl rfl)⟩
      | false =>
        cases hn : fw.unresponding with
        | true => exact .inl ⟨.etime, dqm, rfl, rfl, .inr (.inr rfl)⟩
        | false => exact .inr ⟨rfl, by simp⟩

/-- **`execute_queues_cpsch` fails** exactly when the run list cannot be replaced. -/
theorem executeQueuesCpsch_ne_none :
    (executeQueuesCpsch fw dqm).1 ≠ none ↔ RunlistFails fw dqm dqm.active_queue_count := by
  unfold executeQueuesCpsch RunlistFails
  cases hh : dqm.is_hws_hang with
  | true => simp
  | false =>
    rw [if_neg (by simp)]
    cases hr : dqm.sched_running with
    | false => simp [unmapQueuesCpsch, mapQueuesCpsch, hr]
    | true =>
      rcases @unmapQueuesCpsch_spec fw dqm hr hh with ⟨e, dqm', hu, hbad⟩ | ⟨hu, hgood⟩
      · rw [hu]
        exact iff_of_true (fun h => nomatch h) (.inr ⟨rfl, .inl hbad⟩)
      · rw [hu]
        dsimp only
        rw [@mapQueuesCpsch_ne_none fw { dqm with active_runlist := false } hr rfl]
        constructor
        · exact fun h => .inr ⟨rfl, .inr h⟩
        · rintro (h | ⟨-, h | h⟩)
          · cases h
          · exact absurd h hgood
          · exact h

/-- The first error of the loop of `evict_process_queues_nocpsch`. -/
theorem ret_forEach_evictQueueNocpsch (s : LoopState) (l : List Queue) :
    (forEach (evictQueueNocpsch out) s l).1.ret = none ↔ s.ret = none ∧
      (s.dqm.sched_running = true → ∀ q ∈ l, q.properties.is_active = true →
        out.destroy_mqd q.evict = none) := by
  induction l generalizing s with
  | nil => simp [forEach]
  | cons q l ih =>
    have hbody : (evictQueueNocpsch out s q).1.dqm.sched_running = s.dqm.sched_running ∧
        ((evictQueueNocpsch out s q).1.ret = none ↔ s.ret = none ∧
          (s.dqm.sched_running = true → q.properties.is_active = true →
            out.destroy_mqd q.evict = none)) := by
      unfold evictQueueNocpsch
      cases ha : q.properties.is_active with
      | false => simp [Queue.setEvicted, ha]
      | true =>
        cases hg : q.properties.is_gws <;> cases hr : s.dqm.sched_running <;>
          simp [Queue.setEvicted, Queue.evict, decrementQueueCount, ha, hg, hr]
    simp only [forEach]
    rw [ih, hbody.1, hbody.2]
    simp only [List.forall_mem_cons]
    constructor
    · rintro ⟨⟨hs, hq⟩, hl⟩
      exact ⟨hs, fun hr => ⟨hq hr, hl hr⟩⟩
    · rintro ⟨hs, h⟩
      exact ⟨⟨hs, fun hr => (h hr).1⟩, fun hr => (h hr).2⟩

/-- What the loop of `evict_process_queues_cpsch` does to the manager. -/
theorem fst_forEach_evictQueueCpsch (l : List Queue) : ∃ active_cp_queue_count,
    (forEach evictQueueCpsch dqm l).1 =
      { dqm with
        active_queue_count := dqm.active_queue_count - l.countP (·.properties.is_active)
        active_cp_queue_count } := by
  induction l generalizing dqm with
  | nil => exact ⟨dqm.active_cp_queue_count, by simp [forEach]⟩
  | cons q l ih =>
    simp only [forEach]
    obtain ⟨c, hc⟩ := @ih (evictQueueCpsch dqm q).1
    refine ⟨c, ?_⟩
    rw [hc]
    unfold evictQueueCpsch
    cases ha : q.properties.is_active with
    | false => simp [Queue.setEvicted, ha]
    | true =>
      simp only [Queue.setEvicted, ha, Bool.not_true, Bool.false_eq_true, if_false,
        decrementQueueCount, List.countP_cons_of_pos, Nat.cast_add, Nat.cast_one]
      congr 1
      omega

/-- **An eviction fails** exactly when the device does not let go of a queue. -/
theorem evict_ne_none : (pdd.evict out).1 ≠ none ↔ pdd.Stuck out := by
  unfold Pdd.evict evictProcessQueues Pdd.Stuck
  by_cases he : pdd.qpd.evicted = 0
  · have hpos : ¬pdd.qpd.evicted > 0 := by omega
    by_cases hp : pdd.dqm.sched_policy = .noHws
    · rw [if_pos hp, if_pos hp]
      unfold evictProcessQueuesNocpsch
      rw [if_neg hpos]
      dsimp only
      rw [Ne, ret_forEach_evictQueueNocpsch]
      simp [he]
    · rw [if_neg hp, if_neg hp]
      unfold evictProcessQueuesCpsch
      rw [if_neg hpos]
      dsimp only
      obtain ⟨c, hc⟩ := @fst_forEach_evictQueueCpsch pdd.dqm pdd.qpd.queues_list
      rw [hc, executeQueuesCpsch_ne_none]
      exact (and_iff_right he).symm
  · have hpos : pdd.qpd.evicted > 0 := by omega
    refine iff_of_false (fun h => h ?_) fun h => he h.1
    by_cases hp : pdd.dqm.sched_policy = .noHws
    · simp [hp, evictProcessQueuesNocpsch, hpos]
    · simp [hp, evictProcessQueuesCpsch, hpos]

theorem evictedOnce_evict : EvictedOnce pdd (pdd.evict out).2 :=
  ⟨evictProcessQueues_eq.1, evictProcessQueues_eq.2.1, evictProcessQueues_eq.2.2⟩

/-! ### An eviction and its restore -/

/-- The fields of the manager that evictions leave alone. -/
def Manager.kept (dqm : Manager) : SchedPolicy × ℤ × ℤ :=
  (dqm.sched_policy, dqm.total_queue_count, dqm.processes_count)

/-- The device was evicted without an error. -/
def Evicted (pdd pdd' : Pdd) : Prop := ∃ out, pdd.evict out = (none, pdd')

/-- **The loop stops at the first device that is stuck.** -/
theorem evictLoop_spec :
    (∃ pdds', evictLoop outs i pdds = (none, pdds', pdds.length) ∧
      List.Forall₂ Evicted pdds pdds' ∧
      ∀ (j : ℕ) (pdd : Pdd), pdds[j]? = some pdd → ¬pdd.Stuck (outs (i + j))) ∨
    ∃ e A pdd B A', pdds = A ++ pdd :: B ∧ pdd.Stuck (outs (i + A.length)) ∧
      List.Forall₂ Evicted A A' ∧ evictLoop outs i pdds =
        (some e, A' ++ (pdd.evict (outs (i + A.length))).2 :: B, A.length) := by
  induction pdds generalizing i with
  | nil => exact .inl ⟨[], rfl, .nil, fun j pdd h => absurd h (by simp)⟩
  | cons pdd pdds ih =>
    rcases hev : pdd.evict (outs i) with ⟨_ | e, pdd'⟩
    · have hfree : ¬pdd.Stuck (outs i) := by
        rw [← evict_ne_none, hev]
        exact fun h => h rfl
      rcases @ih (i + 1) with ⟨pdds', hloop, hall, hnot⟩ | ⟨e, A, p, B, A', rfl, hstuck, hA, hloop⟩
      · refine .inl ⟨pdd' :: pdds', ?_, .cons ⟨_, hev⟩ hall, fun j p hj => ?_⟩
        · simp only [evictLoop, hev, hloop, List.length_cons]
        · cases j with
          | zero =>
            obtain rfl := Option.some.inj hj
            exact hfree
          | succ j =>
            rw [show i + (j + 1) = i + 1 + j by omega]
            exact hnot j p hj
      · have hlen : i + (pdd :: A).length = i + 1 + A.length := by
          rw [List.length_cons]
          omega
        refine .inr ⟨e, pdd :: A, p, B, pdd' :: A', rfl, hlen ▸ hstuck, .cons ⟨_, hev⟩ hA, ?_⟩
        rw [hlen]
        simp only [evictLoop, hev, hloop, List.length_cons, List.cons_append]
    · have hstuck : pdd.Stuck (outs i) := by
        rw [← evict_ne_none, hev]
        exact fun h => nomatch h
      refine .inr ⟨e, [], pdd, pdds, [], rfl, hstuck, .nil, ?_⟩
      simp only [evictLoop, List.length_nil, Nat.add_zero, hev, List.nil_append]

/-- The device was restored. -/
def Restored (outs : ℕ → Outcome) (pdd pdd' : Pdd) : Prop := ∃ j, pdd' = (pdd.restore (outs j)).2

/-- The rollback restores the devices before the one that failed, and no more. -/
theorem rollBack_append {A B : List Pdd} {n : ℕ} (hn : A.length = n) :
    ∃ A', rollBack outs i (A ++ B) n = A' ++ B ∧
      List.Forall₂ (Restored outs) A A' := by
  subst hn
  induction A generalizing i with
  | nil => exact ⟨[], by cases B <;> rfl, .nil⟩
  | cons pdd A ih =>
    obtain ⟨A', h, hA⟩ := @ih (i + 1)
    exact ⟨(pdd.restore (outs i)).2 :: A', congrArg ((pdd.restore (outs i)).2 :: ·) h,
      .cons ⟨i, rfl⟩ hA⟩

/-- **An eviction of a process is all or none** exactly when no device is stuck. -/
theorem opuProcessEvictQueues_allOrNone_iff :
    AllOrNone pdds (opuProcessEvictQueues outs backs pdds) ↔
      ∀ (i : ℕ) (pdd : Pdd), pdds[i]? = some pdd → ¬pdd.Stuck (outs i) := by
  unfold opuProcessEvictQueues
  rcases @evictLoop_spec outs pdds 0 with ⟨pdds', hloop, hall, hnot⟩ |
    ⟨e, A, pdd, B, A', rfl, hstuck, hA, hloop⟩
  · rw [hloop]
    refine iff_of_true ⟨fun h => absurd rfl h, fun _ => ?_⟩ fun i pdd hi => ?_
    · exact hall.imp fun p p' ⟨out, hp⟩ => by
        have honce := @evictedOnce_evict out p
        rwa [hp] at honce
    · exact Nat.zero_add i ▸ hnot i pdd hi
  · rw [hloop]
    rw [Nat.zero_add] at hstuck ⊢
    refine iff_of_false (fun h => ?_) fun h => h A.length pdd (by simp) hstuck
    -- the depth of the device that failed
    obtain ⟨A'', hback, hA''⟩ := @rollBack_append backs 0 A' ((pdd.evict (outs A.length)).2 :: B)
      _ hA.length_eq.symm
    have hsnap := h.failed fun h => nomatch h
    dsimp only at hsnap
    rw [hback, List.map_append, List.map_append] at hsnap
    have hlen : (A''.map Pdd.snapshot).length = (A.map Pdd.snapshot).length := by
      rw [List.length_map, List.length_map, hA.length_eq, hA''.length_eq]
    have htail := (List.append_inj hsnap hlen).2
    simp only [List.map_cons, List.cons.injEq] at htail
    have hevicted := congrArg Snapshot.evicted htail.1
    have honce := (@evictedOnce_evict (outs A.length) pdd).evicted
    exact absurd (honce.symm.trans hevicted) (Nat.succ_ne_self _)

/-- A device without the scheduler, and a process with an active queue on it. -/
def Pdd.sample : Pdd where
  dqm :=
    { sched_policy := .noHws
      sched_running := true
      active_queue_count := 1
      active_cp_queue_count := 1
      total_queue_count := 1
      queues := [1]
      processes_count := 1 }
  qpd :=
    { pasid := 1
      queue_count := 1
      queues_list := [{
        ptr := 7
        properties :=
          { type := .compute
            queue_address := 4096
            queue_size := 4096
            queue_percent := 100
            is_active := true } }] }

/-- **The device that fails stays evicted**: its queue is not preempted, and the rollback passes
it over. -/
theorem stuck_device_stays_evicted :
    let outs : ℕ → Outcome := fun i =>
      { destroy_mqd := fun _ => if i = 1 then some .etime else none }
    let r := opuProcessEvictQueues outs (fun _ => {}) [.sample, .sample]
    r.1 = some .etime ∧ r.2.map (·.qpd.evicted) = [0, 1] ∧
      r.2.map (·.dqm.active_queue_count) = [1, 0] ∧ ¬AllOrNone [.sample, .sample] r := by
  refine ⟨rfl, rfl, rfl, fun h => ?_⟩
  have hsnap := h.failed (by decide)
  exact absurd (congrArg (List.map Snapshot.evicted) hsnap) (by decide)

end

end Codrive.Dqm
