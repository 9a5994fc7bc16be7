/-
# The life of the device's processes

The runs of `Codrive.Dqm.Runs` with what `src/src/cmdio/linux/opu_process.c` adds: a process opens
the device with its reserved doorbells marked, its mutex is held from the start of a creation to
its end and while a queue is destroyed, and it ends with `process_termination`.  `State.procs` is
the view of a state process by process, which the invariants of a run are stated on.
-/

import Codrive.Dqm.Runs
import Codrive.Dqm.Termination

namespace Codrive.Dqm

open Codrive.Basis

/-- `init_doorbell_bitmap`: the doorbells reserved on SOC15, and their mirrors. -/
def initDoorbellBitmap (dev : Dev) (non_cp_doorbells_start non_cp_doorbells_end : ℕ) : Finset ℕ :=
  if !dev.is_soc15 then ∅
  else (Finset.range maxNumOfQueuesPerProcess).filter fun i =>
    let i := if i < maxNumOfQueuesPerProcess / 2 then i else i - doorbellMirrorOffset
    non_cp_doorbells_start ≤ i ∧ i ≤ non_cp_doorbells_end

/-- A step in the life of the processes. -/
inductive LifeOp where
  /-- `opu_create_process_device_data`. -/
  | openDevice (pasid : ℕ)
  /-- A call for a process, or for the device. -/
  | call (op : Op)
  /-- `process_termination`. -/
  | terminate (i : ℕ) (out : Outcome)

/-- The queues of a process between the two locked sections of their creation. -/
def State.creatingOf (s : State) (i : ℕ) : List Queue :=
  (s.creating.filter fun c => decide (c.1 = i)).map Prod.snd

/-- The processes, each with its queues under creation. -/
def State.procs (s : State) : List (Qpd × List Queue) :=
  s.qpds.mapIdx fun i qpd => (qpd, s.creatingOf i)

/-- The calls its users make.  Those that take the mutex of a process are not made while it creates
a queue, and a process is registered when it is not. -/
def State.Allows (s : State) : Op → Prop
  | .openProcess _ => False
  | .register i => ∀ qpd, s.qpds[i]? = some qpd → qpd.pasid ∉ s.dqm.queues
  | .createBegin i _ _ => s.creatingOf i = []
  | .destroy i _ _ => s.creatingOf i = []
  | _ => True

/-- One step in the life of the processes. -/
inductive State.LifeStep (dev : Dev) (active : MqdActive) (reserved : Finset ℕ) (s : State) :
    LifeOp → State → Prop
  | openDevice {pasid : ℕ} : pasid ≠ 0 → (∀ qpd ∈ s.qpds, qpd.pasid ≠ pasid) →
      LifeStep dev active reserved s (.openDevice pasid)
        { s with qpds := s.qpds ++ [{ pasid, doorbell_bitmap := reserved }] }
  | call {op : Op} {t : State} : s.Allows op → s.Step dev active op t →
      LifeStep dev active reserved s (.call op) t
  | terminate {i : ℕ} {out : Outcome} {A B : List Qpd} {qpd : Qpd} {fuel : ℕ} {t : Terminated} :
      s.qpds = A ++ qpd :: B → A.length = i → s.creatingOf i = [] →
      processTermination dev out fuel s.dqm qpd = some t →
      LifeStep dev active reserved s (.terminate i out)
        { s with dqm := t.dqm, qpds := A ++ t.qpd :: B }

/-- What every state of a run has: a process creates one queue at a time. -/
structure State.OneCreation (s : State) : Prop where
  one : ∀ i, (s.creatingOf i).length ≤ 1
  known : ∀ c ∈ s.creating, c.1 < s.qpds.length

section

variable {s : State} {A B : List Qpd} {qpd qpd' : Qpd} {dqm' : Manager} {q : Queue}
variable {creating C D : List (ℕ × Queue)} {i j : ℕ}

/-- **A change of one process** in the view. -/
theorem State.procs_set (hs : s.qpds = A ++ qpd :: B) (hA : A.length = i) :
    ∃ A' B', s.procs = A' ++ (qpd, s.creatingOf i) :: B' ∧
      ∀ (t : State) (qpd' : Qpd), t.qpds = A ++ qpd' :: B →
        (∀ j ≠ i, t.creatingOf j = s.creatingOf j) →
        t.procs = A' ++ (qpd', t.creatingOf i) :: B' := by
  have hview : ∀ (t : State) (x : Qpd), t.qpds = A ++ x :: B →
      t.procs = A.mapIdx (fun j x => (x, t.creatingOf j)) ++ (x, t.creatingOf i) ::
        B.mapIdx (fun j x => (x, t.creatingOf (j + 1 + i))) := by
    intro t x ht
    unfold State.procs
    rw [ht, List.mapIdx_append, List.mapIdx_cons, hA, Nat.zero_add]
  refine ⟨_, _, hview s qpd hs, fun t qpd' ht hcr => ?_⟩
  rw [hview t qpd' ht]
  congr 1
  · refine List.mapIdx_eq_mapIdx_iff.2 fun j hj => ?_
    rw [hcr j (by omega)]
  · congr 1
    refine List.mapIdx_eq_mapIdx_iff.2 fun j hj => ?_
    rw [hcr (j + 1 + i) (by omega)]

/-- The processes of a state with one more. -/
theorem State.procs_open (h : s.OneCreation) :
    ({ s with qpds := s.qpds ++ [qpd] } : State).procs = s.procs ++ [(qpd, [])] := by
  have hnone : s.creatingOf s.qpds.length = [] := by
    unfold State.creatingOf
    rw [List.map_eq_nil_iff, List.filter_eq_nil_iff]
    intro c hc hi
    have := h.known c hc
    simp only [decide_eq_true_eq] at hi
    omega
  unfold State.procs
  rw [List.mapIdx_append, List.mapIdx_cons, List.mapIdx_nil, Nat.zero_add]
  exact congrArg (fun l => s.qpds.mapIdx (fun i qpd => (qpd, s.creatingOf i)) ++ [(qpd, l)]) hnone

theorem State.creatingOf_cons (dqm' : Manager) (qpds' : List Qpd) :
    ({ dqm := dqm', qpds := qpds', creating := (i, q) :: s.creating } : State).creatingOf j =
      if i = j then q :: s.creatingOf j else s.creatingOf j := by
  unfold State.creatingOf
  split_ifs with h
  · simp [h]
  · simp [h]

theorem State.creatingOf_remove (hs : s.creating = C ++ (i, q) :: D) (dqm' : Manager)
    (qpds' : List Qpd) :
    (∀ k ≠ i, ({ dqm := dqm', qpds := qpds', creating := C ++ D } : State).creatingOf k =
      s.creatingOf k) ∧
      (s.creatingOf i).length =
        (({ dqm := dqm', qpds := qpds', creating := C ++ D } : State).creatingOf i).length + 1 ∧
      q ∈ s.creatingOf i := by
  unfold State.creatingOf
  rw [hs]
  refine ⟨fun k hk => ?_, ?_, ?_⟩
  · simp [Ne.symm hk]
  · simp
    omega
  · simp

/-- A call that leaves the creations leaves them one at a time. -/
theorem State.OneCreation.congr {t : State} (h : s.OneCreation) (hc : t.creating = s.creating)
    (hn : s.qpds.length ≤ t.qpds.length) : t.OneCreation := by
  have hof : ∀ i, t.creatingOf i = s.creatingOf i := fun i => by
    unfold State.creatingOf
    rw [hc]
  refine ⟨fun i => by rw [hof i]; exact h.one i, fun c hcr => ?_⟩
  exact Nat.lt_of_lt_of_le (h.known c (hc ▸ hcr)) hn

theorem State.At.frame {f : Manager → Qpd → Manager × Qpd} {t : State} (h : s.At i f t) :
    t.creating = s.creating ∧ s.qpds.length ≤ t.qpds.length := by
  obtain ⟨A, qpd, B, hs, -, rfl⟩ := h
  exact ⟨rfl, by simp [hs]⟩

/-- **A process creates one queue at a time**, in every step. -/
theorem State.OneCreation.step {dev : Dev} {active : MqdActive} {reserved : Finset ℕ} {op : LifeOp}
    {t : State} (h : s.OneCreation) (hs : s.LifeStep dev active reserved op t) :
    t.OneCreation := by
  cases hs with
  | openDevice _ _ => exact h.congr rfl (by simp)
  | terminate hs _ _ _ => exact h.congr rfl (by simp [hs])
  | call hallow hs =>
    cases hs with
    | openProcess => exact hallow.elim
    | register h' => exact h.congr h'.frame.1 h'.frame.2
    | unregister h' => exact h.congr h'.frame.1 h'.frame.2
    | setProperties h' => exact h.congr h'.frame.1 h'.frame.2
    | setGws h' => exact h.congr h'.frame.1 h'.frame.2
    | evict h' => exact h.congr h'.frame.1 h'.frame.2
    | restore h' => exact h.congr h'.frame.1 h'.frame.2
    | createKernel _ h' => exact h.congr h'.frame.1 h'.frame.2
    | destroyKernel _ hs _ _ => exact h.congr rfl (by simp [hs])
    | createFails _ hs _ _ => exact h.congr rfl (by simp [hs])
    | destroy hs _ _ => exact h.congr rfl (by simp [hs])
    | update hs _ _ => exact h.congr rfl (by simp [hs])
    | start _ => exact h.congr rfl (Nat.le_refl _)
    | stop _ => exact h.congr rfl (Nat.le_refl _)
    | preReset => exact h.congr rfl (Nat.le_refl _)
    | @createBegin i args out A B qpd qpd' dqm' q _ hs hA _ =>
      have hnone : s.creatingOf i = [] := hallow
      refine ⟨fun j => ?_, fun c hc => ?_⟩
      · rw [State.creatingOf_cons]
        split_ifs with hij
        · rw [← hij, hnone]
          simp
        · exact h.one j
      · have hlen : (A ++ qpd' :: B).length = s.qpds.length := by simp [hs]
        show c.1 < (A ++ qpd' :: B).length
        rw [hlen]
        rcases List.mem_cons.1 hc with rfl | hc
        · simp [hs, ← hA]
        · exact h.known c hc
    | @createEnd i ptr out q t C D hc _ h' =>
      obtain ⟨hother, hlen, -⟩ := State.creatingOf_remove hc s.dqm s.qpds
      refine State.OneCreation.congr ?_ h'.frame.1 h'.frame.2
      refine ⟨fun j => ?_, fun c hcr => h.known c ?_⟩
      · by_cases hj : j = i
        · subst hj
          have := h.one j
          show (({ dqm := s.dqm, qpds := s.qpds, creating := C ++ D } : State).creatingOf
            j).length ≤ 1
          omega
        · exact (congrArg List.length (hother j hj)).trans_le (h.one j)
      · rw [hc]
        rcases List.mem_append.1 hcr with hcr | hcr
        · exact List.mem_append_left _ hcr
        · exact List.mem_append_right _ (List.mem_cons_of_mem _ hcr)

end

end Codrive.Dqm
