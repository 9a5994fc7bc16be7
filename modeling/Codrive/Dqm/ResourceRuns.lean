/-
# Runs and the resources of the queues

In the life of the processes of a device, what is not free is what their queues were given, those
under creation included, and a creation that fails leaves everything as it was.

Three steps break this in `src/src/cmdio/linux/opu_device_queue_manager.c`:
`destroy_queue_nocpsch_locked` gives back what a queue was given and returns before `list_del`
while the scheduler is stopped; `process_termination_cpsch` keeps the doorbells, which its sibling
without the scheduler gives back; and `initialize_nocpsch` shifts by 64 for a device without
queues of an SDMA type, whose bitmap is full then.
-/

import Codrive.Dqm.Life
import Codrive.Dqm.ResourceSteps
import Mathlib.Algebra.Order.Group.Multiset

namespace Codrive.Dqm

open Codrive.Basis

/-- The engine and the queue on it. -/
def Place.engineQueue (p : Place) : Option (ℕ × ℕ) :=
  if p.type.isSdma then some (p.sdma_engine_id, p.sdma_queue_id) else none

/-- The queues of the processes, those under creation included. -/
def State.live (s : State) : List Queue := s.procs.flatMap fun P => P.2 ++ P.1.queues_list

/-- A creation for a process that returns an error leaves everything as it was. -/
def FailsCleanly (dev : Dev) (active : MqdActive) (dqm : Manager) (qpd : Qpd) (args : CreateArgs) :
    Prop :=
  ∀ out, match createBegin dev out dqm qpd args.initUserQueue with
    | (.error _, dqm', qpd') => Unchanged dqm qpd dqm' qpd'
    | (.ok q, dqm', qpd') => ∀ out' e dqm'' qpd'',
        createEnd dev active out' dqm' qpd' q = (some e, dqm'', qpd'') →
          Unchanged dqm qpd dqm'' qpd''

/-- The device has queues of the type, if there is no scheduler. -/
def HasQueues (dev : Dev) (sched_policy : SchedPolicy) (type : QueueType) : Prop :=
  sched_policy = .noHws →
    (type = .sdma → getNumSdmaQueues dev ≠ 0) ∧ (type = .sdmaXgmi → getNumXgmiSdmaQueues dev ≠ 0)

/-- **What is handed out belongs to the queues.** -/
structure State.Assigned (dev : Dev) (active : MqdActive) (reserved : Finset ℕ)
    (sched_policy : SchedPolicy) (s : State) : Prop where
  /-- The SDMA queues and the hardware slots. -/
  pools : Pools dev (State.init dev sched_policy).dqm s.dqm (places s.live)
  /-- No two SDMA queues are the same one of an engine. -/
  engines : ((places s.live).filterMap Place.engineQueue).Nodup
  /-- The doorbells of each process. -/
  doorbells : ∀ P ∈ s.procs, Doorbells dev reserved P.1 (places (P.2 ++ P.1.queues_list))
  /-- The vmids. -/
  vmids : Vmids dev s.dqm (s.procs.map fun P => P.1.vmids sched_policy P.2).sum
  /-- A process that creates no queue may create one, and loses nothing when that fails. -/
  fails : ∀ P ∈ s.procs, P.2 = [] → ∀ args : CreateArgs, args.type.isUser = true →
    HasQueues dev sched_policy args.type → FailsCleanly dev active s.dqm P.1 args

/-- Where a termination takes every queue off its list and gives back what it was given: without
the scheduler its loop ends, and with it no queue has a doorbell to keep. -/
def TerminateOk (dev : Dev) (dqm : Manager) (qpd : Qpd) : Prop :=
  if dqm.sched_policy = .noHws then dqm.sched_running = true ∨ qpd.queues_list = []
  else dev.is_soc15 = true → ∀ q ∈ qpd.queues_list, q.properties.type.isSdma = true

/-- The steps that keep this. -/
def State.LifeOk (dev : Dev) (s : State) : LifeOp → Prop
  -- an SDMA queue is created on a device that has some
  | .call (.createBegin _ args _) => HasQueues dev s.dqm.sched_policy args.type
  -- `destroy_queue_nocpsch` takes the queue off its list
  | .call (.destroy _ _ _) => s.dqm.sched_policy = .noHws → s.dqm.sched_running = true
  | .terminate i _ => ∀ qpd, s.qpds[i]? = some qpd → TerminateOk dev s.dqm qpd
  | _ => True

section

variable {dev : Dev} {active : MqdActive} {reserved : Finset ℕ} {sched_policy : SchedPolicy}
variable {start dqm dqm' : Manager} {A B : List (Qpd × List Queue)} {P P' : Qpd × List Queue}

/-- The places and the vmids of processes. -/
def procPlaces (l : List (Qpd × List Queue)) : Multiset Place :=
  places (l.flatMap fun P => P.2 ++ P.1.queues_list)

def procVmids (sched_policy : SchedPolicy) (l : List (Qpd × List Queue)) : Multiset (ℕ × ℕ) :=
  (l.map fun P => P.1.vmids sched_policy P.2).sum

/-- The invariant, process by process. -/
structure Resourced (dev : Dev) (reserved : Finset ℕ) (start dqm : Manager)
    (procs : List (Qpd × List Queue)) : Prop where
  policy : dqm.sched_policy = start.sched_policy
  pools : Pools dev start dqm (procPlaces procs)
  vmids : Vmids dev dqm (procVmids start.sched_policy procs)
  process : ∀ P ∈ procs,
    P.1.pasid ≠ 0 ∧ Doorbells dev reserved P.1 (places (P.2 ++ P.1.queues_list))

theorem procPlaces_split : procPlaces (A ++ P :: B) =
    places (P.2 ++ P.1.queues_list) + (procPlaces A + procPlaces B) := by
  unfold procPlaces
  rw [List.flatMap_append, List.flatMap_cons, places_append, places_append, add_left_comm]

theorem procVmids_split : procVmids sched_policy (A ++ P :: B) =
    P.1.vmids sched_policy P.2 + (procVmids sched_policy A + procVmids sched_policy B) := by
  unfold procVmids
  rw [List.map_append, List.map_cons, List.sum_append, List.sum_cons, add_left_comm]

/-- What one of the processes holds. -/
theorem Resourced.held (h : Resourced dev reserved start dqm (A ++ P :: B)) :
    Held dev reserved start dqm P.1 P.2 (procPlaces A + procPlaces B)
      (procVmids start.sched_policy A + procVmids start.sched_policy B) := by
  have hP := h.process P (List.mem_append_right _ (List.mem_cons_self ..))
  have hpools := h.pools
  have hvmids := h.vmids
  rw [procPlaces_split] at hpools
  rw [procVmids_split] at hvmids
  exact ⟨h.policy, hP.1, hpools, hP.2, hvmids⟩

/-- **A step of one process keeps the invariant if it keeps what the process holds.** -/
theorem Resourced.replace (h : Resourced dev reserved start dqm (A ++ P :: B))
    (hP : Held dev reserved start dqm' P'.1 P'.2 (procPlaces A + procPlaces B)
      (procVmids start.sched_policy A + procVmids start.sched_policy B)) :
    Resourced dev reserved start dqm' (A ++ P' :: B) := by
  refine ⟨hP.policy, ?_, ?_, fun x hx => ?_⟩
  · rw [procPlaces_split]
    exact hP.pools
  · rw [procVmids_split]
    exact hP.vmids
  · rcases List.mem_append.1 hx with hx | hx
    · exact h.process x (List.mem_append_left _ hx)
    rcases List.mem_cons.1 hx with rfl | hx
    · exact ⟨hP.pasid, hP.doorbells⟩
    · exact h.process x (List.mem_append_right _ (List.mem_cons_of_mem _ hx))

/-- A step of the device that hands nothing out and takes nothing back. -/
theorem Resourced.manager {procs : List (Qpd × List Queue)}
    (h : Resourced dev reserved start dqm procs) (hd : dqm'.held = dqm.held) :
    Resourced dev reserved start dqm' procs :=
  ⟨(congrArg (fun x => x.1.1) hd).trans h.policy, h.pools.of_eq (congrArg Prod.fst hd),
    h.vmids.of_eq (congrArg Prod.snd hd), h.process⟩

/-- The engine and the queue on it say which SDMA queue it is. -/
theorem Place.Placed.eq_of_engineQueue {p p' : Place} (h : p.Placed dev) (h' : p'.Placed dev)
    {x : ℕ × ℕ} (hx : p.engineQueue = some x) (hx' : p'.engineQueue = some x) :
    p.sdma = p'.sdma ∧ p.xgmi = p'.xgmi ∧ (p.sdma ≠ none ∨ p.xgmi ≠ none) := by
  unfold engineQueue at hx hx'
  split at hx
  case isFalse => cases hx
  split at hx'
  case isFalse => cases hx'
  rename_i hsdma hsdma'
  cases hx
  simp only [Option.some.injEq, Prod.mk.injEq] at hx'
  obtain ⟨hengine, hqueue⟩ := hx'
  -- an SDMA queue is on the first engines, and the others follow
  have hfirst : ∀ {r : Place}, r.Placed dev → r.type = .sdma →
      r.sdma_engine_id < dev.num_sdma_engines ∧
        r.sdma_id = dev.num_sdma_engines * r.sdma_queue_id + r.sdma_engine_id := by
    intro r hr ht
    obtain ⟨hlt, he, hq⟩ := hr.sdma ht
    have hpos : 0 < dev.num_sdma_engines :=
      Nat.pos_of_ne_zero fun h0 => by simp [getNumSdmaQueues, h0] at hlt
    rw [he, hq]
    exact ⟨Nat.mod_lt _ hpos, (Nat.div_add_mod _ _).symm⟩
  have hsecond : ∀ {r : Place}, r.Placed dev → r.type = .sdmaXgmi →
      dev.num_sdma_engines ≤ r.sdma_engine_id ∧ r.sdma_id =
        dev.num_xgmi_sdma_engines * r.sdma_queue_id +
          (r.sdma_engine_id - dev.num_sdma_engines) := by
    intro r hr ht
    obtain ⟨-, he, hq⟩ := hr.xgmi ht
    rw [he, hq, Nat.add_sub_cancel_left]
    exact ⟨Nat.le_add_right _ _, (Nat.div_add_mod _ _).symm⟩
  cases ht : p.type <;> cases ht' : p'.type <;>
    simp only [ht, ht', QueueType.isSdma] at hsdma hsdma'
  case sdma.sdma =>
    have h₁ := (hfirst h ht).2
    have h₂ := (hfirst h' ht').2
    rw [hengine, hqueue] at h₂
    simp [Place.sdma, Place.xgmi, ht, ht', h₁, h₂]
  case sdmaXgmi.sdmaXgmi =>
    have h₁ := (hsecond h ht).2
    have h₂ := (hsecond h' ht').2
    rw [hengine, hqueue] at h₂
    simp [Place.sdma, Place.xgmi, ht, ht', h₁, h₂]
  case sdma.sdmaXgmi =>
    have h₁ := (hfirst h ht).1
    have h₂ := (hsecond h' ht').1
    omega
  case sdmaXgmi.sdma =>
    have h₁ := (hsecond h ht).1
    have h₂ := (hfirst h' ht').1
    omega
  all_goals simp at hsdma hsdma'

/-- A key of a place is another place's key too, and is not given twice. -/
theorem notMem_of_nodup {β : Type} {f : Place → Option β} {p p' : Place} {given : Multiset Place}
    {b : β} (hn : ((p ::ₘ given).filterMap f).Nodup) (hp : p' ∈ given) (hb : f p = some b) :
    f p' ≠ some b := by
  intro hb'
  rw [filterMap_cons_some hb] at hn
  exact (Multiset.nodup_cons.1 hn).1 ((Multiset.mem_filterMap _ _).2 ⟨p', hp, hb'⟩)

/-- What is left of a key without a place is still not given twice. -/
theorem nodup_tail {β : Type} {f : Place → Option β} {p : Place} {given : Multiset Place}
    (hn : ((p ::ₘ given).filterMap f).Nodup) : (given.filterMap f).Nodup := by
  cases hb : f p with
  | none => rwa [filterMap_cons_none hb] at hn
  | some b =>
    rw [filterMap_cons_some hb] at hn
    exact (Multiset.nodup_cons.1 hn).2

/-- **No two SDMA queues are the same one of an engine.** -/
theorem nodup_engineQueue {given : Multiset Place} (hplaced : ∀ p ∈ given, p.Placed dev)
    (hs : (given.filterMap Place.sdma).Nodup) (hx : (given.filterMap Place.xgmi).Nodup) :
    (given.filterMap Place.engineQueue).Nodup := by
  induction given using Multiset.induction with
  | empty => exact Multiset.nodup_zero
  | cons p given ih =>
    have ih := ih (fun p' hp' => hplaced p' (Multiset.mem_cons_of_mem hp')) (nodup_tail hs)
      (nodup_tail hx)
    cases he : p.engineQueue with
    | none => rwa [filterMap_cons_none he]
    | some x =>
      rw [filterMap_cons_some he, Multiset.nodup_cons]
      refine ⟨fun hmem => ?_, ih⟩
      obtain ⟨p', hp', he'⟩ := (Multiset.mem_filterMap _ _).1 hmem
      obtain ⟨h₁, h₂, hsome⟩ := (hplaced p (Multiset.mem_cons_self ..)).eq_of_engineQueue
        (hplaced p' (Multiset.mem_cons_of_mem hp')) he he'
      rcases hsome with hsome | hsome
      · obtain ⟨b, hb⟩ := Option.ne_none_iff_exists'.1 hsome
        exact notMem_of_nodup hs hp' hb (h₁ ▸ hb)
      · obtain ⟨b, hb⟩ := Option.ne_none_iff_exists'.1 hsome
        exact notMem_of_nodup hx hp' hb (h₂ ▸ hb)

/-- The manager starts with what the type of a queue asks for. -/
theorem startsRight_init {type : QueueType} (h : HasQueues dev sched_policy type) :
    StartsRight dev (State.init dev sched_policy).dqm type := by
  unfold State.init
  by_cases hp : sched_policy = .noHws
  · have hn := h hp
    simp only [hp, if_true]
    refine ⟨fun ht b hb => ?_, fun ht b hb => ?_⟩
    · have := hn.1 ht
      have := Finset.mem_range.1 hb
      omega
    · have := hn.2 ht
      have := Finset.mem_range.1 hb
      omega
  · simp only [hp, if_false]
    refine ⟨fun _ b hb => ?_, fun _ b hb => ?_⟩
    · have := Finset.mem_range.1 hb
      omega
    · have := Finset.mem_range.1 hb
      omega

theorem policy_init : (State.init dev sched_policy).dqm.sched_policy = sched_policy := by
  unfold State.init
  dsimp only
  split
  · exact (show sched_policy = SchedPolicy.noHws from by assumption).symm
  · rfl

end

section

variable {dev : Dev} {active : MqdActive} {reserved : Finset ℕ} {sched_policy : SchedPolicy}
variable {start : Manager} {s t : State} {op : LifeOp} {ops : List LifeOp} {i : ℕ}
variable {A B : List Qpd} {qpd qpd' : Qpd}

/-- A step of one process in the view. -/
theorem Resourced.set (h : Resourced dev reserved start s.dqm s.procs)
    (hs : s.qpds = A ++ qpd :: B) (hA : A.length = i) (ht : t.qpds = A ++ qpd' :: B)
    (hcr : ∀ j ≠ i, t.creatingOf j = s.creatingOf j)
    (hf : ∀ others otherVmids,
      Held dev reserved start s.dqm qpd (s.creatingOf i) others otherVmids →
        Held dev reserved start t.dqm qpd' (t.creatingOf i) others otherVmids) :
    Resourced dev reserved start t.dqm t.procs := by
  obtain ⟨A', B', hprocs, hset⟩ := State.procs_set hs hA
  rw [hprocs] at h
  rw [hset t qpd' ht hcr]
  exact h.replace (hf _ _ h.held)

theorem Resourced.at {f : Manager → Qpd → Manager × Qpd}
    (h : Resourced dev reserved start s.dqm s.procs) (hat : s.At i f t)
    (hf : ∀ qpd others otherVmids,
      Held dev reserved start s.dqm qpd (s.creatingOf i) others otherVmids →
        Held dev reserved start (f s.dqm qpd).1 (f s.dqm qpd).2 (s.creatingOf i) others
          otherVmids) :
    Resourced dev reserved start t.dqm t.procs := by
  obtain ⟨A, qpd, B, hs, hA, rfl⟩ := hat
  exact h.set hs hA rfl (fun _ _ => rfl) (hf qpd)

/-- A queue changed in place keeps what it was given. -/
theorem held_modify {ptr : ℕ} {f : Queue → Queue} (hf : ∀ q, (f q).place = q.place) :
    (qpd.modify ptr f).held = qpd.held := by
  simp only [Qpd.held, Qpd.modify, map_updateFirst hf]

/-- **A step keeps what the queues were given.** -/
theorem Resourced.step (h1 : s.OneCreation) (h : Resourced dev reserved start s.dqm s.procs)
    (hstart : ∀ type, HasQueues dev s.dqm.sched_policy type → StartsRight dev start type)
    (hreserved : ∀ b ∈ reserved, b < maxNumOfQueuesPerProcess) (hok : s.LifeOk dev op)
    (hs : s.LifeStep dev active reserved op t) : Resourced dev reserved start t.dqm t.procs := by
  cases hs with
  | @openDevice pasid hpasid _ =>
    rw [State.procs_open h1]
    refine ⟨h.policy, ?_, ?_, fun P hP => ?_⟩
    · simpa [procPlaces] using h.pools
    · simpa [procVmids, Qpd.vmids] using h.vmids
    · rcases List.mem_append.1 hP with hP | hP
      · exact h.process P hP
      · obtain rfl := List.mem_singleton.1 hP
        exact ⟨hpasid, .init _, hreserved⟩
  | @terminate i out A B qpd fuel x hs hA hnone hx =>
    have hok := hok qpd (by simp [hs, ← hA])
    unfold TerminateOk at hok
    refine h.set hs hA rfl (fun _ _ => rfl) fun others otherVmids hheld => ?_
    show Held dev reserved start x.dqm x.qpd (s.creatingOf i) others otherVmids
    rw [hnone] at hheld ⊢
    unfold processTermination at hx
    split at hx
    · rename_i hp
      rw [if_pos hp] at hok
      exact hheld.terminateNocpsch (h.policy ▸ hp) hok hx
    · rename_i hp
      rw [if_neg hp] at hok
      cases hx
      refine hheld.terminateCpsch (h.policy ▸ hp) fun q hq hdoor => ?_
      exact absurd ((hok hdoor.1 q hq).symm.trans hdoor.2) (by decide)
  | call hallow hs =>
    cases hs with
    | openProcess => exact hallow.elim
    | register h' => exact h.at h' fun qpd _ _ hh => hh.of_eq rfl rfl fun _ => rfl
    | unregister h' =>
      refine h.at h' fun qpd _ _ hh => hh.of_eq ?_ rfl fun _ => rfl
      unfold unregisterProcess
      split <;> rfl
    | setProperties h' =>
      exact h.at h' fun qpd _ _ hh => hh.of_eq rfl (held_modify fun q => rfl) fun _ => rfl
    | setGws h' =>
      exact h.at h' fun qpd _ _ hh => hh.of_eq rfl (held_modify fun q => rfl) fun _ => rfl
    | evict h' => exact h.at h' fun qpd _ _ hh => hh.evict
    | restore h' => exact h.at h' fun qpd _ _ hh => hh.restore
    | createKernel _ h' => exact h.at h' fun qpd _ _ hh => hh.createKernel
    | destroyKernel _ hs hA _ =>
      exact h.set hs hA rfl (fun _ _ => rfl) fun _ _ hh => hh.destroyKernel
    | @update i ptr out A B qpd q hs hA hq =>
      have hptr := List.find?_some hq
      simp only [decide_eq_true_eq] at hptr
      subst hptr
      exact h.set hs hA rfl (fun _ _ => rfl) fun _ _ hh => hh.update hq
    | start fw =>
      refine h.manager ?_
      dsimp only
      split
      · unfold startNocpsch
        split <;> rfl
      · exact held_executeQueuesCpsch
    | stop fw =>
      refine h.manager ?_
      dsimp only
      split
      · rfl
      · unfold stopCpsch
        dsimp only
        split
        · exact @held_unmapQueuesCpsch fw s.dqm
        · rfl
    | preReset => exact h.manager rfl
    | @destroy i ptr out A B qpd q hs hA hq =>
      have hnone : s.creatingOf i = [] := hallow
      have hptr := List.find?_some hq
      simp only [decide_eq_true_eq] at hptr
      subst hptr
      refine h.set hs hA rfl (fun _ _ => rfl) fun others otherVmids hh => ?_
      show Held _ _ _ _ _ (s.creatingOf i) _ _
      rw [hnone] at hh ⊢
      exact hh.destroy hok hq
    | @createBegin i args out A B qpd qpd' dqm' q huser hs hA hb =>
      have hnone : s.creatingOf i = [] := hallow
      refine h.set hs hA rfl (fun j hj => ?_) fun others otherVmids hh => ?_
      · rw [State.creatingOf_cons, if_neg (Ne.symm hj)]
      · rw [State.creatingOf_cons, if_pos rfl]
        rw [hnone] at hh ⊢
        exact hh.createBegin huser (hstart args.type hok) hb
    | @createFails i args out A B qpd qpd' dqm' e huser hs hA hb =>
      have hnone : s.creatingOf i = [] := hallow
      refine h.set hs hA rfl (fun _ _ => rfl) fun others otherVmids hh => ?_
      show Held _ _ _ _ _ (s.creatingOf i) _ _
      have hsame := unchanged_createBegin (hnone ▸ hh) (hstart args.type hok) hb
      refine hh.of_eq hsame.manager hsame.process fun hne => hsame.vmid ?_
      rwa [hnone] at hne
    | @createEnd i ptr out q t C D hc hptr h' =>
      obtain ⟨A, qpd, B, hs, hA, rfl⟩ := h'
      obtain ⟨hother, hlen, hmem⟩ := State.creatingOf_remove hc s.dqm s.qpds
      have hone := h1.one i
      have hself : s.creatingOf i = [q] := by
        obtain ⟨x, hx⟩ := List.length_eq_one_iff.1 (show (s.creatingOf i).length = 1 by omega)
        rw [hx] at hmem ⊢
        rw [List.mem_singleton.1 hmem]
      have hgone : ({ dqm := s.dqm, qpds := s.qpds, creating := C ++ D } : State).creatingOf i =
          [] := List.length_eq_zero_iff.1 (by omega)
      refine h.set hs hA rfl hother fun others otherVmids hh => ?_
      rw [hself] at hh
      show Held _ _ _ _ _
        (({ dqm := s.dqm, qpds := s.qpds, creating := C ++ D } : State).creatingOf i) _ _
      rw [hgone]
      exact hh.createEnd

/-- The invariant says what belongs to the queues. -/
theorem Resourced.assigned
    (h : Resourced dev reserved (State.init dev sched_policy).dqm s.dqm s.procs) :
    s.Assigned dev active reserved sched_policy := by
  have hvmids := h.vmids
  rw [policy_init] at hvmids
  refine ⟨h.pools, nodup_engineQueue h.pools.placed h.pools.sdma.nodup h.pools.xgmi.nodup,
    fun P hP => (h.process P hP).2, hvmids, fun P hP hnone args huser hhas out => ?_⟩
  obtain ⟨A, B, hprocs⟩ := List.append_of_mem hP
  rw [hprocs] at h
  have hheld := h.held
  rw [hnone] at hheld
  have hstart := startsRight_init hhas
  split
  · rename_i e dqm' qpd' hb
    exact unchanged_createBegin hheld hstart hb
  · rename_i q dqm' qpd' hb
    intro out' e dqm'' qpd'' he
    have hsame := unchanged_createEnd hheld huser hstart hb
      (show (createEnd dev active out' dqm' qpd' q).1 = some e by rw [he])
    rwa [he] at hsame

end

end Codrive.Dqm
