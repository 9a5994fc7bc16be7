/-
# The queues of a process, over every run

`State.Inv` ties the list of a process's queues to what each device holds: the lists there are the
listed queues of that device (`listedOn`), and the process is registered there once if it has any.
A call changes the list by one node and the lists of one device by the same queue
(`listedOn_cons`, `listedOn_erase`), or leaves both.
-/

import Codrive.Basis.Run
import Codrive.Pqm.Devices
import Mathlib.Data.List.Flatten

namespace Codrive.Pqm

open Codrive.Basis Codrive.Dqm

/-! ### The listed queues of a device -/

theorem NodeQueue.dropFrom_addTo (x : NodeQueue) (l : List ℕ × List KernelQueue) :
    x.dropFrom (x.addTo l) = l := by
  cases x with
  | user ptr => simp [dropFrom, addTo]
  | kernel kq => simp [dropFrom, addTo]

theorem NodeQueue.dropFrom_addTo_of_ne {x y : NodeQueue} (h : y.ptr ≠ x.ptr)
    (l : List ℕ × List KernelQueue) : x.dropFrom (y.addTo l) = y.addTo (x.dropFrom l) := by
  cases x with
  | user ptr =>
    cases y with
    | user ptr' => simp [dropFrom, addTo, show ptr' ≠ ptr from h]
    | kernel kq => rfl
  | kernel kq =>
    cases y with
    | user ptr => rfl
    | kernel kq' => simp [dropFrom, addTo, show kq'.ptr ≠ kq.ptr from h]

/-- The listed queues of a device. -/
def listedOn (d : ℕ) (queues : List Node) : List ℕ × List KernelQueue :=
  (queues.filterMap (Node.userOn d), queues.filterMap (Node.kernelOn d))

section

variable {d : ℕ} {pqn : Node} {queues A B : List Node}

theorem listedOn_cons : listedOn d (pqn :: queues) =
    if pqn.device = d then pqn.queue.addTo (listedOn d queues) else listedOn d queues := by
  obtain ⟨ptr, qid, device, queue⟩ := pqn
  unfold listedOn
  rw [List.filterMap_cons, List.filterMap_cons]
  by_cases hd : device = d <;> cases queue <;>
    simp [Node.userOn, Node.kernelOn, NodeQueue.addTo, hd]

/-- A node is taken from the list as its queue is from the list of its device. -/
theorem listedOn_erase (hA : ∀ a ∈ A, a.queue.ptr ≠ pqn.queue.ptr) :
    listedOn d (A ++ B) = if pqn.device = d then pqn.queue.dropFrom (listedOn d (A ++ pqn :: B))
      else listedOn d (A ++ pqn :: B) := by
  induction A with
  | nil =>
    rw [List.nil_append, List.nil_append, listedOn_cons]
    split_ifs
    · rw [NodeQueue.dropFrom_addTo]
    · rfl
  | cons a A ih =>
    obtain ⟨ha, hA⟩ := List.forall_mem_cons.1 hA
    rw [List.cons_append, List.cons_append, listedOn_cons, listedOn_cons, ih hA]
    split_ifs
    · rw [NodeQueue.dropFrom_addTo_of_ne ha]
    all_goals rfl

theorem listedOn_eq_nil : listedOn d queues = ([], []) ↔ ∀ pqn ∈ queues, pqn.device ≠ d := by
  induction queues with
  | nil => simp [listedOn]
  | cons pqn queues ih =>
    rw [listedOn_cons, List.forall_mem_cons]
    by_cases hd : pqn.device = d
    · cases h : pqn.queue <;> simp [hd, NodeQueue.addTo]
    · rw [if_neg hd, ih]
      exact ⟨fun h => ⟨hd, h⟩, fun h => h.2⟩

end

/-! ### The invariant -/

/-- The addresses of a node and of its queue. -/
def Node.addresses (pqn : Node) : List ℕ := [pqn.ptr, pqn.queue.ptr]

/-- **The invariant.** -/
structure State.Inv (s : State) : Prop where
  slots : ∀ b, b ∈ s.queue_slot_bitmap ↔ ∃ pqn ∈ s.queues, pqn.queue_id = b
  unique : (s.queues.map Node.queue_id).Nodup
  addresses : (s.queues.flatMap Node.addresses).Nodup
  alive : ∀ pqn ∈ s.queues, ∀ a ∈ pqn.addresses, a ∈ s.alive
  device : ∀ pqn ∈ s.queues, (s.pdds pqn.device).isSome = true
  lists : ∀ d pdd, s.pdds d = some pdd → pdd.onDevice = listedOn d s.queues
  registered : ∀ d pdd, s.pdds d = some pdd → pdd.Registered

namespace State

variable {s : State}

theorem Initial.inv (h : s.Initial) : s.Inv := by
  obtain ⟨hqueues, hbitmap, hpdds⟩ := h
  constructor <;> try simp [hqueues, hbitmap]
  · intro d pdd hd
    obtain ⟨hl, hk, -⟩ := hpdds d pdd hd
    simp [Pdd.onDevice, listedOn, hl, hk]
  · intro d pdd hd
    obtain ⟨hl, hk, hr⟩ := hpdds d pdd hd
    simp [Pdd.Registered, Pdd.listsEmpty, hl, hk, hr]

/-- What the invariant says of a node by its place in the list. -/
theorem Inv.split {A B : List Node} {pqn : Node} (hi : s.Inv) (h : s.queues = A ++ pqn :: B) :
    (∀ a ∈ A ++ B, a.queue_id ≠ pqn.queue_id) ∧
      (∀ a ∈ A ++ B, ∀ x ∈ a.addresses, x ∉ pqn.addresses) := by
  have hids := hi.unique
  have haddresses := hi.addresses
  rw [h, List.map_append, List.map_cons, List.nodup_middle, ← List.map_append,
    List.nodup_cons] at hids
  have hperm : (s.queues.flatMap Node.addresses).Perm
      (pqn.addresses ++ (A ++ B).flatMap Node.addresses) := by
    rw [h, ← List.flatMap_cons]
    exact List.Perm.flatMap_right _ List.perm_middle
  rw [hperm.nodup_iff, List.nodup_append] at haddresses
  constructor
  · exact fun a ha he => hids.1 (List.mem_map.2 ⟨a, ha, he⟩)
  · exact fun a ha x hx hp => haddresses.2.2 x hp x (List.mem_flatMap.2 ⟨a, ha, hx⟩) rfl

/-- The node with an id, and the rest of the list. -/
theorem Inv.exists_split {qid : ℕ} {pqn : Node} (hi : s.Inv)
    (h : getQueueByQid s.queues qid = some pqn) :
    pqn.queue_id = qid ∧ ∃ A B, s.queues = A ++ pqn :: B ∧
      s.queues.eraseP (·.ptr = pqn.ptr) = A ++ B := by
  obtain ⟨hid, A, B, hs, -⟩ := List.find?_eq_some_iff_append.1 h
  refine ⟨of_decide_eq_true hid, A, B, hs, ?_⟩
  have hA (a : Node) (ha : a ∈ A) : ¬decide (a.ptr = pqn.ptr) = true := fun he =>
    (hi.split hs).2 a (List.mem_append_left _ ha) a.ptr List.mem_cons_self
      (of_decide_eq_true he ▸ List.mem_cons_self)
  rw [hs, List.eraseP_append_right _ hA, List.eraseP_cons_of_pos (by simp)]

theorem setPdd_self {d : ℕ} {pdd : Pdd} : (s.setPdd d pdd).pdds d = some pdd :=
  Function.update_self ..

theorem setPdd_of_ne {d d' : ℕ} {pdd : Pdd} (h : d' ≠ d) :
    (s.setPdd d pdd).pdds d' = s.pdds d' :=
  Function.update_of_ne h ..

/-- A call that leaves the queues of a process on a device. -/
theorem Inv.setPdd {d : ℕ} {pdd pdd' : Pdd} (hi : s.Inv) (h : s.pdds d = some pdd)
    (halike : pdd.Alike pdd') : (s.setPdd d pdd').Inv := by
  refine ⟨hi.slots, hi.unique, hi.addresses, hi.alive, fun pqn hp => ?_, fun d' pdd₁ h₁ => ?_,
    fun d' pdd₁ h₁ => ?_⟩
  · by_cases hd : pqn.device = d
    · rw [hd, setPdd_self, Option.isSome_some]
    · rw [setPdd_of_ne hd]
      exact hi.device pqn hp
  · by_cases hd : d' = d
    · subst hd
      rw [setPdd_self, Option.some.injEq] at h₁
      subst h₁
      exact (Pdd.alike_iff.1 halike).1.trans (hi.lists d' pdd h)
    · rw [setPdd_of_ne hd] at h₁
      exact hi.lists d' pdd₁ h₁
  · by_cases hd : d' = d
    · subst hd
      rw [setPdd_self, Option.some.injEq] at h₁
      subst h₁
      exact (hi.registered d' pdd h).of_alike halike
    · rw [setPdd_of_ne hd] at h₁
      exact hi.registered d' pdd₁ h₁

/-- **A creation that goes through** lists a node with an id and addresses that were free. -/
theorem Inv.created {d node qid : ℕ} {queue : NodeQueue} {pdd pdd' : Pdd} (hi : s.Inv)
    (h : s.pdds d = some pdd) (hqid : qid ∉ s.queue_slot_bitmap) (hnode : node ∉ s.alive)
    (hptr : queue.ptr ∉ s.alive) (hne : node ≠ queue.ptr)
    (hlists : pdd'.onDevice = queue.addTo pdd.onDevice) (hregistered : pdd'.Registered) :
    Inv { s with
      queues := ⟨node, qid, d, queue⟩ :: s.queues
      queue_slot_bitmap := insert qid s.queue_slot_bitmap
      pdds := Function.update s.pdds d (some pdd')
      alive := insert node (insert queue.ptr s.alive) } := by
  have hfresh (x : ℕ) (hx : x ∉ s.alive) : x ∉ s.queues.flatMap Node.addresses := fun hmem => by
    obtain ⟨pqn, hp, hx'⟩ := List.mem_flatMap.1 hmem
    exact hx (hi.alive pqn hp x hx')
  constructor
  · intro b
    rw [Finset.mem_insert, hi.slots]
    simp [eq_comm]
  · refine List.nodup_cons.2 ⟨fun hmem => hqid ?_, hi.unique⟩
    obtain ⟨pqn, hp, he⟩ := List.mem_map.1 hmem
    exact (hi.slots qid).2 ⟨pqn, hp, he⟩
  · refine List.nodup_cons.2 ⟨fun hmem => ?_, List.nodup_cons.2 ⟨hfresh _ hptr, hi.addresses⟩⟩
    rcases List.mem_cons.1 hmem with he | hmem
    · exact hne he
    · exact hfresh _ hnode hmem
  · intro pqn hp a ha
    rw [Finset.mem_insert, Finset.mem_insert]
    rcases List.mem_cons.1 hp with rfl | hp
    · rw [Node.addresses, List.mem_cons, List.mem_singleton] at ha
      exact ha.imp_right .inl
    · exact .inr (.inr (hi.alive pqn hp a ha))
  · intro pqn hp
    dsimp only
    rw [Function.update_apply]
    split_ifs with hd
    · rfl
    · rcases List.mem_cons.1 hp with rfl | hp
      · exact absurd rfl hd
      · exact hi.device pqn hp
  · intro d' pdd₁ h₁
    dsimp only at h₁ ⊢
    rw [Function.update_apply] at h₁
    rw [listedOn_cons]
    split_ifs at h₁ with hd
    · cases h₁
      subst hd
      rw [if_pos rfl, hlists, hi.lists d' pdd h]
    · rw [if_neg fun he => hd he.symm]
      exact hi.lists d' pdd₁ h₁
  · intro d' pdd₁ h₁
    dsimp only at h₁
    rw [Function.update_apply] at h₁
    split_ifs at h₁
    · cases h₁
      exact hregistered
    · exact hi.registered d' pdd₁ h₁

/-- **The end of a destruction** takes the node from the list when the queue is off the device. -/
theorem Inv.finishDestroy {qid : ℕ} {pqn : Node} {pdd pdd' : Pdd} (hi : s.Inv)
    (h : getQueueByQid s.queues qid = some pqn) (hd : s.pdds pqn.device = some pdd)
    (hlists : pdd'.onDevice = pqn.queue.dropFrom pdd.onDevice)
    (hregistered : pdd'.unregisterIfEmpty.Registered) : (s.finishDestroy pqn pdd').Inv := by
  obtain ⟨-, A, B, hs, herase⟩ := hi.exists_split h
  obtain ⟨hids, haddresses⟩ := hi.split hs
  have hsub : (A ++ B).Sublist s.queues := by
    rw [hs]
    exact (List.sublist_cons_self pqn B).append_left A
  have hA (a : Node) (ha : a ∈ A) : a.queue.ptr ≠ pqn.queue.ptr := fun he =>
    haddresses a (List.mem_append_left _ ha) a.queue.ptr (by simp [Node.addresses])
      (by simp [Node.addresses, he])
  unfold State.finishDestroy State.setPdd
  rw [herase]
  constructor
  · intro b
    rw [Finset.mem_erase, hi.slots, hs]
    constructor
    · rintro ⟨hne, x, hx, rfl⟩
      rw [List.mem_append, List.mem_cons] at hx
      rcases hx with hx | rfl | hx
      · exact ⟨x, List.mem_append_left _ hx, rfl⟩
      · exact absurd rfl hne
      · exact ⟨x, List.mem_append_right _ hx, rfl⟩
    · rintro ⟨x, hx, rfl⟩
      exact ⟨hids x hx, x, hs ▸ hsub.subset hx, rfl⟩
  · exact hi.unique.sublist (hsub.map _)
  · exact hi.addresses.sublist (hsub.flatMap _)
  · intro x hx a ha
    have hnot := haddresses x hx a ha
    rw [Node.addresses, List.mem_cons, List.mem_singleton, not_or] at hnot
    exact Finset.mem_erase.2 ⟨hnot.1, Finset.mem_erase.2
      ⟨hnot.2, hi.alive x (hsub.subset hx) a ha⟩⟩
  · intro x hx
    dsimp only
    rw [Function.update_apply]
    split_ifs
    · rfl
    · exact hi.device x (hsub.subset hx)
  · intro d' pdd₁ h₁
    dsimp only at h₁ ⊢
    rw [Function.update_apply] at h₁
    rw [listedOn_erase hA, ← hs]
    split_ifs at h₁ with he
    · cases h₁
      subst he
      rw [if_pos rfl, Pdd.onDevice_unregisterIfEmpty, hlists, hi.lists pqn.device pdd hd]
    · rw [if_neg fun e => he e.symm]
      exact hi.lists d' pdd₁ h₁
  · intro d' pdd₁ h₁
    dsimp only at h₁
    rw [Function.update_apply] at h₁
    split_ifs at h₁
    · cases h₁
      exact hregistered
    · exact hi.registered d' pdd₁ h₁

/-! ### The calls -/

theorem Unchanged.refl (s : State) : s.Unchanged s :=
  ⟨rfl, rfl, rfl, fun d => by
    cases s.pdds d with
    | none => exact .none
    | some pdd => exact .some ⟨rfl, rfl, rfl⟩⟩

theorem unchanged_setPdd {d : ℕ} {pdd pdd' : Pdd} (h : s.pdds d = some pdd)
    (halike : pdd.Alike pdd') : s.Unchanged (s.setPdd d pdd') := by
  refine ⟨rfl, rfl, rfl, fun d' => ?_⟩
  by_cases hd : d' = d
  · subst hd
    rw [h, setPdd_self]
    exact .some halike
  · rw [setPdd_of_ne hd]
    exact (Unchanged.refl s).pdds d'

/-- The bit that the call has set is cleared again. -/
theorem errAllocatePqn_eq {d qid : ℕ} {pdd : Pdd} (hqid : qid ∉ s.queue_slot_bitmap) :
    errAllocatePqn { s with queue_slot_bitmap := insert qid s.queue_slot_bitmap } d qid pdd =
      s.setPdd d pdd.unregisterIfEmpty := by
  unfold errAllocatePqn
  dsimp only
  rw [Finset.erase_insert hqid]
  rfl

theorem notMem_of_findAvailableQueueSlot {queue_slot_bitmap : Finset ℕ} {qid : ℕ}
    (h : findAvailableQueueSlot queue_slot_bitmap = some qid) : qid ∉ queue_slot_bitmap := by
  unfold findAvailableQueueSlot at h
  have hfound := List.find?_some h
  simpa using hfound

/-- **`pqm_create_queue`.** -/
theorem Inv.pqmCreateQueue {active : MqdActive} {out : Outcome} {mem : Memory} {d node : ℕ}
    {args : CreateArgs} {retval : Option Errno} {t : State} (hi : s.Inv)
    (hok : s.StepOk (.create active out mem d node args)) (hnode : node ∉ s.alive)
    (hptr : args.ptr ∉ s.alive) (hne : node ≠ args.ptr)
    (h : s.pqmCreateQueue active out mem d node args = (retval, t)) :
    t.Inv ∧ (retval ≠ none → s.Unchanged t) := by
  unfold State.pqmCreateQueue at h
  split at h
  · cases h
    exact ⟨hi, fun _ => .refl s⟩
  rename_i pdd hd
  split at h
  · cases h
    exact ⟨hi, fun _ => .refl s⟩
  split at h
  · cases h
    exact ⟨hi, fun _ => .refl s⟩
  rename_i qid hfind
  have hqid := notMem_of_findAvailableQueueSlot hfind
  have hregistered := hi.registered d pdd hd
  have hfails {pdd' : Pdd} (hon : pdd'.onDevice = pdd.onDevice)
      (hreg : pdd'.registrations = (pdd.registerIfEmpty mem.process_node).registrations) :
      (s.setPdd d pdd'.unregisterIfEmpty).Inv ∧ s.Unchanged (s.setPdd d pdd'.unregisterIfEmpty) :=
    have halike := Pdd.alike_unregisterIfEmpty hregistered hon hreg
    ⟨hi.setPdd hd halike, unchanged_setPdd hd halike⟩
  dsimp only at h
  rw [errAllocatePqn_eq hqid] at h
  split at h
  · cases h
    exact (hfails Pdd.onDevice_registerIfEmpty rfl).imp_right fun hu _ => hu
  rename_i hnodeMemory
  split at h
  · rename_i e pdd' hcreate
    obtain ⟨hreg, hon⟩ := Pdd.createByType_spec hcreate
    rw [errAllocatePqn_eq hqid] at h
    cases h
    exact (hfails (hon.trans Pdd.onDevice_registerIfEmpty) hreg).imp_right fun hu _ => hu
  · rename_i pdd' hcreate
    obtain ⟨hreg, hon⟩ := Pdd.createByType_spec hcreate
    rw [if_pos rfl, Pdd.onDevice_registerIfEmpty] at hon
    cases h
    have hmemory (he : pdd.listsEmpty = true) : mem.process_node = true := by
      by_contra hno
      have hskip : pdd.registerIfEmpty mem.process_node = pdd := by
        simp [Pdd.registerIfEmpty, hno]
      rw [hskip] at hcreate
      exact hno (hok pdd qid hd hfind he (by simpa using hnodeMemory) (by rw [hcreate]))
    refine ⟨?_, fun hnone => absurd rfl hnone⟩
    have hqueue : (nodeQueue args).ptr = args.ptr := by
      unfold nodeQueue
      split_ifs <;> rfl
    have hinv := @Inv.created s d node qid (nodeQueue args) pdd pdd' hi hd hqid hnode
      (hqueue ▸ hptr) (hqueue ▸ hne) hon (Pdd.registered_of_addTo hregistered hon hreg hmemory)
    rw [hqueue] at hinv
    exact hinv

/-- A listed node's process is registered on its device. -/
theorem Inv.registrations_eq_one {pqn : Node} {pdd : Pdd} (hi : s.Inv) (hp : pqn ∈ s.queues)
    (hd : s.pdds pqn.device = some pdd) : pdd.registrations = 1 := by
  have hne : ¬pdd.listsEmpty = true := by
    rw [Pdd.listsEmpty_iff, hi.lists _ _ hd, listedOn_eq_nil]
    exact fun h => h pqn hp rfl
  exact (hi.registered _ _ hd).trans (if_neg hne)

theorem ptr_of_find {qpd : Qpd} {ptr : ℕ} {q : Queue} (h : qpd.find ptr = some q) :
    q.ptr = ptr := by
  unfold Qpd.find at h
  have hfound := List.find?_some h
  exact of_decide_eq_true hfound

/-- A listed user queue is on the list of its device. -/
theorem Inv.exists_find {pqn : Node} {pdd : Pdd} {ptr : ℕ} (hi : s.Inv) (hp : pqn ∈ s.queues)
    (hd : s.pdds pqn.device = some pdd) (hq : pqn.queue = .user ptr) :
    ∃ q, pdd.qpd.find ptr = some q ∧ q.ptr = ptr := by
  have hmem : ptr ∈ pdd.qpd.queues_list.map Queue.ptr := by
    have hlists : pdd.qpd.queues_list.map Queue.ptr = s.queues.filterMap (Node.userOn pqn.device) :=
      congrArg Prod.fst (hi.lists _ _ hd)
    rw [hlists, List.mem_filterMap]
    exact ⟨pqn, hp, by simp [Node.userOn, hq]⟩
  obtain ⟨q, hql, hqp⟩ := List.mem_map.1 hmem
  have hsome : (pdd.qpd.find ptr).isSome = true :=
    List.find?_isSome.2 ⟨q, hql, by simp [hqp]⟩
  obtain ⟨q', hq'⟩ := Option.isSome_iff_exists.1 hsome
  exact ⟨q', hq', ptr_of_find hq'⟩

/-- **`pqm_destroy_queue` finds what it destroys.** -/
theorem Inv.isSome_pqmDestroyQueue {out : Outcome} {qid : ℕ} (hi : s.Inv) :
    (s.pqmDestroyQueue out qid).isSome = true := by
  unfold State.pqmDestroyQueue
  split
  · rfl
  rename_i pqn hfind
  split
  · rfl
  rename_i pdd hd
  split
  · rfl
  · rename_i ptr hq
    obtain ⟨q, hfound, -⟩ := hi.exists_find (List.mem_of_find?_eq_some hfind) hd hq
    rw [hfound]
    rfl

/-- **`pqm_destroy_queue`.** -/
theorem Inv.pqmDestroyQueue {out : Outcome} {qid : ℕ} {retval : Option Errno} {t : State}
    (hi : s.Inv) (hok : s.StepOk (.destroy out qid))
    (h : s.pqmDestroyQueue out qid = some (retval, t)) :
    t.Inv ∧ (retval ≠ none → retval ≠ some .etime → s.Unchanged t) := by
  unfold State.pqmDestroyQueue at h
  split at h
  · cases h
    exact ⟨hi, fun _ _ => .refl s⟩
  rename_i pqn hfind
  have hp : pqn ∈ s.queues := List.mem_of_find?_eq_some hfind
  split at h
  · cases h
    exact ⟨hi, fun _ _ => .refl s⟩
  rename_i pdd hd
  have hone := hi.registrations_eq_one hp hd
  have hfinish {pdd' : Pdd} (hreg : pdd'.registrations = pdd.registrations)
      (hon : pdd'.onDevice = pqn.queue.dropFrom pdd.onDevice) : (s.finishDestroy pqn pdd').Inv := by
    refine hi.finishDestroy hfind hd hon (Pdd.registered_unregisterIfEmpty ?_)
    rw [hreg, hone]
    split_ifs
    · exact le_rfl
    · rfl
  split at h
  · rename_i kq hq
    cases h
    obtain ⟨hreg, hon⟩ := @Pdd.destroyKernelQueue_spec pdd _ _ kq out.fw rfl
    exact ⟨hfinish hreg (hq ▸ hon), fun hnone => absurd rfl hnone⟩
  · rename_i ptr hq
    obtain ⟨q, hfound, hptr⟩ := hi.exists_find hp hd hq
    rw [hfound, Option.map_some, Option.some.injEq] at h
    have hdestroy := hok pqn pdd ptr q hfind hd hq hfound
    rcases hresult : destroyQueue pdd.dev out pdd.dqm pdd.qpd q with ⟨r, dqm, qpd⟩
    obtain ⟨hreg, hon⟩ := Pdd.destroyQueue_spec hdestroy hresult
    rw [hresult] at h
    dsimp only at h
    by_cases hr : r = none ∨ r = some .etime
    · rw [if_pos hr, hptr, ← hq] at hon
      rw [if_pos (by simpa [Option.isNone_iff_eq_none] using hr)] at h
      cases h
      exact ⟨hfinish hreg hon, fun h₁ h₂ => absurd hr (not_or.2 ⟨h₁, h₂⟩)⟩
    · rw [if_neg hr] at hon
      rw [if_neg (by simpa [Option.isNone_iff_eq_none] using hr)] at h
      cases h
      have halike := Pdd.alike_iff.2 ⟨hon, hreg⟩
      exact ⟨hi.setPdd hd halike, fun _ _ => unchanged_setPdd hd halike⟩

/-- **`pqm_update_queue`.** -/
theorem Inv.pqmUpdateQueue {active : MqdActive} {out : Outcome}
    {qid queue_address queue_size queue_percent priority : ℕ} {retval : Option Errno} {t : State}
    (hi : s.Inv) (h : s.pqmUpdateQueue active out qid queue_address queue_size queue_percent
      priority = some (retval, t)) : t.Inv ∧ s.Unchanged t := by
  unfold State.pqmUpdateQueue at h
  split at h
  · cases h
    exact ⟨hi, .refl s⟩
  rename_i pqn hfind
  split at h
  · rename_i pdd ptr hd hq
    dsimp only at h
    rw [Option.map_eq_some_iff] at h
    obtain ⟨q, hfound, h⟩ := h
    have hlists := @lists_modify pdd.qpd ptr
      (Queue.setProperties queue_address queue_size queue_percent priority) fun _ => rfl
    have hptr := ptr_of_find hfound
    rw [← hptr] at hlists hfound
    rcases hresult : updateQueue active out pdd.dqm _ q with ⟨r, dqm, qpd⟩
    have halike := Pdd.updateQueue_alike hlists hfound hresult
    rw [← hptr, hresult] at h
    cases h
    exact ⟨hi.setPdd hd halike, unchanged_setPdd hd halike⟩
  · cases h

/-! ### Runs -/

/-- **Every step keeps the invariant.** -/
theorem Inv.step {op : Op} {t : State} (hi : s.Inv) (h : Guarded StepOk Step s op t) : t.Inv := by
  obtain ⟨hok, retval, hcall⟩ := h
  cases hcall with
  | create hnode hptr hne => exact (hi.pqmCreateQueue hok hnode hptr hne rfl).1
  | update hu => exact (hi.pqmUpdateQueue hu).1
  | destroy hd => exact (hi.pqmDestroyQueue hok hd).1
  | other hd halike => exact hi.setPdd hd halike

/-- **A call that fails changes nothing**, but for a destruction that times out. -/
theorem Inv.unchanged {op : Op} {e : Errno} {t : State} (hi : s.Inv) (hok : s.StepOk op)
    (hcall : s.Call op (some e) t) (he : ¬op.Tolerates e) : s.Unchanged t := by
  generalize hretval : some e = retval at hcall
  cases hcall with
  | create hnode hptr hne =>
    exact (hi.pqmCreateQueue hok hnode hptr hne rfl).2
      fun hnone => Option.some_ne_none e (hretval.trans hnone)
  | update hu => exact (hi.pqmUpdateQueue hu).2
  | destroy hd =>
    subst hretval
    refine (hi.pqmDestroyQueue hok hd).2 (Option.some_ne_none e) fun htime => he ?_
    exact Option.some.inj htime
  | other => cases hretval

/-- **What the invariant promises.** -/
theorem Inv.promise (hi : s.Inv) : s.Promise := by
  refine ⟨hi.slots, hi.unique, fun pqn hp => ?_, fun d pdd hd => ?_, fun d pdd hd => ?_,
    fun d pdd hd => ?_, fun pqn hp => ?_⟩
  · obtain ⟨A, B, hs⟩ := List.append_of_mem hp
    refine List.find?_eq_some_iff_append.2 ⟨decide_eq_true rfl, A, B, hs, fun a ha => ?_⟩
    simpa using (hi.split hs).1 a (List.mem_append_left _ ha)
  · rw [hi.registered d pdd hd]
    by_cases hany : s.queues.any (·.device = d) = true
    · rw [if_pos hany, if_neg]
      rw [Pdd.listsEmpty_iff, hi.lists d pdd hd, listedOn_eq_nil]
      obtain ⟨pqn, hp, hdev⟩ := List.any_eq_true.1 hany
      exact fun h => h pqn hp (of_decide_eq_true hdev)
    · rw [if_neg hany, if_pos]
      rw [Pdd.listsEmpty_iff, hi.lists d pdd hd, listedOn_eq_nil]
      exact fun pqn hp hdev => hany (List.any_eq_true.2 ⟨pqn, hp, decide_eq_true hdev⟩)
  · exact congrArg Prod.fst (hi.lists d pdd hd)
  · exact congrArg Prod.snd (hi.lists d pdd hd)
  · exact ⟨hi.alive pqn hp _ (by simp [Node.addresses]),
      hi.alive pqn hp _ (by simp [Node.addresses])⟩

/-- **Where its calls go well, a process's queues are what is listed of them**, in every run: the
bits are the ids of the listed queues, an id finds its queue, the process is registered once on the
devices where it has queues and nowhere else, a destruction finds the queue on its device, and a
call that fails changes nothing. -/
theorem queues_of_run {s₀ : State} {ops : List Op} (h₀ : s₀.Initial)
    (h : Run (Guarded StepOk Step) s₀ ops s) :
    s.Promise ∧ (∀ out qid, (s.pqmDestroyQueue out qid).isSome = true) ∧
      ∀ (op : Op) (e : Errno) (t : State), s.StepOk op → s.Call op (some e) t →
        ¬op.Tolerates e → s.Unchanged t := by
  have hi : s.Inv := h.inv (fun _ _ _ hi hstep => hi.step hstep) h₀.inv
  exact ⟨hi.promise, fun _ _ => hi.isSome_pqmDestroyQueue,
    fun _ _ _ hok hcall he => hi.unchanged hok hcall he⟩

/-- A process that has opened one device. -/
def opened : State where
  pdds d := if d = 0 then some { dqm := { sched_policy := .hws }, qpd := { pasid := 1 } } else none

theorem opened_initial : opened.Initial := by
  refine ⟨rfl, rfl, fun d pdd h => ?_⟩
  unfold opened at h
  dsimp only at h
  split_ifs at h
  cases h
  exact ⟨rfl, rfl, rfl⟩

/-- It creates a compute queue there, which is not active. -/
abbrev createCompute (mem : Memory) : Op :=
  .create (fun _ => false) {} mem 0 100 { ptr := 200, type := .compute }

/-- The state it is in then. -/
abbrev created (mem : Memory) : State :=
  (opened.pqmCreateQueue (fun _ => false) {} mem 0 100 { ptr := 200, type := .compute }).2

theorem call_create (mem : Memory) : opened.Step (createCompute mem) (created mem) :=
  ⟨_, .create (Finset.notMem_empty _) (Finset.notMem_empty _) (by decide) nofun⟩

/-- A queue is made and destroyed. -/
theorem queues_of_run_two : ∃ s : State, s.queues = [] ∧ s.Promise := by
  have hok : (created {}).StepOk (.destroy {} 0) := by
    intro pqn pdd ptr q hfind hd hq hfound
    have hdevice : (getQueueByQid (created {}).queues 0).map Node.device = some 0 := by
      decide +kernel
    have hview : ((created {}).pdds 0).map (fun pdd => (pdd.dqm.sched_policy,
        pdd.qpd.queues_list.map (·.properties.is_active))) = some (.hws, [false]) := by
      decide +kernel
    rw [hfind, Option.map_some, Option.some.injEq] at hdevice
    rw [hdevice] at hd
    rw [hd, Option.map_some, Option.some.injEq, Prod.mk.injEq] at hview
    have hactive : q.properties.is_active ∈ [false] :=
      hview.2 ▸ List.mem_map_of_mem (List.mem_of_find?_eq_some hfound)
    unfold DestroyOk
    rw [if_neg (by rw [hview.1]; decide)]
    exact .inr (.inl (List.mem_singleton.1 hactive))
  have hcreate : opened.StepOk (createCompute {}) := fun _ _ _ _ _ _ _ => rfl
  have hdestroy : ((created {}).pqmDestroyQueue {} 0).map (·.2.queues) = some [] := by
    decide +kernel
  obtain ⟨⟨retval, t⟩, hcall, hempty⟩ := Option.map_eq_some_iff.1 hdestroy
  have hrun : Run (Guarded StepOk Step) opened [createCompute {}, .destroy {} 0] t :=
    .cons ⟨hcreate, call_create {}⟩ (.cons ⟨hok, retval, .destroy hcall⟩ (.nil t))
  exact ⟨t, hempty, (queues_of_run opened_initial hrun).1⟩

/-- **Without memory to register it, the process gets its queue all the same**: what
`register_process` returns is not looked at. -/
theorem unregistered_process_has_queue :
    opened.Initial ∧ Run Step opened [createCompute { process_node := false }]
      (created { process_node := false }) ∧ ¬(created { process_node := false }).Promise := by
  refine ⟨opened_initial, .cons (call_create _) (.nil _), fun h => ?_⟩
  have hview : ((created { process_node := false }).pdds 0).map Pdd.registrations = some 0 := by
    decide +kernel
  have hany : (created { process_node := false }).queues.any (·.device = 0) = true := by
    decide +kernel
  obtain ⟨pdd, hd, hzero⟩ := Option.map_eq_some_iff.1 hview
  have hone := h.registered 0 pdd hd
  rw [hzero, if_pos hany] at hone
  cases hone

end State

end Codrive.Pqm
