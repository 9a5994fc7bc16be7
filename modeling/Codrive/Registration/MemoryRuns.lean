/-
# Registrations, over every run

`kept_of_run` says that the books are right in every state of a run of registrations and
deregistrations, as long as each call meets `StepOk`:

- A registration finds no object.  Where it finds one, it releases a lock that `vm_find_object` has
  given back already, counts user memory before it looks at the nodes, and frees an array that its
  caller frees again.
- An array comes with a size, and on an APU none is handed over.
- An object that is released has no array, which would stay behind; where it is user memory, it is
  registered once, and the driver frees it, since its refusal is not looked at.
-/

import Codrive.Basis.Run
import Codrive.Registration.Memory

namespace Codrive.Registration

open Codrive.Basis

/-! ### Locks -/

theorem locked_append (held : List ℕ) (path path' : List LockEvent) :
    locked held (path ++ path') = (locked held path).bind fun held => locked held path' := by
  induction path generalizing held with
  | nil => rfl
  | cons e path ih =>
    cases e with
    | acquire lock => exact ih _
    | release lock =>
      simp only [List.cons_append, locked]
      split_ifs
      · exact ih _
      · rfl

theorem Balanced.append {path path' : List LockEvent} (h : Balanced path) (h' : Balanced path') :
    Balanced (path ++ path') := by
  unfold Balanced
  rw [locked_append, h]
  exact h'

theorem balanced_scopedAcquire (locks : List ℕ) : Balanced (scopedAcquire locks) := by
  induction locks with
  | nil => rfl
  | cons lock locks ih =>
    have hone : Balanced [.acquire lock, .release lock] := by
      simp [Balanced, locked]
    exact hone.append ih

namespace State

/-- The object owns the array. -/
def Owns (s : State) (k n : ℕ) : Prop :=
  ∃ object array, s.objects k = some object ∧
    object.registered_device_id_array = some array ∧ array.id = n

/-- **The books are right.** -/
structure Kept (s : State) : Prop where
  /-- User memory is registered as often as registrations succeeded more than deregistrations. -/
  count : ∀ k object, s.objects k = some object → object.userptr →
    (object.registration_count : ℤ) = s.balance k
  /-- It is freed exactly when that returns to zero. -/
  gone : ∀ k, s.userptrs k → (s.objects k = none ↔ s.returned k)
  /-- Every array that was handed over is owned by one object, or was freed once. -/
  arrays : ∀ n < s.handed, (s.freed n = 0 ∧ ∃! k, s.Owns k n) ∨ (s.freed n = 1 ∧ ∀ k, ¬s.Owns k n)
  locks : s.locksOk = true

/-- What else holds in every state. -/
structure Inv (s : State) : Prop extends Kept s where
  fresh : ∀ k, s.next ≤ k → s.objects k = none ∧ s.balance k = 0 ∧ s.returned k = false
  known : ∀ k object, s.objects k = some object → (s.userptrs k = true ↔ object.userptr = true)
  owned : ∀ k n, s.Owns k n → n < s.handed
  unfreed : ∀ n, s.handed ≤ n → s.freed n = 0

/-- Nothing was registered yet. -/
structure Start (s : State) : Prop where
  fresh : ∀ k, s.next ≤ k → s.objects k = none
  objects : ∀ k object, s.objects k = some object → object.registration_count = 0 ∧
    object.registered_device_id_array = none
  userptrs : ∀ k, s.userptrs k = (s.objects k).elim false MemObj.userptr
  books : s.handed = 0 ∧ (∀ n, s.freed n = 0) ∧ (∀ k, s.balance k = 0) ∧
    (∀ k, s.returned k = false) ∧ s.locksOk = true

variable {sys : System} {s : State}

/-- The call goes well for the object that is deregistered. -/
def ReleaseOk (sys : System) (object : MemObj) (released : Bool) : Prop :=
  if object.aperture = sys.cpuvm_aperture ∨ 1 < object.registration_count then True
  else
    (object.userptr = true → object.registration_count = 1 ∧ released = true) ∧
      ((object.metadata ∨ object.userptr ∨ object.is_imported_kfd_bo) → released = true →
        object.registered_device_id_array = none)

/-- **The condition on a call.** -/
def StepOk (sys : System) (s : State) : Call → Prop
  | .register found gpu_id_array gpu_id_array_size user =>
    (0 < gpu_id_array_size ∧ gpu_id_array = none) ∨
      (∀ k ∈ found.object, s.objects k = none) ∧
        (gpu_id_array = none ∨
          sys.is_dgpu = true ∧ (0 < gpu_id_array_size ∨ user.created = false))
  | .deregister found released =>
    ∀ k ∈ found.object, ∀ object ∈ s.objects k, ReleaseOk sys object released

/-! ### What a call does to the books -/

/-- A balanced path. -/
theorem Inv.book {path : List LockEvent} (h : Inv s) (hpath : Balanced path) :
    Inv (s.book path) where
  count := h.count
  gone := h.gone
  arrays := h.arrays
  locks := by
    dsimp only [State.book]
    rw [h.locks, decide_eq_true hpath]
    rfl
  fresh := h.fresh
  known := h.known
  owned := h.owned
  unfreed := h.unfreed

/-- An array is handed over, and its caller frees it. -/
theorem Inv.handedBack (h : Inv s) :
    Inv { s with
      handed := s.handed + 1
      freed := Function.update s.freed s.handed (s.freed s.handed + 1) } where
  count := h.count
  gone := h.gone
  arrays n hn := by
    dsimp only at hn ⊢
    by_cases heq : n = s.handed
    · subst heq
      refine .inr ⟨?_, fun k hk => absurd (h.owned k _ hk) (Nat.lt_irrefl _)⟩
      rw [Function.update_self, h.unfreed _ (Nat.le_refl _)]
    · rw [Function.update_of_ne heq]
      exact h.arrays n (by omega)
  locks := h.locks
  fresh := h.fresh
  known := h.known
  owned k n hk := Nat.lt_succ_of_lt (h.owned k n hk)
  unfreed n hn := by
    dsimp only at hn ⊢
    rw [Function.update_of_ne (by omega)]
    exact h.unfreed n (by omega)

/-- The state with a new user pointer, that owns this array if there is one. -/
def withUserMemory (sys : System) (s : State) (array : Option NodeArray) (size : ℕ) : State :=
  { s with
    objects := Function.update s.objects s.next
      (some
        { aperture := sys.dgpu_aperture
          userptr := true
          registration_count := 1
          registered_device_id_array := array
          registered_device_id_array_size := size })
    next := s.next + 1
    handed := s.handed + array.toList.length
    userptrs := Function.update s.userptrs s.next true
    balance := Function.update s.balance s.next (s.balance s.next + 1) }

/-- What is owned once an object is another. -/
theorem owns_of_update {t : State} {k j n : ℕ} {object : Option MemObj}
    (ht : t.objects = Function.update s.objects k object) :
    t.Owns j n ↔ if j = k then ∃ o ∈ object, ∃ a ∈ o.registered_device_id_array, a.id = n
      else s.Owns j n := by
  unfold Owns
  rw [ht]
  by_cases hj : j = k
  · subst hj
    rw [Function.update_self, if_pos rfl]
    constructor
    · rintro ⟨o, a, ho, ha, hid⟩
      exact ⟨o, ho, a, ha, hid⟩
    · rintro ⟨o, ho, a, ha, hid⟩
      exact ⟨o, a, ho, ha, hid⟩
  · rw [Function.update_of_ne hj, if_neg hj]

theorem owns_withUserMemory {array : Option NodeArray} {size k n : ℕ} :
    (withUserMemory sys s array size).Owns k n ↔
      if k = s.next then ∃ a ∈ array, a.id = n else s.Owns k n := by
  rw [owns_of_update (k := s.next) rfl]
  simp only [Option.mem_some_iff, exists_eq_left']

/-- **A new user pointer.** -/
theorem Inv.withUserMemory {array : Option NodeArray} {size : ℕ} (h : Inv s)
    (harray : ∀ a ∈ array, a.id = s.handed) : Inv (withUserMemory sys s array size) := by
  obtain ⟨hnone, hbalance, hreturned⟩ := h.fresh s.next (Nat.le_refl _)
  have hold : ∀ n, s.Owns s.next n → False := fun n hn => by
    obtain ⟨object, a, hobject, -⟩ := hn
    rw [hnone] at hobject
    exact nomatch hobject
  refine ⟨⟨?_, ?_, ?_, h.locks⟩, ?_, ?_, ?_, ?_⟩
  · intro k object hobject huser
    dsimp only [State.withUserMemory] at hobject ⊢
    by_cases hk : k = s.next
    · subst hk
      rw [Function.update_self] at hobject ⊢
      obtain rfl := Option.some.inj hobject
      rw [hbalance]
      rfl
    · rw [Function.update_of_ne hk] at hobject ⊢
      exact h.count k object hobject huser
  · intro k hk
    dsimp only [State.withUserMemory] at hk ⊢
    by_cases hnext : k = s.next
    · subst hnext
      rw [Function.update_self, hreturned]
      exact iff_of_false (Option.some_ne_none _) Bool.false_ne_true
    · rw [Function.update_of_ne hnext] at hk ⊢
      exact h.gone k hk
  · intro n hn
    have hfreed : (State.withUserMemory sys s array size).freed = s.freed := rfl
    rw [hfreed]
    simp only [owns_withUserMemory]
    by_cases hnew : n = s.handed ∧ array.isSome
    · -- The array that has just been handed over.
      obtain ⟨rfl, hsome⟩ := hnew
      obtain ⟨a, rfl⟩ := Option.isSome_iff_exists.1 hsome
      refine .inl ⟨h.unfreed _ (Nat.le_refl _), s.next, ?_, fun k hk => ?_⟩
      · dsimp only
        rw [if_pos rfl]
        exact ⟨a, rfl, harray a rfl⟩
      · dsimp only at hk
        by_contra hne
        rw [if_neg hne] at hk
        exact Nat.lt_irrefl _ (h.owned k _ hk)
    · have hlt : n < s.handed := by
        dsimp only [State.withUserMemory] at hn
        cases array with
        | none => exact hn
        | some a =>
          have hne : n ≠ s.handed := fun heq => hnew ⟨heq, rfl⟩
          simp only [Option.toList_some, List.length_singleton] at hn
          omega
      have hiff : ∀ k, (if k = s.next then ∃ a ∈ array, a.id = n else s.Owns k n) ↔ s.Owns k n := by
        intro k
        by_cases hk : k = s.next
        · subst hk
          rw [if_pos rfl]
          refine iff_of_false ?_ (hold n)
          rintro ⟨a, ha, hid⟩
          rw [harray a ha] at hid
          omega
        · rw [if_neg hk]
      simp only [hiff]
      exact h.arrays n hlt
  · intro k hk
    dsimp only [State.withUserMemory] at hk ⊢
    rw [Function.update_of_ne (by omega), Function.update_of_ne (by omega)]
    exact h.fresh k (by omega)
  · intro k object hobject
    dsimp only [State.withUserMemory] at hobject ⊢
    by_cases hk : k = s.next
    · subst hk
      rw [Function.update_self] at hobject ⊢
      obtain rfl := Option.some.inj hobject
      exact iff_of_true rfl rfl
    · rw [Function.update_of_ne hk] at hobject ⊢
      exact h.known k object hobject
  · intro k n hk
    rw [owns_withUserMemory] at hk
    dsimp only [State.withUserMemory]
    split_ifs at hk
    · obtain ⟨a, ha, rfl⟩ := hk
      obtain rfl := Option.mem_def.1 ha
      rw [harray a rfl]
      exact Nat.lt_succ_self _
    · exact Nat.lt_of_lt_of_le (h.owned k n hk) (Nat.le_add_right _ _)
  · intro n hn
    exact h.unfreed n (Nat.le_trans (Nat.le_add_right _ _) hn)

/-! ### Registering -/

/-- The lookup finds no object that is there. -/
theorem lookup_eq_none {found : Lookup} (h : ∀ k ∈ found.object, s.objects k = none) :
    (found.object.bind fun k => (s.objects k).map fun object => (k, object)) = none := by
  cases hfound : found.object with
  | none => rfl
  | some k =>
    rw [Option.bind_some, h k hfound]
    rfl

/-- Where `mm_register_memory` finds no object. -/
theorem mmRegisterMemory_unknown {found : Lookup} {array : Option NodeArray} {size : ℕ}
    {user : UserMemory} (hfound : ∀ k ∈ found.object, s.objects k = none)
    (hargs : ¬(0 < size ∧ array = none)) (hsize : user.created = true → array = none ∨ 0 < size) :
    ∃ path, Balanced path ∧ s.mmRegisterMemory sys found array size user =
      if sys.is_dgpu = false then (.success, none, s, path)
      else if user.created = false then (.error, none, s, path)
      else (.success, some s.next,
        { newUserMemory sys s with
          objects := (withUserMemory sys s array size).objects }, path) := by
  have hlocks := balanced_scopedAcquire found.apertures
  have hmore := hlocks.append
    (balanced_scopedAcquire (List.replicate user.locks sys.dgpu_aperture))
  unfold mmRegisterMemory
  rw [if_neg hargs, lookup_eq_none hfound]
  dsimp only
  cases sys.is_dgpu with
  | false => exact ⟨_, hlocks, rfl⟩
  | true =>
    cases hcreated : user.created with
    | false => exact ⟨_, hmore, rfl⟩
    | true =>
      by_cases h0 : size = 0
      · subst h0
        obtain rfl := (hsize hcreated).resolve_right (Nat.lt_irrefl 0)
        exact ⟨_, hmore, rfl⟩
      · -- The lock that is taken here is released by `registerFound`.
        have hpair : Balanced [.acquire sys.dgpu_aperture, .release sys.dgpu_aperture] := by
          simp [Balanced, locked]
        refine ⟨_, hmore.append hpair, ?_⟩
        rw [if_neg (by decide), if_neg (by decide), if_neg h0, if_neg (by decide),
          if_neg (by decide)]
        unfold registerFound
        rw [if_neg (Nat.lt_irrefl 0), if_pos (Nat.pos_of_ne_zero h0)]
        unfold setObject newUserMemory withUserMemory
        dsimp only
        rw [Function.update_idem]

/-- What the caller of `mm_register_memory` does with its result. -/
theorem register_eq {found : Lookup} {bytes : Option (List ℕ)} {size : ℕ} {user : UserMemory}
    {status : DeviceStatus} {k : Option ℕ} {t : State} {path : List LockEvent}
    (hr : ({ s with handed := s.handed + (bytes.map (NodeArray.mk s.handed)).toList.length } :
      State).mmRegisterMemory sys found (bytes.map (NodeArray.mk s.handed)) size user =
        (status, k, t, path)) :
    s.register sys found bytes size user =
      if status = .success then k.elim (t.book path) (t.book path).registered
      else (t.book path).freeArray (bytes.map (NodeArray.mk s.handed)) := by
  unfold register
  dsimp only
  rw [hr]
  cases k <;> rfl

/-- **A registration.** -/
theorem Inv.register {found : Lookup} {bytes : Option (List ℕ)} {size : ℕ} {user : UserMemory}
    (h : Inv s) (hok : StepOk sys s (.register found bytes size user)) :
    Inv (s.register sys found bytes size user) := by
  by_cases hargs : 0 < size ∧ bytes = none
  · -- The call is refused, with nothing handed over.
    obtain ⟨hsize, rfl⟩ := hargs
    have hr : s.mmRegisterMemory sys found none size user =
        (.invalidParameter, none, s, []) := by
      unfold mmRegisterMemory
      rw [if_pos ⟨hsize, rfl⟩]
    rw [@register_eq _ _ found none _ _ _ _ _ _ hr]
    exact h.book rfl
  · obtain ⟨hfound, harray⟩ := hok.resolve_left hargs
    have hargs' : ¬(0 < size ∧ bytes.map (NodeArray.mk s.handed) = none) := by
      rw [Option.map_eq_none_iff]
      exact hargs
    have hsize : user.created = true → bytes.map (NodeArray.mk s.handed) = none ∨ 0 < size := by
      intro hcreated
      rw [Option.map_eq_none_iff]
      refine harray.imp id fun hor => hor.2.resolve_right ?_
      rw [hcreated]
      exact nofun
    obtain ⟨path, hpath, hr⟩ := @mmRegisterMemory_unknown sys
      { s with handed := s.handed + (bytes.map (NodeArray.mk s.handed)).toList.length }
      _ _ _ _ hfound hargs' hsize
    cases hdgpu : sys.is_dgpu with
    | false =>
      rw [hdgpu] at harray
      obtain rfl := harray.resolve_right fun hor => Bool.false_ne_true hor.1
      rw [hdgpu, if_pos rfl] at hr
      rw [register_eq hr]
      exact h.book hpath
    | true =>
      rw [hdgpu, if_neg (by decide)] at hr
      cases hcreated : user.created with
      | false =>
        rw [hcreated, if_pos rfl] at hr
        rw [register_eq hr]
        cases bytes with
        | none => exact h.book hpath
        | some bytes => exact h.handedBack.book hpath
      | true =>
        rw [hcreated, if_neg (by decide)] at hr
        rw [register_eq hr]
        have hid : ∀ a ∈ bytes.map (NodeArray.mk s.handed), a.id = s.handed := fun a ha => by
          obtain ⟨b, -, rfl⟩ := Option.map_eq_some_iff.1 ha
          rfl
        exact (h.withUserMemory hid).book hpath

/-! ### Deregistering -/

variable {k : ℕ} {object : MemObj}

/-- What was made is known. -/
theorem Inv.lt_next (h : Inv s) (hk : s.objects k = some object) : k < s.next := by
  by_contra hle
  rw [(h.fresh k (Nat.le_of_not_lt hle)).1] at hk
  exact nomatch hk

/-- The arrays of the state are in one place each. -/
structure ArraysKept (s : State) : Prop where
  arrays : ∀ n < s.handed, (s.freed n = 0 ∧ ∃! k, s.Owns k n) ∨ (s.freed n = 1 ∧ ∀ k, ¬s.Owns k n)
  owned : ∀ k n, s.Owns k n → n < s.handed
  unfreed : ∀ n, s.handed ≤ n → s.freed n = 0

/-- They stay there when the object owns what it owned. -/
theorem Inv.arraysKept {t : State} {o : Option MemObj} (h : Inv s)
    (hk : s.objects k = some object) (ht : t.objects = Function.update s.objects k o)
    (ho : o.bind MemObj.registered_device_id_array = object.registered_device_id_array)
    (hhanded : t.handed = s.handed) (hfreed : t.freed = s.freed) : ArraysKept t := by
  have howns : ∀ j n, t.Owns j n ↔ s.Owns j n := by
    intro j n
    rw [owns_of_update ht]
    by_cases hj : j = k
    · subst hj
      rw [if_pos rfl]
      constructor
      · rintro ⟨o', ho', a, ha, hid⟩
        obtain rfl := Option.mem_def.1 ho'
        exact ⟨object, a, hk, ho.symm.trans ha, hid⟩
      · rintro ⟨object', a, hobject, ha, hid⟩
        obtain rfl := Option.some.inj (hk.symm.trans hobject)
        obtain ⟨o', ho', ha'⟩ := Option.bind_eq_some_iff.1 (ho.trans ha)
        exact ⟨o', ho', a, ha', hid⟩
    · rw [if_neg hj]
  refine ⟨?_, ?_, ?_⟩
  · rw [hhanded, hfreed]
    simp only [howns]
    exact h.arrays
  · rw [hhanded]
    simp only [howns]
    exact h.owned
  · rw [hhanded, hfreed]
    exact h.unfreed

/-- **A step on one object.**  What counts is that the books of the object are right. -/
theorem Inv.update {t : State} {o : Option MemObj} (h : Inv s) (hk : s.objects k = some object)
    (ht : t.objects = Function.update s.objects k o) (hnext : t.next = s.next)
    (huserptrs : t.userptrs = s.userptrs) (hbalance : ∀ j ≠ k, t.balance j = s.balance j)
    (hreturned : ∀ j ≠ k, t.returned j = s.returned j) (hlocks : t.locksOk = s.locksOk)
    (hptr : ∀ o' ∈ o, o'.userptr = object.userptr)
    (hcount : object.userptr = true → ∀ o' ∈ o, (o'.registration_count : ℤ) = t.balance k)
    (hgone : object.userptr = true → (o = none ↔ t.returned k = true))
    (harrays : ArraysKept t) : Inv t := by
  have hlt := h.lt_next hk
  refine ⟨⟨?_, ?_, harrays.arrays, hlocks.trans h.locks⟩, ?_, ?_, harrays.owned, harrays.unfreed⟩
  · intro j o' hj hju
    rw [ht] at hj
    by_cases hjk : j = k
    · subst hjk
      rw [Function.update_self] at hj
      exact hcount ((hptr o' hj).symm.trans hju) o' hj
    · rw [Function.update_of_ne hjk] at hj
      rw [hbalance j hjk]
      exact h.count j o' hj hju
  · intro j hju
    rw [huserptrs] at hju
    rw [ht]
    by_cases hjk : j = k
    · subst hjk
      rw [Function.update_self]
      exact hgone ((h.known j object hk).1 hju)
    · rw [Function.update_of_ne hjk, hreturned j hjk]
      exact h.gone j hju
  · intro j hj
    rw [hnext] at hj
    have hjk : j ≠ k := by
      rintro rfl
      exact absurd hlt (Nat.not_lt.2 hj)
    rw [ht, Function.update_of_ne hjk, hbalance j hjk, hreturned j hjk]
    exact h.fresh j hj
  · intro j o' hj
    rw [ht] at hj
    rw [huserptrs]
    by_cases hjk : j = k
    · subst hjk
      rw [Function.update_self] at hj
      rw [hptr o' hj]
      exact h.known j object hk
    · rw [Function.update_of_ne hjk] at hj
      exact h.known j o' hj

/-- What a deregistration does to the books of the others. -/
theorem deregistered_of_ne {j : ℕ} (hj : j ≠ k) :
    (s.deregistered k).balance j = s.balance j ∧
      (s.deregistered k).returned j = s.returned j :=
  ⟨Function.update_of_ne hj .., Function.update_of_ne hj ..⟩

/-- What it does to those of the object. -/
theorem deregistered_self :
    (s.deregistered k).balance k = s.balance k - 1 ∧
      ((s.deregistered k).returned k = true ↔ s.returned k = true ∨ s.balance k = 1) := by
  unfold deregistered
  dsimp only
  rw [Function.update_self, Function.update_self, Bool.or_eq_true, decide_eq_true_eq]
  exact ⟨rfl, Iff.rfl⟩

/-- The books of what is no user memory do not matter. -/
theorem Inv.deregistered_other (h : Inv s) (hk : s.objects k = some object)
    (huser : object.userptr = false) : Inv (s.deregistered k) := by
  have hself : s.objects = Function.update s.objects k (some object) := by
    rw [← hk, Function.update_eq_self]
  refine h.update hk hself rfl rfl (fun j hj => (deregistered_of_ne hj).1)
    (fun j hj => (deregistered_of_ne hj).2) rfl ?_ ?_ ?_
    (h.arraysKept hk hself rfl rfl rfl)
  · intro o ho
    obtain rfl := Option.mem_some_iff.1 ho
    rfl
  · rw [huser]
    exact nofun
  · rw [huser]
    exact nofun

/-- **User memory that is registered more often.** -/
theorem Inv.counted (h : Inv s) (hk : s.objects k = some object)
    (hcount : 1 < object.registration_count) :
    Inv ((s.setObject k
      { object with registration_count := object.registration_count - 1 }).deregistered k) := by
  refine h.update hk (o := some _) rfl rfl rfl (fun j hj => (deregistered_of_ne hj).1)
    (fun j hj => (deregistered_of_ne hj).2) rfl ?_ ?_ ?_
    (h.arraysKept hk (o := some _) rfl rfl rfl rfl)
  · intro o ho
    obtain rfl := Option.mem_some_iff.1 ho
    rfl
  · intro huser o ho
    obtain rfl := Option.mem_some_iff.1 ho
    have hbalance := h.count k object hk huser
    rw [deregistered_self.1]
    dsimp only [setObject]
    omega
  · intro huser
    have hbalance := h.count k object hk huser
    have hreturned : ¬s.returned k = true := by
      rw [← h.gone k ((h.known k object hk).2 huser), hk]
      exact Option.some_ne_none _
    have hne : ¬s.balance k = 1 := by omega
    rw [deregistered_self.2]
    exact iff_of_false (Option.some_ne_none _) fun hor => hor.elim hreturned hne

/-- **An object that is released.** -/
theorem Inv.released (h : Inv s) (hk : s.objects k = some object)
    (hcount : object.userptr = true → object.registration_count = 1)
    (harray : object.registered_device_id_array = none) :
    Inv (({ s with objects := Function.update s.objects k none } : State).deregistered k) := by
  refine h.update hk (o := none) rfl rfl rfl (fun j hj => (deregistered_of_ne hj).1)
    (fun j hj => (deregistered_of_ne hj).2) rfl nofun (fun _ => nofun) ?_
    (h.arraysKept hk (o := none) rfl harray.symm rfl rfl)
  intro huser
  have hbalance := h.count k object hk huser
  rw [hcount huser] at hbalance
  rw [deregistered_self.2]
  exact iff_of_true rfl (.inr hbalance.symm)

/-- **Device memory whose array is freed.** -/
theorem Inv.unregistered {object' : MemObj} {a : NodeArray} (h : Inv s)
    (hk : s.objects k = some object) (huser : object.userptr = false)
    (ha : object.registered_device_id_array = some a)
    (huser' : object'.userptr = false) (harray : object'.registered_device_id_array = none) :
    Inv ((s.freeArray (some a)).setObject k object') := by
  have hown : s.Owns k a.id := ⟨object, a, hk, ha, rfl⟩
  have hlt : a.id < s.handed := h.owned k a.id hown
  have hmine : ∀ j n, ((s.freeArray (some a)).setObject k object').Owns j n ↔
      j ≠ k ∧ s.Owns j n := by
    intro j n
    rw [owns_of_update (s := s.freeArray (some a)) (k := k) rfl]
    by_cases hj : j = k
    · rw [if_pos hj]
      refine iff_of_false ?_ fun hand => hand.1 hj
      rintro ⟨o, ho, b, hb, -⟩
      obtain rfl := Option.mem_some_iff.1 ho
      rw [harray] at hb
      exact nomatch hb
    · rw [if_neg hj]
      exact (and_iff_right hj).symm
  -- No other object owned this array, and this object owned no other.
  have hunique : ∀ j, s.Owns j a.id → j = k ∧ s.freed a.id = 0 := by
    intro j hj
    rcases h.arrays a.id hlt with ⟨hfreed, j', -, hj'⟩ | ⟨-, hno⟩
    · exact ⟨(hj' j hj).trans (hj' k hown).symm, hfreed⟩
    · exact absurd hj (hno j)
  have honly : ∀ n, s.Owns k n → n = a.id := by
    rintro n ⟨o, b, ho, hb, rfl⟩
    obtain rfl := Option.some.inj (hk.symm.trans ho)
    obtain rfl := Option.some.inj (ha.symm.trans hb)
    rfl
  refine h.update hk (o := some object') rfl rfl rfl (fun _ _ => rfl) (fun _ _ => rfl) rfl ?_
    ?_ ?_ ⟨?_, ?_, ?_⟩
  · intro o ho
    obtain rfl := Option.mem_some_iff.1 ho
    exact huser'.trans huser.symm
  · rw [huser]
    exact nofun
  · rw [huser]
    exact nofun
  · intro n hn
    dsimp only [setObject, freeArray] at hn ⊢
    by_cases hna : n = a.id
    · subst hna
      refine .inr ⟨?_, fun j hj => ?_⟩
      · rw [Function.update_self, (hunique k hown).2]
      · have hj' := (hmine j a.id).1 hj
        exact hj'.1 (hunique j hj'.2).1
    · rw [Function.update_of_ne hna]
      have hsame : ∀ j, ((s.freeArray (some a)).setObject k object').Owns j n ↔ s.Owns j n := by
        intro j
        rw [hmine]
        refine and_iff_right_of_imp ?_
        rintro hj rfl
        exact hna (honly n hj)
      have hkept := h.arrays n hn
      simp only [← hsame] at hkept
      exact hkept
  · intro j n hj
    exact h.owned j n ((hmine j n).1 hj).2
  · intro n hn
    dsimp only [setObject, freeArray] at hn ⊢
    rw [Function.update_of_ne (by omega)]
    exact h.unfreed n hn

/-- What the caller of `mm_deregister_memory` does with its result. -/
theorem deregister_eq {found : Lookup} {released : Bool} {status : DeviceStatus} {j : Option ℕ}
    {t : State} {path : List LockEvent}
    (hr : s.mmDeregisterMemory sys found released = (status, j, t, path)) :
    s.deregister sys found released =
      if status = .success then j.elim (t.book path) (t.book path).deregistered
      else t.book path := by
  unfold deregister
  dsimp only
  rw [hr]
  cases j <;> rfl

/-- **A deregistration.** -/
theorem Inv.deregister {found : Lookup} {released : Bool} (h : Inv s)
    (hok : StepOk sys s (.deregister found released)) :
    Inv (s.deregister sys found released) := by
  have hlocks := balanced_scopedAcquire found.apertures
  cases hlook : found.object.bind fun k => (s.objects k).map fun object => (k, object) with
  | none =>
    have hr : s.mmDeregisterMemory sys found released =
        (if sys.is_dgpu then .memoryNotRegistered else .success, none, s,
          scopedAcquire found.apertures) := by
      unfold mmDeregisterMemory
      rw [hlook]
    rw [deregister_eq hr]
    have hbook := h.book hlocks
    split_ifs <;> exact hbook
  | some p =>
    obtain ⟨k, object⟩ := p
    obtain ⟨k', hfound, hmap⟩ := Option.bind_eq_some_iff.1 hlook
    obtain ⟨object', hk, hpair⟩ := Option.map_eq_some_iff.1 hmap
    obtain ⟨rfl, rfl⟩ := Prod.mk.inj hpair
    have hrelease : ReleaseOk sys object' released := hok k' hfound object' hk
    unfold ReleaseOk at hrelease
    by_cases hcpuvm : object'.aperture = sys.cpuvm_aperture
    · have hr : s.mmDeregisterMemory sys found released =
          (.success, none, s, scopedAcquire found.apertures) := by
        unfold mmDeregisterMemory
        rw [hlook]
        exact if_pos hcpuvm
      rw [deregister_eq hr]
      exact h.book hlocks
    by_cases hcount : 1 < object'.registration_count
    · have hr : s.mmDeregisterMemory sys found released =
          (.success, some k', s.setObject k'
            { object' with registration_count := object'.registration_count - 1 },
            scopedAcquire found.apertures) := by
        unfold mmDeregisterMemory
        rw [hlook]
        dsimp only
        rw [if_neg hcpuvm, if_pos hcount]
      rw [deregister_eq hr]
      exact (h.counted hk hcount).book hlocks
    rw [if_neg (fun hor => hor.elim hcpuvm hcount)] at hrelease
    obtain ⟨huser, harray⟩ := hrelease
    by_cases hkind : object'.metadata ∨ object'.userptr ∨ object'.is_imported_kfd_bo
    · have hr : s.mmDeregisterMemory sys found released =
          (.success, some k', (s.release k' object' released).1,
            scopedAcquire found.apertures ++ scopedAcquire [object'.aperture]) := by
        unfold mmDeregisterMemory
        rw [hlook]
        dsimp only
        rw [if_neg hcpuvm, if_neg hcount, if_pos hkind]
        rfl
      have hpath := hlocks.append (balanced_scopedAcquire [object'.aperture])
      rw [deregister_eq hr]
      cases released with
      | true => exact (h.released hk (fun hu => (huser hu).1) (harray hkind rfl)).book hpath
      | false =>
        -- What the driver keeps is no user memory.
        have hother : object'.userptr = false := by
          cases hu : object'.userptr with
          | false => rfl
          | true => exact absurd (huser hu).2 Bool.false_ne_true
        exact (h.deregistered_other hk hother).book hpath
    · have hother : object'.userptr = false := by
        cases hu : object'.userptr with
        | false => rfl
        | true => exact absurd (.inr (.inl hu)) hkind
      by_cases hregistered : object'.registered_device_id_array = none ∨
          object'.registered_device_id_array_size = 0
      · have hr : s.mmDeregisterMemory sys found released =
            (.memoryNotRegistered, none, s, scopedAcquire found.apertures) := by
          unfold mmDeregisterMemory
          rw [hlook]
          dsimp only
          rw [if_neg hcpuvm, if_neg hcount, if_neg hkind, if_pos hregistered]
        rw [deregister_eq hr]
        exact h.book hlocks
      · have hr : s.mmDeregisterMemory sys found released =
            (.success, some k', (s.freeArray object'.registered_device_id_array).setObject k'
              { object' with
                registered_device_id_array := none
                registered_device_id_array_size := 0
                registered_node_id_array := false
                registration_count := 0 }, scopedAcquire found.apertures) := by
          unfold mmDeregisterMemory
          rw [hlook]
          dsimp only
          rw [if_neg hcpuvm, if_neg hcount, if_neg hkind, if_neg hregistered]
        obtain ⟨a, ha⟩ := Option.ne_none_iff_exists'.1 (not_or.1 hregistered).1
        have hfreed : Inv ((s.freeArray (some a)).setObject k'
            { object' with
              registered_device_id_array := none
              registered_device_id_array_size := 0
              registered_node_id_array := false
              registration_count := 0 }) := h.unregistered hk hother ha hother rfl
        rw [deregister_eq hr, ha]
        exact (hfreed.deregistered_other (Function.update_self ..) hother).book hlocks

/-! ### Every run -/

/-- The start. -/
theorem Start.inv (h : Start s) : Inv s := by
  obtain ⟨hhanded, hfreed, hbalance, hreturned, hlocks⟩ := h.books
  have howns : ∀ k n, ¬s.Owns k n := by
    rintro k n ⟨object, a, hk, ha, -⟩
    rw [(h.objects k object hk).2] at ha
    exact nomatch ha
  refine ⟨⟨?_, ?_, ?_, hlocks⟩, ?_, ?_, ?_, fun n _ => hfreed n⟩
  · intro k object hk huser
    rw [(h.objects k object hk).1, hbalance]
    rfl
  · intro k huser
    rw [h.userptrs] at huser
    rw [hreturned]
    refine iff_of_false (fun hk => ?_) Bool.false_ne_true
    rw [hk] at huser
    exact nomatch huser
  · intro n hn
    rw [hhanded] at hn
    exact absurd hn (Nat.not_lt_zero n)
  · exact fun k hk => ⟨h.fresh k hk, hbalance k, hreturned k⟩
  · intro k object hk
    rw [h.userptrs, hk]
    rfl
  · exact fun k n hk => absurd hk (howns k n)

/-- **The books stay right over a call.** -/
theorem Inv.step {c : Call} {t : State} (h : Inv s)
    (hstep : Guarded (StepOk sys) (Step sys) s c t) :
    Inv t := by
  obtain ⟨hok, rfl⟩ := hstep
  cases c with
  | register found bytes size user => exact h.register hok
  | deregister found released => exact h.deregister hok

/-- **The books are right in every state of a run** whose calls meet the condition. -/
theorem kept_of_run {s t : State} {calls : List Call} (hs : Start s)
    (hrun : Run (Guarded (StepOk sys) (Step sys)) s calls t) : Kept t :=
  (hrun.inv (fun _ _ _ h hstep => Inv.step h hstep) hs.inv).toKept

/-- A device of its own, whose memory is behind aperture 1; aperture 2 is `cpuvm_aperture`. -/
def dgpu : System := { is_dgpu := true, dgpu_aperture := 1, cpuvm_aperture := 2 }

/-- A process without objects. -/
def noObjects : State := { objects := fun _ => none, next := 0, userptrs := fun _ => false }

theorem noObjects_start : Start noObjects where
  fresh _ _ := rfl
  objects _ _ hk := nomatch hk
  userptrs _ := rfl
  books := ⟨rfl, fun _ => rfl, fun _ => rfl, fun _ => rfl, rfl⟩

/-- User memory is registered, a registration to a node fails, and the memory is deregistered. -/
theorem kept_of_run_released :
    ∃ t, Kept t ∧ t.userptrs 0 = true ∧ t.objects 0 = none ∧ t.returned 0 = true ∧
      t.handed = 1 ∧ t.freed 0 = 1 := by
  have hrun : ∃ t, Run (Guarded (StepOk dgpu) (Step dgpu)) noObjects
      [.register {} none 0 ⟨true, 1⟩, .register {} (some [7]) 4 ⟨false, 1⟩,
        .deregister ⟨some 0, [1]⟩ true] t ∧ t.userptrs 0 = true ∧ t.objects 0 = none ∧
      t.returned 0 = true ∧ t.handed = 1 ∧ t.freed 0 = 1 := by
    refine ⟨_, .cons ⟨?_, rfl⟩ (.cons ⟨?_, rfl⟩ (.cons ⟨?_, rfl⟩ (.nil _))),
      by decide +kernel, by decide +kernel, by decide +kernel, by decide +kernel,
      by decide +kernel⟩
    · exact .inr ⟨nofun, .inl rfl⟩
    · exact .inr ⟨nofun, .inr ⟨rfl, .inl (by decide)⟩⟩
    · rintro k hk object hobject
      obtain rfl := Option.mem_some_iff.1 hk
      obtain rfl := Option.mem_some_iff.1 hobject
      exact ⟨fun _ => ⟨rfl, rfl⟩, fun _ _ => rfl⟩
  obtain ⟨t, hrun, hptr, hgone, hreturned, hhanded, hfreed⟩ := hrun
  exact ⟨t, kept_of_run noObjects_start hrun, hptr, hgone, hreturned, hhanded, hfreed⟩

/-- Memory is registered to a node again: a lock is released that was not acquired, the failure is
counted, and the array is freed twice. -/
theorem registering_again_breaks :
    ∃ t, Run (Step dgpu) noObjects
        [.register {} (some [7]) 4 ⟨true, 1⟩, .register ⟨some 0, [1]⟩ (some [7]) 4 ⟨true, 1⟩] t ∧
      t.locksOk = false ∧ t.freed 1 = 2 ∧
      ((t.objects 0).map MemObj.registration_count = some 2 ∧ t.balance 0 = 1) ∧ ¬Kept t := by
  refine ⟨_, .cons rfl (.cons rfl (.nil _)), by decide +kernel, by decide +kernel,
    ⟨by decide +kernel, by decide +kernel⟩, fun h => ?_⟩
  exact absurd h.locks (by decide +kernel)

end State

end Codrive.Registration
