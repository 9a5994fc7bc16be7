/-
# Runs of the pool of memory objects

Any sequence of insertions and removals.  The pool is the finite map that it is for as long as the
ranges in it have a byte between them: a range that touches another is not inserted, an address one
past the end of an object finds the object, and `end()` is `begin()`, so that a loop over the pool
visits nothing.
-/

import Codrive.Basis.Run
import Codrive.Device.MemObjPool

namespace Codrive.Device

open Codrive.Basis Codrive.Basis.ComparatorMap

/-- The half-open range of an object has the address. -/
def MemObj.Has (obj : MemObj) (addr : ℕ) : Prop :=
  obj.start ≤ addr ∧ addr < obj.start + obj.size

/-- There is a byte between the ranges of the objects. -/
def MemObj.Clear (a b : MemObj) : Prop :=
  AddrRangeCmp a.range b.range ∨ AddrRangeCmp b.range a.range

/-- The pool, and the objects that are to be in it. -/
structure PoolState where
  pool : MemObjPool := {}
  contents : List MemObj := []

namespace PoolState

/-- A call on the pool. -/
inductive Op where
  | insert (obj : MemObj)
  | erase (obj : MemObj)

/-- What a call does, and what it is for. -/
def apply (s : PoolState) : Op → PoolState
  | .insert obj => ⟨s.pool.insert obj, obj :: s.contents⟩
  | .erase obj => ⟨s.pool.erase obj, s.contents.erase obj⟩

/-- A call. -/
def Step (s : PoolState) (op : Op) (t : PoolState) : Prop := t = s.apply op

/-- **When a call does what it is for.**  An object is inserted with a byte between it and every
other object; an object that is erased is in the pool, or has a byte between it and every object
there. -/
def StepOk (s : PoolState) : Op → Prop
  | .insert obj => ∀ c ∈ s.contents, c.Clear obj
  | .erase obj => obj ∈ s.contents ∨ ∀ c ∈ s.contents, c.Clear obj

/-- The objects of the map. -/
def values (pool : MemObjPool) : List MemObj := pool.address_set.map (·.2)

/-- The map has the objects, under their ranges, in order. -/
structure Inv (s : PoolState) : Prop where
  sorted : Sorted AddrRangeCmp s.pool.address_set
  perm : (values s.pool).Perm s.contents
  key : ∀ e ∈ s.pool.address_set, e.1 = e.2.range

variable {s : PoolState} {obj : MemObj} {addr : ℕ} {A M B : List (AddrRange × MemObj)}

/-- An object is in the map under its range. -/
theorem Inv.mem_iff (h : s.Inv) : obj ∈ s.contents ↔ (obj.range, obj) ∈ s.pool.address_set := by
  rw [← h.perm.mem_iff]
  constructor
  · intro hm
    obtain ⟨e, he, rfl⟩ := List.mem_map.1 hm
    rw [← h.key e he]
    exact he
  · intro hm
    exact List.mem_map.2 ⟨_, hm, rfl⟩

/-- **Two objects have a byte between them.** -/
theorem Inv.clear (h : s.Inv) {a b : MemObj} (ha : a ∈ s.contents) (hb : b ∈ s.contents)
    (hne : a ≠ b) : a.Clear b := by
  let R : AddrRange × MemObj → AddrRange × MemObj → Prop := fun x y =>
    AddrRangeCmp x.1 y.1 ∨ AddrRangeCmp y.1 x.1
  have hsymm : Std.Symm R := ⟨fun _ _ => Or.symm⟩
  have hor : s.pool.address_set.Pairwise R := h.sorted.imp .inl
  exact hor.forall (h.mem_iff.1 ha) (h.mem_iff.1 hb) fun heq => hne (Prod.mk.inj heq).2

/-- What the range cannot be told from. -/
theorem Inv.mem_same (h : s.Inv) {k : AddrRange}
    (hp : Parts AddrRangeCmp k s.pool.address_set A M B)
    {e : AddrRange × MemObj} : e ∈ M ↔ e.1 = e.2.range ∧ e.2 ∈ s.contents ∧
      ¬AddrRangeCmp e.2.range k ∧ ¬AddrRangeCmp k e.2.range := by
  constructor
  · intro he
    have hmem : e ∈ s.pool.address_set := by rw [hp.eq]; simp [he]
    have hkey := h.key e hmem
    refine ⟨hkey, h.mem_iff.2 ?_, hkey ▸ hp.same e he⟩
    rw [← hkey]
    exact hmem
  · rintro ⟨hkey, hc, hno⟩
    have hmem : e ∈ s.pool.address_set := by
      have := h.mem_iff.1 hc
      rwa [← hkey] at this
    rw [hp.eq, List.mem_append, List.mem_append] at hmem
    rw [← hkey] at hno
    rcases hmem with he | he | he
    · exact absurd (hp.before e he) hno.1
    · exact he
    · exact absurd (hp.after e he) hno.2

/-- A range can be told from all objects when there is a byte between it and each of them. -/
theorem Inv.same_eq_nil_iff (h : s.Inv)
    (hp : Parts AddrRangeCmp obj.range s.pool.address_set A M B) :
    M = [] ↔ ∀ c ∈ s.contents, c.Clear obj := by
  rw [hp.same_eq_nil_iff]
  constructor
  · intro hall c hc
    exact hall _ (h.mem_iff.1 hc)
  · intro hall e he
    have hkey := h.key e he
    rw [hkey]
    exact hall e.2 (h.mem_iff.2 (hkey ▸ he))

/-- **`insert`** adds an object exactly when there is a byte between it and every other. -/
theorem Inv.insert_iff (h : s.Inv) (obj : MemObj) :
    (values (s.pool.insert obj)).Perm (obj :: s.contents) ↔ ∀ c ∈ s.contents, c.Clear obj := by
  obtain ⟨A, M, B, hp⟩ := exists_parts obj.range h.sorted
  rw [← h.same_eq_nil_iff hp, values, MemObjPool.insert]
  constructor
  · intro hperm
    by_contra hne
    -- nothing was inserted
    rw [hp.insert_eq_self hne] at hperm
    have hlen := (h.perm.symm.trans hperm).length_eq
    rw [List.length_cons] at hlen
    omega
  · rintro rfl
    rw [hp.insert_eq, List.map_append, List.map_cons]
    have hperm := h.perm
    rw [values, hp.eq, List.nil_append, List.map_append] at hperm
    exact List.perm_middle.trans (hperm.cons obj)

/-- **`erase`** removes the object and no other exactly when it is in the pool, or there is a byte
between it and every object there. -/
theorem Inv.erase_iff (h : s.Inv) (obj : MemObj) :
    (values (s.pool.erase obj)).Perm (s.contents.erase obj) ↔
      obj ∈ s.contents ∨ ∀ c ∈ s.contents, c.Clear obj := by
  obtain ⟨A, M, B, hp⟩ := exists_parts obj.range h.sorted
  have hperm := h.perm
  rw [values, hp.eq, List.map_append, List.map_append] at hperm
  rw [values, MemObjPool.erase, hp.erase_eq, List.map_append, List.map_append,
    ← h.same_eq_nil_iff hp]
  by_cases hobj : obj ∈ s.contents
  · refine iff_of_true ?_ (.inl hobj)
    -- the object is the one that its range cannot be told from
    have hself : (obj.range, obj) ∈ M :=
      (h.mem_same hp).2 ⟨rfl, hobj, by simp [AddrRangeCmp], by simp [AddrRangeCmp]⟩
    cases M with
    | nil => cases hself
    | cons m M =>
      obtain ⟨-, hm, hno⟩ := (h.mem_same hp).1 (List.mem_cons_self (a := m))
      have hmo : m.2 = obj := by
        by_contra hne
        exact (h.clear hm hobj hne).elim hno.1 hno.2
      rw [List.map_cons, List.cons_append, hmo] at hperm
      have hcons := (List.perm_middle.symm.trans hperm).erase obj
      rwa [List.erase_cons_head] at hcons
  · rw [List.erase_of_not_mem hobj, or_iff_right hobj]
    constructor
    · intro hperm'
      by_contra hne
      -- some other object was removed
      obtain ⟨m, M, rfl⟩ := List.exists_cons_of_ne_nil hne
      have hlen := (hperm.trans hperm'.symm).length_eq
      simp only [List.length_append, List.length_map, List.length_cons, List.tail_cons] at hlen
      omega
    · rintro rfl
      exact hperm

/-- What `find` is for: the object that has the address, and nothing where no object has it. -/
def Found (s : PoolState) (addr : ℕ) (r : Option MemObj) : Prop :=
  (∀ o ∈ s.contents, o.Has addr → r = some o) ∧ ((∀ o ∈ s.contents, ¬o.Has addr) → r = none)

/-- **`find`** does what it is for exactly when no object ends at the address. -/
theorem Inv.find_iff (h : s.Inv) (addr : ℕ) : s.Found addr (s.pool.find addr false) ↔
    ∀ o ∈ s.contents, addr ≠ o.start + o.size := by
  obtain ⟨A, M, B, hp⟩ := exists_parts (⟨addr, 0⟩ : AddrRange) h.sorted
  have hmem : ∀ {o : MemObj}, (o.range, o) ∈ M ↔
      o ∈ s.contents ∧ o.start ≤ addr ∧ addr ≤ o.start + o.size := by
    intro o
    rw [h.mem_same hp]
    simp only [AddrRangeCmp, MemObj.range, true_and, Nat.add_zero, Nat.not_lt]
    exact and_congr_right fun _ => and_comm
  have hfind : s.pool.find addr false = M.head?.map (·.2) := by
    rw [MemObjPool.find, MemObjPool.findRange, if_neg Bool.false_ne_true, hp.find?_eq]
  have hclear : ∀ {a b : MemObj}, a ∈ s.contents → b ∈ s.contents → a ≠ b →
      a.start + a.size < b.start ∨ b.start + b.size < a.start := fun ha hb => h.clear ha hb
  have hhead : ∀ m ∈ M.head?, (m.2.range, m.2) ∈ M := by
    intro m hm
    have hmM := List.mem_of_mem_head? hm
    rw [← ((h.mem_same hp).1 hmM).1]
    exact hmM
  rw [hfind]
  constructor
  · rintro ⟨hhas, hnone⟩ o ho hend
    have hoM : (o.range, o) ∈ M := hmem.2 ⟨ho, by omega, by omega⟩
    by_cases hex : ∃ o' ∈ s.contents, o'.Has addr
    · obtain ⟨o', ho', hlo, hhi⟩ := hex
      have hne : o ≠ o' := by
        rintro rfl
        omega
      have := hclear ho ho' hne
      omega
    · -- no object has the address, and one is found
      push Not at hex
      have := hnone hex
      rw [Option.map_eq_none_iff, List.head?_eq_none_iff] at this
      rw [this] at hoM
      cases hoM
  · intro hend
    constructor
    · intro o ho hhas
      have hoM : (o.range, o) ∈ M := hmem.2 ⟨ho, hhas.1, Nat.le_of_lt hhas.2⟩
      cases hM : M.head? with
      | none =>
        rw [List.head?_eq_none_iff] at hM
        rw [hM] at hoM
        cases hoM
      | some m =>
        obtain ⟨hm, hlo, hhi⟩ := hmem.1 (hhead m hM)
        rw [Option.map_some, Option.some.injEq]
        by_contra hne
        have h₁ := hclear hm ho hne
        have h₂ := hhas.1
        have h₃ := hhas.2
        omega
    · intro hno
      cases hM : M.head? with
      | none => rfl
      | some m =>
        obtain ⟨hm, hlo, hhi⟩ := hmem.1 (hhead m hM)
        exact absurd ⟨hlo, Nat.lt_of_le_of_ne hhi (hend _ hm)⟩ (hno _ hm)

/-- A loop over the pool visits nothing. -/
theorem visit_eq_nil (pool : MemObjPool) : pool.visit = [] := rfl

/-- **A call that meets `StepOk` keeps the map what it is for.** -/
theorem Inv.apply {op : Op} (h : s.Inv) (hok : s.StepOk op) : (s.apply op).Inv := by
  cases op with
  | insert obj =>
    refine ⟨sorted_insert h.sorted .., (h.insert_iff obj).2 hok, ?_⟩
    obtain ⟨A, M, B, hp⟩ := exists_parts obj.range h.sorted
    obtain rfl := (h.same_eq_nil_iff hp).2 hok
    intro e he
    rw [PoolState.apply, MemObjPool.insert, hp.insert_eq] at he
    rcases List.mem_append.1 he with he | he
    · exact h.key e (by rw [hp.eq]; simp [he])
    · rcases List.mem_cons.1 he with rfl | he
      · rfl
      · exact h.key e (by rw [hp.eq]; simp [he])
  | erase obj =>
    refine ⟨sorted_erase h.sorted _, (h.erase_iff obj).2 hok, ?_⟩
    obtain ⟨A, M, B, hp⟩ := exists_parts obj.range h.sorted
    intro e he
    rw [PoolState.apply, MemObjPool.erase, hp.erase_eq] at he
    refine h.key e ?_
    rw [hp.eq]
    rcases List.mem_append.1 he with he | he
    · exact List.mem_append_left _ he
    · rcases List.mem_append.1 he with he | he
      · exact List.mem_append_right _ (List.mem_append_left _ (List.mem_of_mem_tail he))
      · exact List.mem_append_right _ (List.mem_append_right _ he)

/-- **The pool in every run whose calls meet `StepOk`.**  The map has the objects that are to be in
it; `find` finds what it is for exactly when no object ends at the address; an insertion adds the
object exactly when there is a byte between it and every other, and a removal removes it and no
other exactly when it is there or there is a byte between it and every other; and a loop over the
pool visits every object once exactly when there is none. -/
theorem pool_of_run {ops : List Op} {s : PoolState}
    (h : Run (Guarded StepOk Step) {} ops s) :
    (values s.pool).Perm s.contents ∧
      (∀ addr, s.Found addr (s.pool.find addr false) ↔
        ∀ o ∈ s.contents, addr ≠ o.start + o.size) ∧
      (∀ obj, (values (s.pool.insert obj)).Perm (obj :: s.contents) ↔
        ∀ c ∈ s.contents, c.Clear obj) ∧
      (∀ obj, (values (s.pool.erase obj)).Perm (s.contents.erase obj) ↔
        obj ∈ s.contents ∨ ∀ c ∈ s.contents, c.Clear obj) ∧
      (s.pool.visit.Perm (s.contents.map some) ↔ s.contents = []) := by
  have hinv : s.Inv := by
    refine h.inv (fun s op t hs ⟨hok, ht⟩ => ?_) ⟨List.Pairwise.nil, .refl _, by simp⟩
    rw [ht]
    exact hs.apply hok
  refine ⟨hinv.perm, hinv.find_iff, hinv.insert_iff, hinv.erase_iff, ?_⟩
  rw [visit_eq_nil, List.nil_perm, List.map_eq_nil_iff]

/-- Two objects with a page between them. -/
theorem pool_of_run_two : ∃ s : PoolState, s.contents.length = 2 ∧
    (values s.pool).Perm s.contents := by
  have hclear : MemObj.Clear ⟨0x1000, 0x1000, 1, 0, 0⟩ ⟨0x3000, 0x1000, 2, 0, 0⟩ :=
    .inl (by decide)
  have hrun : Run (Guarded StepOk Step) {}
      [.insert ⟨0x1000, 0x1000, 1, 0, 0⟩, .insert ⟨0x3000, 0x1000, 2, 0, 0⟩] _ :=
    .cons ⟨fun _ h => absurd h List.not_mem_nil, rfl⟩
      (.cons ⟨fun _ h => List.mem_singleton.1 h ▸ hclear, rfl⟩ (.nil _))
  exact ⟨_, rfl, (pool_of_run hrun).1⟩

/-- **Touching ranges, the end of a range and the loop**: two objects side by side are not both in
the map, the address of the second finds the first, and the loop visits neither. -/
theorem touching_range_not_inserted :
    ∃ s : PoolState, Run Step {}
      [.insert ⟨0x1000, 0x1000, 1, 0, 0⟩, .insert ⟨0x2000, 0x1000, 2, 0, 0⟩] s ∧
      s.contents.length = 2 ∧ (values s.pool).length = 1 ∧
      s.pool.find 0x2000 false = some ⟨0x1000, 0x1000, 1, 0, 0⟩ ∧ s.pool.visit = [] :=
  ⟨_, .cons rfl (.cons rfl (.nil _)), rfl, by decide, by decide, rfl⟩

end PoolState

end Codrive.Device
