/-
# Pools over whole runs

`Acquire` stores the object it returns under the id that the object has, if it is a free one, and
under the given name, if it is new.  Where no object is stored so under an id that is in use,
nothing is lost: every step moves at most one object, between the used set and the free list of its
type (`Inv.effect`).  So whatever was added or acquired stays in exactly one of the two, an acquired
object is what its id stands for until it is released, and is not handed out again before
(`contents_of_run`).

Without the condition the object that `Acquire` returns is in neither (`System.insert` changes
nothing), and through the overload for `std::string&` it does not return at all
(`acquireString_eq_none`).
-/

import Codrive.Basis.Run
import Codrive.Objects.PoolInv

namespace Codrive.Objects

open Codrive.Basis Codrive.Strings

variable {τ : Type} {hash : Str → ℕ} {typeName : τ → Str} {s t u : System τ hash}
  {O : Object τ hash} {id : ObjectID τ hash} {ti : τ} {name : Str} {o : ℕ} {r : Reply} {c : Call τ}
  {op : Op τ} {ops : List (Op τ)}

/-! ### Where objects are -/

/-- An object is in the used set. -/
def System.Used (s : System τ hash) (o : ℕ) : Prop := ∃ O ∈ s.used_objs_, O.ptr = o

/-- An object is in the free list of its type. -/
def System.Free (s : System τ hash) (o : ℕ) : Prop :=
  ∃ O : Object τ hash, O ∈ s.free_objs_ O.id_.type_idx_ ∧ O.ptr = o

/-- A call puts an object in the pool: it adds it, or returns it from `Acquire`. -/
inductive Pools : Call τ → Reply → ℕ → Prop
  | add (via : Overload) (ti : τ) (o : ℕ) (name : Str) : Pools (.add via ti o name) (.done true) o
  | acquire (via : Overload) (ti : τ) (name : Str) (args throws : Bool) (o : ℕ) :
      Pools (.acquire via ti name args throws) (.object o) o

/-- A step releases the object of an id. -/
def Releases (id : ObjectID τ hash) (op : Op τ) : Prop :=
  ∃ via ti name, op = .call (.release via ti name) (.done true) ∧ getObjectID hash ti name = id

/-- `Acquire` does not store an object under an id that is in use. -/
def Clear (s : System τ hash) : Op τ → Prop
  | .call (.acquire _ ti name _ _) (.object _) => ∀ P ∈ s.used_objs_, P.id_ ≠ s.storedID ti name
  | _ => True

theorem System.Inv.not_free (h : s.Inv) (ho : s.Used o) : ¬s.Free o := by
  obtain ⟨P, hP, rfl⟩ := ho
  rintro ⟨O, hO, heq⟩
  exact h.not_free_of_used hP _ O hO heq

theorem System.storedID_cons {rest : List (Object τ hash)} (h : s.free_objs_ ti = O :: rest) :
    s.storedID ti name = O.id_ := by
  rw [storedID, h]

theorem System.storedID_nil (h : s.free_objs_ ti = []) :
    s.storedID ti name = getObjectID hash ti name := by
  rw [storedID, h]

theorem System.Inv.storedID_type (h : s.Inv) : (s.storedID ti name).type_idx_ = ti := by
  cases hlist : s.free_objs_ ti with
  | nil =>
    rw [System.storedID_nil hlist]
    rfl
  | cons O rest =>
    rw [System.storedID_cons hlist]
    exact h.typed ti O (hlist ▸ List.mem_cons_self)

/-! ### What a step moves -/

variable [DecidableEq τ]

/-- What a step does to the used set and the free lists. -/
inductive Effect (s : System τ hash) : Op τ → System τ hash → Prop
  | idle {op : Op τ} {t : System τ hash} (hused : t.used_objs_ = s.used_objs_)
      (hfree : t.free_objs_ = s.free_objs_)
      (hop : ∀ c r o, op = .call c r → ¬Pools c r o) : Effect s op t
  | added {t : System τ hash} (via : Overload) (ti : τ) (o : ℕ) (name : Str)
      (hused : t.used_objs_ = newObject (getObjectID hash ti name) o :: s.used_objs_)
      (hfree : t.free_objs_ = s.free_objs_) :
      Effect s (.call (.add via ti o name) (.done true)) t
  | created {t : System τ hash} (via : Overload) (ti : τ) (name : Str) (args throws : Bool)
      (hid : s.storedID ti name = getObjectID hash ti name)
      (hused : t.used_objs_ = newObject (getObjectID hash ti name) s.next :: s.used_objs_)
      (hfree : t.free_objs_ = s.free_objs_) :
      Effect s (.call (.acquire via ti name args throws) (.object s.next)) t
  | recycled {t : System τ hash} (via : Overload) (ti : τ) (name : Str) (args throws : Bool)
      (O : Object τ hash) (rest : List (Object τ hash)) (hlist : s.free_objs_ ti = O :: rest)
      (hused : t.used_objs_ = O :: s.used_objs_)
      (hfree : t.free_objs_ = Function.update s.free_objs_ ti rest) :
      Effect s (.call (.acquire via ti name args throws) (.object O.ptr)) t
  | released {t : System τ hash} (via : Overload) (ti : τ) (name : Str) (O : Object τ hash)
      (hO : O ∈ s.used_objs_) (hid : O.id_ = getObjectID hash ti name)
      (hused : t.used_objs_ = s.used_objs_.eraseP fun P => P.id_.compare O.id_)
      (hfree : t.free_objs_ = Function.update s.free_objs_ ti (s.free_objs_ ti ++ [O])) :
      Effect s (.call (.release via ti name) (.done true)) t

theorem System.Inv.effect_acquire (h : s.Inv) (via : Overload) {args throws : Bool}
    (hcall : s.acquire ti name args throws = (r, t))
    (hclear : Clear s (.call (.acquire via ti name args throws) r)) :
    Effect s (.call (.acquire via ti name args throws) r) t := by
  obtain ⟨e, he⟩ | ⟨O, rest, hlist, he⟩ | ⟨hlist, he⟩ := h.acquire_cases ti name args throws
  · obtain ⟨rfl, rfl⟩ := Prod.mk.inj (he.symm.trans hcall)
    refine .idle rfl rfl fun c r o heq hpools => ?_
    cases heq
    cases hpools
  · obtain ⟨rfl, rfl⟩ := Prod.mk.inj (he.symm.trans hcall)
    have habsent : ∀ P ∈ s.used_objs_, P.id_ ≠ O.id_ := fun P hP => by
      rw [← System.storedID_cons hlist]
      exact hclear P hP
    have hinsert := System.insert_of_absent (O := O)
      (s := { s with free_objs_ := Function.update s.free_objs_ ti rest }) habsent
    refine .recycled via ti name args throws O rest hlist ?_ ?_
    · rw [System.recycled, hinsert, System.hand]
    · rw [System.recycled, hinsert, System.hand]
  · obtain ⟨rfl, rfl⟩ := Prod.mk.inj (he.symm.trans hcall)
    have habsent : ∀ P ∈ s.used_objs_, P.id_ ≠ getObjectID hash ti name := fun P hP => by
      rw [← System.storedID_nil hlist]
      exact hclear P hP
    have hinsert := System.insert_of_absent (O := newObject (getObjectID hash ti name) s.next)
      (s := { s with use_count := plus s.use_count s.next, next := s.next + 1 }) habsent
    refine .created via ti name args throws (System.storedID_nil hlist) ?_ ?_
    · rw [System.created, hinsert, System.hand]
    · rw [System.created, hinsert, System.hand]

/-- **What a step moves**, if it is clear. -/
theorem System.Inv.effect (h : s.Inv) (hclear : Clear s op) (hstep : Step typeName s op t) :
    Effect s op t := by
  cases op with
  | call c r =>
    obtain ⟨hpossible, depth, hcall⟩ := hstep
    cases c with
    | add via ti o name =>
      have hcall := Option.some.inj hcall
      obtain ⟨e, he⟩ | ⟨-, he⟩ := System.add_cases typeName s ti o name
      · obtain ⟨rfl, rfl⟩ := Prod.mk.inj (he.symm.trans hcall)
        refine .idle rfl rfl fun c r o heq hpools => ?_
        cases heq
        cases hpools
      · obtain ⟨rfl, rfl⟩ := Prod.mk.inj (he.symm.trans hcall)
        exact .added via ti o name rfl rfl
    | acquire via ti name args throws =>
      cases via with
      | chars => exact h.effect_acquire .chars (Option.some.inj hcall) hclear
      | string =>
        rw [System.call, System.acquireString_eq_none] at hcall
        cases hcall
    | getShared via ti name =>
      have hcall := Option.some.inj hcall
      obtain ⟨O, -, -, -, he⟩ | ⟨-, e, -, he⟩ := System.getShared_cases typeName s ti name
      all_goals
        obtain ⟨rfl, rfl⟩ := Prod.mk.inj (he.symm.trans hcall)
        refine .idle rfl rfl fun c r o heq hpools => ?_
        cases heq
        cases hpools
    | release via ti name =>
      have hcall := Option.some.inj hcall
      obtain ⟨e, he⟩ | he | ⟨O, hO, hid, -, he⟩ := System.release_cases typeName s ti name
      · obtain ⟨rfl, rfl⟩ := Prod.mk.inj (he.symm.trans hcall)
        refine .idle rfl rfl fun c r o heq hpools => ?_
        cases heq
        cases hpools
      · obtain ⟨rfl, rfl⟩ := Prod.mk.inj (he.symm.trans hcall)
        refine .idle rfl rfl fun c r o heq hpools => ?_
        cases heq
        cases hpools
      · obtain ⟨rfl, rfl⟩ := Prod.mk.inj (he.symm.trans hcall)
        exact .released via ti name O hO hid rfl rfl
  | make =>
    obtain rfl : t = _ := hstep
    exact .idle rfl rfl fun c r o heq => by cases heq
  | copy o =>
    obtain ⟨-, rfl⟩ := hstep
    exact .idle rfl rfl fun c r o heq => by cases heq
  | drop o =>
    obtain ⟨-, rfl⟩ := hstep
    exact .idle rfl rfl fun c r o heq => by cases heq

/-! ### What stays -/

/-- **What is in the pool stays in it.** -/
theorem System.Inv.stays (h : s.Inv) (heffect : Effect s op t) (ho : s.Used o ∨ s.Free o) :
    t.Used o ∨ t.Free o := by
  unfold System.Used System.Free at ho ⊢
  cases heffect with
  | idle hused hfree _ =>
    rw [hused, hfree]
    exact ho
  | added via ti p name hused hfree =>
    rw [hused, hfree]
    rcases ho with ⟨O, hO, rfl⟩ | ho
    · exact .inl ⟨O, List.mem_cons_of_mem _ hO, rfl⟩
    · exact .inr ho
  | created via ti name args throws hid hused hfree =>
    rw [hused, hfree]
    rcases ho with ⟨O, hO, rfl⟩ | ho
    · exact .inl ⟨O, List.mem_cons_of_mem _ hO, rfl⟩
    · exact .inr ho
  | recycled via ti name args throws P rest hlist hused hfree =>
    rw [hused, hfree]
    rcases ho with ⟨O, hO, rfl⟩ | ⟨O, hO, rfl⟩
    · exact .inl ⟨O, List.mem_cons_of_mem _ hO, rfl⟩
    · by_cases hti : O.id_.type_idx_ = ti
      · rw [hti, hlist] at hO
        rcases List.mem_cons.1 hO with rfl | hO
        · exact .inl ⟨O, List.mem_cons_self, rfl⟩
        · exact .inr ⟨O, by rwa [hti, Function.update_self], rfl⟩
      · exact .inr ⟨O, by rwa [Function.update_of_ne hti], rfl⟩
  | released via ti name P hP hid hused hfree =>
    rw [hused, hfree]
    rcases ho with ⟨O, hO, rfl⟩ | ⟨O, hO, rfl⟩
    · by_cases hOP : O = P
      · have hti : P.id_.type_idx_ = ti := by rw [hid]; rfl
        refine .inr ⟨P, ?_, by rw [hOP]⟩
        rw [hti, Function.update_self]
        exact List.mem_append_right _ (List.mem_singleton_self P)
      · refine .inl ⟨O, (List.mem_eraseP_of_neg fun hequal => hOP ?_).2 hO, rfl⟩
        exact List.inj_on_of_nodup_map h.distinct hO hP (ObjectID.compare_iff.1 hequal)
    · refine .inr ⟨O, ?_, rfl⟩
      by_cases hti : O.id_.type_idx_ = ti
      · rw [hti] at hO ⊢
        rw [Function.update_self]
        exact List.mem_append_left _ hO
      · rwa [Function.update_of_ne hti]

/-- **A used object stays under its id** until it is released. -/
theorem Effect.keeps (heffect : Effect s op t) (hO : O ∈ s.used_objs_)
    (hop : ¬Releases O.id_ op) : O ∈ t.used_objs_ := by
  cases heffect with
  | idle hused _ _ =>
    rw [hused]
    exact hO
  | added via ti p name hused _ =>
    rw [hused]
    exact List.mem_cons_of_mem _ hO
  | created via ti name args throws _ hused _ =>
    rw [hused]
    exact List.mem_cons_of_mem _ hO
  | recycled via ti name args throws P rest _ hused _ =>
    rw [hused]
    exact List.mem_cons_of_mem _ hO
  | released via ti name P hP hid hused _ =>
    rw [hused]
    refine (List.mem_eraseP_of_neg fun hequal => hop ⟨via, ti, name, rfl, ?_⟩).2 hO
    rw [ObjectID.compare_iff.1 hequal, hid]

/-- What a call puts in the pool is used. -/
theorem Effect.used_of_pools (heffect : Effect s (.call c r) t) (hpools : Pools c r o) :
    t.Used o := by
  cases heffect with
  | idle _ _ hop => exact absurd hpools (hop c r o rfl)
  | added via ti p name hused _ =>
    cases hpools
    rw [System.Used, hused]
    exact ⟨_, List.mem_cons_self, rfl⟩
  | created via ti name args throws _ hused _ =>
    cases hpools
    rw [System.Used, hused]
    exact ⟨_, List.mem_cons_self, rfl⟩
  | recycled via ti name args throws P rest _ hused _ =>
    cases hpools
    rw [System.Used, hused]
    exact ⟨_, List.mem_cons_self, rfl⟩
  | released via ti name P _ _ _ _ => cases hpools

/-- **What `Acquire` returns** was not used before. -/
theorem System.Inv.not_used_of_acquire (h : s.Inv) {args throws : Bool}
    (hcall : s.acquire ti name args throws = (.object o, t)) : ¬s.Used o := by
  rintro ⟨P, hP, rfl⟩
  obtain ⟨e, he⟩ | ⟨O, rest, hlist, he⟩ | ⟨hlist, he⟩ := h.acquire_cases ti name args throws
  · cases he.symm.trans hcall
  · have heq := Reply.object.inj (Prod.mk.inj (he.symm.trans hcall)).1
    exact h.not_free_of_used hP ti O (hlist ▸ List.mem_cons_self) heq
  · have heq := Reply.object.inj (Prod.mk.inj (he.symm.trans hcall)).1
    have := h.used_lt P hP
    omega

/-- **What `Acquire` returns** is stored under its id. -/
theorem Effect.acquired {via : Overload} {args throws : Bool}
    (heffect : Effect s (.call (.acquire via ti name args throws) (.object o)) t) :
    ∃ O ∈ t.used_objs_, O.id_ = s.storedID ti name ∧ O.ptr = o := by
  cases heffect with
  | idle _ _ hop => exact absurd (.acquire via ti name args throws o) (hop _ _ o rfl)
  | created via ti name args throws hid hused _ =>
    exact ⟨_, hused ▸ List.mem_cons_self, hid.symm, rfl⟩
  | recycled via ti name args throws P rest hlist hused _ =>
    exact ⟨P, hused ▸ List.mem_cons_self, (System.storedID_cons hlist).symm, rfl⟩

/-- `GetShared` returns what is used under the id. -/
theorem System.Inv.getShared_iff (h : s.Inv) :
    (s.getShared typeName ti name).1 = .object o ↔
      ∃ O ∈ s.used_objs_, O.id_ = getObjectID hash ti name ∧ O.ptr = o := by
  constructor
  · intro hget
    obtain ⟨O, hO, hid, -, he⟩ | ⟨-, e, -, he⟩ := System.getShared_cases typeName s ti name
    · rw [he] at hget
      exact ⟨O, hO, hid, Reply.object.inj hget⟩
    · rw [he] at hget
      cases hget
  · rintro ⟨P, hP, hid, rfl⟩
    obtain ⟨O, hO, hid', -, he⟩ | ⟨habsent, -⟩ := System.getShared_cases typeName s ti name
    · rw [he, List.inj_on_of_nodup_map h.distinct hO hP (hid'.trans hid.symm)]
    · exact absurd hid (habsent P hP)

/-- **What is refused changes nothing** but the references that a failed `Add` keeps. -/
theorem System.Inv.refused (h : s.Inv) (hstep : Step typeName s (.call c r) t)
    (hr : r = .done false ∨ ∃ e, r = .thrown e) :
    t = { s with use_count := t.use_count } ∧
      ((∀ via ti o name, c ≠ .add via ti o name) → t = s) := by
  obtain ⟨-, depth, hcall⟩ := hstep
  cases c with
  | add via ti o name =>
    have hcall := Option.some.inj hcall
    refine ⟨?_, fun hadd => absurd rfl (hadd via ti o name)⟩
    obtain ⟨e, he⟩ | ⟨-, he⟩ := System.add_cases typeName s ti o name
    · obtain ⟨rfl, rfl⟩ := Prod.mk.inj (he.symm.trans hcall)
      rfl
    · obtain ⟨rfl, rfl⟩ := Prod.mk.inj (he.symm.trans hcall)
      simp at hr
  | acquire via ti name args throws =>
    cases via with
    | chars =>
      have hcall := Option.some.inj hcall
      obtain ⟨e, he⟩ | ⟨O, rest, -, he⟩ | ⟨-, he⟩ := h.acquire_cases ti name args throws
      · obtain ⟨rfl, rfl⟩ := Prod.mk.inj (he.symm.trans hcall)
        exact ⟨rfl, fun _ => rfl⟩
      · obtain ⟨rfl, rfl⟩ := Prod.mk.inj (he.symm.trans hcall)
        simp at hr
      · obtain ⟨rfl, rfl⟩ := Prod.mk.inj (he.symm.trans hcall)
        simp at hr
    | string =>
      rw [System.call, System.acquireString_eq_none] at hcall
      cases hcall
  | getShared via ti name =>
    have hcall := Option.some.inj hcall
    obtain ⟨O, -, -, -, he⟩ | ⟨-, e, -, he⟩ := System.getShared_cases typeName s ti name
    · obtain ⟨rfl, rfl⟩ := Prod.mk.inj (he.symm.trans hcall)
      simp at hr
    · obtain ⟨rfl, rfl⟩ := Prod.mk.inj (he.symm.trans hcall)
      exact ⟨rfl, fun _ => rfl⟩
  | release via ti name =>
    have hcall := Option.some.inj hcall
    obtain ⟨e, he⟩ | he | ⟨O, -, -, -, he⟩ := System.release_cases typeName s ti name
    · obtain ⟨rfl, rfl⟩ := Prod.mk.inj (he.symm.trans hcall)
      exact ⟨rfl, fun _ => rfl⟩
    · obtain ⟨rfl, rfl⟩ := Prod.mk.inj (he.symm.trans hcall)
      exact ⟨rfl, fun _ => rfl⟩
    · obtain ⟨rfl, rfl⟩ := Prod.mk.inj (he.symm.trans hcall)
      simp at hr

/-! ### Runs -/

/-- The steps in which nothing is lost. -/
abbrev ClearStep (typeName : τ → Str) : System τ hash → Op τ → System τ hash → Prop :=
  Guarded Clear (Step typeName)

/-- Those of them that do not release the object of an id. -/
abbrev HoldingStep (typeName : τ → Str) (id : ObjectID τ hash) :
    System τ hash → Op τ → System τ hash → Prop :=
  Guarded (fun s op => Clear s op ∧ ¬Releases id op) (Step typeName)

theorem inv_of_run (h : Run (ClearStep typeName) s ops t) (hs : s.Inv) : t.Inv :=
  h.inv (fun _ _ _ hs hstep => hs.step hstep.2) hs

/-- What is in the pool stays in exactly one of its two parts. -/
theorem xor_of_run (h : Run (ClearStep typeName) s ops t) (hs : s.Inv)
    (ho : s.Used o ∨ s.Free o) : Xor (t.Used o) (t.Free o) := by
  have hall := h.inv (I := fun s => s.Inv ∧ (s.Used o ∨ s.Free o))
    (fun s op t hs hstep => ⟨hs.1.step hstep.2, hs.1.stays (hs.1.effect hstep.1 hstep.2) hs.2⟩)
    ⟨hs, ho⟩
  rcases hall with ⟨ht, hused | hfree⟩
  · exact .inl ⟨hused, ht.not_free hused⟩
  · exact .inr ⟨hfree, fun hused => ht.not_free hused hfree⟩

/-- What is used under an id stays so until it is released. -/
theorem used_of_run (h : Run (HoldingStep typeName O.id_) s ops t) (hs : s.Inv)
    (hO : O ∈ s.used_objs_) : t.Inv ∧ O ∈ t.used_objs_ :=
  h.inv (I := fun s => s.Inv ∧ O ∈ s.used_objs_)
    (fun _ _ _ hs hstep => ⟨hs.1.step hstep.2,
      (hs.1.effect hstep.1.1 hstep.2).keeps hs.2 hstep.1.2⟩)
    ⟨hs, hO⟩

/-- What a pool is for, in a state. -/
structure Contract (typeName : τ → Str) (s : System τ hash) : Prop where
  /-- Every call returns, but for `Acquire` of a `std::string&`. -/
  returns : ∀ c depth, (∀ ti name args throws, c ≠ .acquire .string ti name args throws) →
    (s.call typeName depth c).isSome = true
  /-- A call that throws or returns false changes nothing but the references that `Add` keeps. -/
  refused : ∀ c r t, Step typeName s (.call c r) t → (r = .done false ∨ ∃ e, r = .thrown e) →
    t = { s with use_count := t.use_count } ∧
      ((∀ via ti o name, c ≠ .add via ti o name) → t = s)
  /-- What is added or acquired is, from then on, either used or in the free list of its type. -/
  kept : ∀ c r o t ops u, Clear s (.call c r) → Step typeName s (.call c r) t → Pools c r o →
    Run (ClearStep typeName) t ops u → Xor (u.Used o) (u.Free o)
  /-- What is acquired is what its name stands for until it is released, and not acquired again. -/
  acquired : ∀ via ti name args throws o t ops u,
    Clear s (.call (.acquire via ti name args throws) (.object o)) →
    Step typeName s (.call (.acquire via ti name args throws) (.object o)) t →
    Run (HoldingStep typeName (s.storedID ti name)) t ops u →
      (u.getShared typeName ti (s.storedID ti name).name_).1 = .object o ∧
        ∀ via tj name args throws v,
          ¬Step typeName u (.call (.acquire via tj name args throws) (.object o)) v
  /-- A name in use stands for one object until that is released. -/
  resolves : ∀ ti name o ops u, (s.getShared typeName ti name).1 = .object o →
    Run (HoldingStep typeName (getObjectID hash ti name)) s ops u →
      (u.getShared typeName ti name).1 = .object o

/-- **Pools over whole runs**: in every state that is reached without an object being lost, the pool
does what it is for. -/
theorem contents_of_run (hash : Str → ℕ) (typeName : τ → Str) {ops : List (Op τ)}
    {s : System τ hash} (h : Run (ClearStep typeName) {} ops s) : Contract typeName s := by
  have hs := inv_of_run h System.Inv.empty
  constructor
  · intro c depth hc
    cases c with
    | acquire via ti name args throws =>
      cases via with
      | chars => rfl
      | string => exact absurd rfl (hc ti name args throws)
    | _ => rfl
  · intro c r t hstep hr
    exact hs.refused hstep hr
  · intro c r o t ops u hclear hstep hpools hrun
    exact xor_of_run hrun (hs.step hstep) (.inl ((hs.effect hclear hstep).used_of_pools hpools))
  · intro via ti name args throws o t ops u hclear hstep hrun
    obtain ⟨O, hO, hid, rfl⟩ := (hs.effect hclear hstep).acquired
    rw [← hid] at hrun ⊢
    obtain ⟨hu, hused⟩ := used_of_run hrun (hs.step hstep) hO
    have hti : O.id_.type_idx_ = ti := by
      rw [hid]
      exact hs.storedID_type
    refine ⟨hu.getShared_iff.2 ⟨O, hused, (getObjectID_name hti).symm, rfl⟩, ?_⟩
    rintro via' tj name' args' throws' v ⟨-, depth, hcall⟩
    cases via' with
    | chars => exact hu.not_used_of_acquire (Option.some.inj hcall) ⟨O, hused, rfl⟩
    | string =>
      rw [System.call, System.acquireString_eq_none] at hcall
      cases hcall
  · intro ti name o ops u hget hrun
    obtain ⟨O, hO, hid, rfl⟩ := hs.getShared_iff.1 hget
    rw [← hid] at hrun
    obtain ⟨hu, hused⟩ := used_of_run hrun hs hO
    exact hu.getShared_iff.2 ⟨O, hused, hid, rfl⟩

/-- A client gives back what it added, and acquires it under another name. -/
theorem contents_of_run_recycled : ∃ s : System Unit List.length,
    Run (ClearStep fun _ => []) {}
      [.make, .call (.add .chars () 0 ['i', '1']) (.done true), .drop 0,
        .call (.release .chars () ['i', '1']) (.done true),
        .call (.acquire .chars () ['i', '2'] false false) (.object 0)] s ∧
      Contract (fun _ => []) s := by
  have hrun : ∃ s : System Unit List.length, Run (ClearStep fun _ => []) {}
      [.make, .call (.add .chars () 0 ['i', '1']) (.done true), .drop 0,
        .call (.release .chars () ['i', '1']) (.done true),
        .call (.acquire .chars () ['i', '2'] false false) (.object 0)] s := by
    refine ⟨_, .cons ⟨trivial, rfl⟩ (.cons ⟨trivial, Nat.one_pos, 0, rfl⟩
      (.cons ⟨trivial, Nat.one_pos, rfl⟩ (.cons ⟨trivial, trivial, 0, rfl⟩
        (.cons ⟨?_, trivial, 0, rfl⟩ (.nil _)))))⟩
    intro P hP
    cases hP
  obtain ⟨s, hrun⟩ := hrun
  exact ⟨s, hrun, contents_of_run List.length (fun _ => []) hrun⟩

/-- **A free object keeps its name**: acquired under another one, it is found under its own, and
nothing under the other. -/
theorem recycled_keeps_name : ∃ s t : System Unit List.length,
    Run (Step fun _ => []) {}
      [.make, .call (.add .chars () 0 ['i', '1']) (.done true), .drop 0,
        .call (.release .chars () ['i', '1']) (.done true)] s ∧
      Step (fun _ => []) s (.call (.acquire .chars () ['i', '2'] false false) (.object 0)) t ∧
      (t.getShared (fun _ => []) () ['i', '2']).1 ≠ .object 0 ∧
      (t.getShared (fun _ => []) () ['i', '1']).1 = .object 0 := by
  refine ⟨_, _, .cons rfl (.cons ⟨Nat.one_pos, 0, rfl⟩ (.cons ⟨Nat.one_pos, rfl⟩
    (.cons ⟨trivial, 0, rfl⟩ (.nil _)))), ⟨trivial, 0, rfl⟩, ?_, rfl⟩
  exact fun h => by cases h

end Codrive.Objects
