/-
# What the calls on a pool keep

The ids in the used set are distinct, a used object has at least as many references as the pool and
the clients know of, and a free one has no client and is nowhere else (`System.Inv`).  Every step of
the clients keeps this, one lemma for each (`Inv.step`).
-/

import Codrive.Objects.Pool
import Mathlib.Data.List.Nodup

namespace Codrive.Objects

open Codrive.Strings

variable {τ : Type} {hash : Str → ℕ} {typeName : τ → Str} {s t : System τ hash}
  {O P : Object τ hash} {id : ObjectID τ hash} {ti : τ} {name : Str} {o : ℕ} {r : Reply}

theorem getObjectID_name (h : id.type_idx_ = ti) : getObjectID hash ti id.name_ = id := by
  obtain ⟨ti, name, code, hcode, hname⟩ := id
  subst hcode h
  simp only [getObjectID, hname]

/-! ### The counters -/

theorem plus_self (count : ℕ → ℕ) (o : ℕ) : plus count o o = count o + 1 := Function.update_self ..

theorem plus_of_ne {count : ℕ → ℕ} {o p : ℕ} (h : p ≠ o) : plus count o p = count p :=
  Function.update_of_ne h ..

theorem le_plus (count : ℕ → ℕ) (o p : ℕ) : count p ≤ plus count o p := by
  by_cases h : p = o
  · rw [h, plus_self]
    exact Nat.le_succ _
  · rw [plus_of_ne h]

theorem minus_self (count : ℕ → ℕ) (o : ℕ) : minus count o o = count o - 1 :=
  Function.update_self ..

theorem minus_of_ne {count : ℕ → ℕ} {o p : ℕ} (h : p ≠ o) : minus count o p = count p :=
  Function.update_of_ne h ..

/-! ### The invariant -/

/-- How often an object is in the used set. -/
def System.uses (s : System τ hash) (o : ℕ) : ℕ := s.used_objs_.countP fun O => O.ptr = o

/-- The invariant of a pool with its clients. -/
structure System.Inv (s : System τ hash) : Prop where
  /-- No id is used twice. -/
  distinct : (s.used_objs_.map Object.id_).Nodup
  /-- Free lists are those of the types. -/
  typed : ∀ ti, ∀ O ∈ s.free_objs_ ti, O.id_.type_idx_ = ti
  /-- The references that the used set and the clients have are counted. -/
  owned : ∀ o, s.uses o + s.held o ≤ s.use_count o
  /-- A free object has no client, and is not used. -/
  idle : ∀ ti, ∀ O ∈ s.free_objs_ ti, s.held O.ptr = 0 ∧ 1 ≤ s.use_count O.ptr ∧ s.uses O.ptr = 0
  /-- It is not twice in its free list. -/
  once : ∀ ti, ((s.free_objs_ ti).map Object.ptr).Nodup
  /-- It is in no other. -/
  apart : ∀ ti tj, ∀ O ∈ s.free_objs_ ti, ∀ P ∈ s.free_objs_ tj, O.ptr = P.ptr → ti = tj
  /-- All objects have been made. -/
  used_lt : ∀ O ∈ s.used_objs_, O.ptr < s.next
  free_lt : ∀ ti, ∀ O ∈ s.free_objs_ ti, O.ptr < s.next
  held_lt : ∀ o, 0 < s.held o → o < s.next

namespace System

theorem uses_eq_zero_iff : s.uses o = 0 ↔ ∀ O ∈ s.used_objs_, O.ptr ≠ o := by
  rw [uses, List.countP_eq_zero]
  simp

theorem uses_pos (h : O ∈ s.used_objs_) : 0 < s.uses O.ptr :=
  List.countP_pos_iff.2 ⟨O, h, by simp⟩

/-- The start. -/
theorem Inv.empty : Inv ({} : System τ hash) where
  distinct := List.nodup_nil
  typed _ _ hO := absurd hO List.not_mem_nil
  owned _ := Nat.le_refl 0
  idle _ _ hO := absurd hO List.not_mem_nil
  once _ := List.nodup_nil
  apart _ _ _ hO := absurd hO List.not_mem_nil
  used_lt _ hO := absurd hO List.not_mem_nil
  free_lt _ _ hO := absurd hO List.not_mem_nil
  held_lt _ h := absurd h (Nat.lt_irrefl 0)

/-- **Only references change**, and those of free objects do not go away. -/
theorem Inv.counts (h : s.Inv) (use_count held : ℕ → ℕ) (next : ℕ)
    (howned : ∀ o, s.uses o + held o ≤ use_count o)
    (hidle : ∀ ti, ∀ O ∈ s.free_objs_ ti, held O.ptr = 0 ∧ 1 ≤ use_count O.ptr)
    (hnext : s.next ≤ next) (hheld : ∀ o, 0 < held o → o < next) :
    Inv { s with use_count := use_count, held := held, next := next } where
  distinct := h.distinct
  typed := h.typed
  owned := howned
  idle ti O hO := ⟨(hidle ti O hO).1, (hidle ti O hO).2, (h.idle ti O hO).2.2⟩
  once := h.once
  apart := h.apart
  used_lt O hO := Nat.lt_of_lt_of_le (h.used_lt O hO) hnext
  free_lt ti O hO := Nat.lt_of_lt_of_le (h.free_lt ti O hO) hnext
  held_lt := hheld

/-- A reference more, of whomever. -/
theorem Inv.refer (h : s.Inv) (o : ℕ) : Inv { s with use_count := plus s.use_count o } := by
  refine h.counts _ s.held s.next (fun p => ?_) (fun ti O hO => ?_) (Nat.le_refl _) h.held_lt
  · exact Nat.le_trans (h.owned p) (le_plus _ _ _)
  · exact ⟨(h.idle ti O hO).1, Nat.le_trans (h.idle ti O hO).2.1 (le_plus _ _ _)⟩

/-- **A reference is handed out** of what is not free. -/
theorem Inv.hand (h : s.Inv) (hlt : o < s.next) (hfree : ∀ ti, ∀ O ∈ s.free_objs_ ti, O.ptr ≠ o) :
    (s.hand o).Inv := by
  refine h.counts _ _ s.next (fun p => ?_) (fun ti O hO => ?_) (Nat.le_refl _) fun p hp => ?_
  · have howned := h.owned p
    by_cases hp : p = o
    · rw [hp, plus_self, plus_self]
      rw [hp] at howned
      omega
    · rwa [plus_of_ne hp, plus_of_ne hp]
  · rw [plus_of_ne (hfree ti O hO), plus_of_ne (hfree ti O hO)]
    exact ⟨(h.idle ti O hO).1, (h.idle ti O hO).2.1⟩
  · by_cases hpo : p = o
    · rwa [hpo]
    · rw [plus_of_ne hpo] at hp
      exact h.held_lt p hp

/-- What a client has is not free. -/
theorem Inv.not_free_of_held (h : s.Inv) (ho : 0 < s.held o) :
    ∀ ti, ∀ O ∈ s.free_objs_ ti, O.ptr ≠ o := by
  rintro ti O hO rfl
  have := (h.idle ti O hO).1
  omega

/-- What is used is not free. -/
theorem Inv.not_free_of_used (h : s.Inv) (hP : P ∈ s.used_objs_) :
    ∀ ti, ∀ O ∈ s.free_objs_ ti, O.ptr ≠ P.ptr := by
  intro ti O hO heq
  have hzero := (h.idle ti O hO).2.2
  have hpos := uses_pos hP
  rw [heq] at hzero
  omega

/-- **An object is put in the used set.** -/
theorem Inv.use (h : s.Inv) (hid : ∀ P ∈ s.used_objs_, P.id_ ≠ O.id_) (hlt : O.ptr < s.next)
    (hfree : ∀ ti, ∀ P ∈ s.free_objs_ ti, P.ptr ≠ O.ptr)
    (hcount : s.uses O.ptr + 1 + s.held O.ptr ≤ s.use_count O.ptr) :
    Inv { s with used_objs_ := O :: s.used_objs_ } where
  distinct := by
    refine List.nodup_cons.2 ⟨fun hmem => ?_, h.distinct⟩
    obtain ⟨P, hP, heq⟩ := List.mem_map.1 hmem
    exact hid P hP heq
  typed := h.typed
  owned p := by
    have howned := h.owned p
    unfold uses at howned hcount ⊢
    by_cases hp : O.ptr = p
    · subst hp
      rw [List.countP_cons_of_pos (by simp)]
      exact hcount
    · rwa [List.countP_cons_of_neg (by simpa using hp)]
  idle ti P hP := by
    refine ⟨(h.idle ti P hP).1, (h.idle ti P hP).2.1, ?_⟩
    have hzero := (h.idle ti P hP).2.2
    unfold uses at hzero ⊢
    rwa [List.countP_cons_of_neg (by simpa using (hfree ti P hP).symm)]
  once := h.once
  apart := h.apart
  used_lt P hP := by
    rcases List.mem_cons.1 hP with rfl | hP
    · exact hlt
    · exact h.used_lt P hP
  free_lt := h.free_lt
  held_lt := h.held_lt

/-! ### The clients -/

/-- A client makes an object. -/
theorem Inv.make (h : s.Inv) : Inv { s.hand s.next with next := s.next + 1 } := by
  have huses : s.uses s.next = 0 := uses_eq_zero_iff.2 fun P hP => Nat.ne_of_lt (h.used_lt P hP)
  refine h.counts (plus s.use_count s.next) (plus s.held s.next) (s.next + 1) (fun o => ?_)
    (fun ti O hO => ?_) (Nat.le_succ _) fun o ho => ?_
  · have howned := h.owned o
    by_cases hnext : o = s.next
    · subst hnext
      rw [plus_self, plus_self]
      omega
    · rwa [plus_of_ne hnext, plus_of_ne hnext]
  · have hne := Nat.ne_of_lt (h.free_lt ti O hO)
    rw [plus_of_ne hne, plus_of_ne hne]
    exact ⟨(h.idle ti O hO).1, (h.idle ti O hO).2.1⟩
  · by_cases hnext : o = s.next
    · omega
    · rw [plus_of_ne hnext] at ho
      exact Nat.lt_succ_of_lt (h.held_lt o ho)

/-- A client drops a reference. -/
theorem Inv.drop (h : s.Inv) (ho : 0 < s.held o) :
    Inv { s with use_count := minus s.use_count o, held := minus s.held o } := by
  refine h.counts _ _ s.next (fun p => ?_) (fun ti O hO => ?_) (Nat.le_refl _) fun p hp => ?_
  · have howned := h.owned p
    by_cases hp : p = o
    · subst hp
      rw [minus_self, minus_self]
      omega
    · rwa [minus_of_ne hp, minus_of_ne hp]
  · have hne := h.not_free_of_held ho ti O hO
    rw [minus_of_ne hne, minus_of_ne hne]
    exact ⟨(h.idle ti O hO).1, (h.idle ti O hO).2.1⟩
  · by_cases hpo : p = o
    · rw [hpo]
      exact h.held_lt o ho
    · rw [minus_of_ne hpo] at hp
      exact h.held_lt p hp

/-- `Acquire` of a `std::string&` never returns. -/
theorem acquireString_eq_none (s : System τ hash) (ti : τ) (name : Str) (args throws : Bool)
    (depth : ℕ) : s.acquireString ti name args throws depth = none := by
  induction depth with
  | zero => rfl
  | succ depth ih => exact ih

end System

/-! ### Ids -/

variable [DecidableEq τ]

/-- **Objects are found under their type and name**, whatever the hash. -/
theorem ObjectID.compare_iff {id other : ObjectID τ hash} : id.compare other = true ↔
    id = other := by
  obtain ⟨ti, name, code, hcode, hname⟩ := id
  obtain ⟨ti', name', code', hcode', hname'⟩ := other
  subst hcode hcode'
  rw [ObjectID.compare]
  constructor
  · intro h
    split at h
    · cases h
    · split at h
      · cases h
      · rename_i hti
        obtain rfl : ti = ti' := not_not.1 hti
        obtain rfl : name = name' := eq_of_beq h
        rfl
  · intro h
    obtain ⟨rfl, rfl⟩ : ti = ti' ∧ name = name' := by
      rw [ObjectID.mk.injEq] at h
      exact ⟨h.1, h.2.1⟩
    simp

theorem anyCast_eq (O : Object τ hash) (h : O.id_.type_idx_ = ti) : O.anyCast ti = .ok O.ptr :=
  if_pos (O.any_type_eq.trans h)

namespace System

theorem find_eq_some (h : s.find id = some O) : O ∈ s.used_objs_ ∧ O.id_ = id := by
  have hequal : O.id_.compare id = true :=
    List.find?_some (p := fun O : Object τ hash => O.id_.compare id) h
  exact ⟨List.mem_of_find?_eq_some h, ObjectID.compare_iff.1 hequal⟩

theorem find_eq_none_iff : s.find id = none ↔ ∀ O ∈ s.used_objs_, O.id_ ≠ id := by
  rw [find, List.find?_eq_none]
  exact forall₂_congr fun O _ => not_congr ObjectID.compare_iff

theorem insert_of_absent (h : ∀ P ∈ s.used_objs_, P.id_ ≠ O.id_) :
    s.insert O = { s with used_objs_ := O :: s.used_objs_ } := by
  rw [insert, find_eq_none_iff.2 h]

theorem insert_of_present (h : ¬∀ P ∈ s.used_objs_, P.id_ ≠ O.id_) : s.insert O = s := by
  rw [insert]
  cases hfind : s.find O.id_ with
  | none => exact absurd (find_eq_none_iff.1 hfind) h
  | some P => rfl

/-- What is put in the used set under an id that is in use is not stored. -/
theorem Inv.insert (h : s.Inv) (hlt : O.ptr < s.next)
    (hfree : ∀ ti, ∀ P ∈ s.free_objs_ ti, P.ptr ≠ O.ptr)
    (hcount : s.uses O.ptr + 1 + s.held O.ptr ≤ s.use_count O.ptr) : (s.insert O).Inv := by
  by_cases hid : ∀ P ∈ s.used_objs_, P.id_ ≠ O.id_
  · rw [insert_of_absent hid]
    exact h.use hid hlt hfree hcount
  · rw [insert_of_present hid]
    exact h

/-- What inserting leaves as it is. -/
theorem insert_eq (s : System τ hash) (O : Object τ hash) :
    s.insert O = { s with used_objs_ := (s.insert O).used_objs_ } := by
  unfold insert
  split <;> rfl

/-! ### The calls -/

/-- `Add` throws and keeps the reference, or stores the object. -/
theorem add_cases (typeName : τ → Str) (s : System τ hash) (ti : τ) (o : ℕ) (name : Str) :
    (∃ e, s.add typeName ti o name = (.thrown e, { s with use_count := plus s.use_count o })) ∨
      ((∀ P ∈ s.used_objs_, P.id_ ≠ getObjectID hash ti name) ∧
        s.add typeName ti o name = (.done true,
          { s with use_count := plus s.use_count o,
                   used_objs_ := newObject (getObjectID hash ti name) o :: s.used_objs_ })) := by
  rw [add]
  cases hfind : System.find { s with use_count := plus s.use_count o }
    (getObjectID hash ti name) with
  | some P => exact .inl ⟨_, rfl⟩
  | none =>
    have habsent := find_eq_none_iff.1 hfind
    refine .inr ⟨habsent, ?_⟩
    dsimp only
    rw [insert_of_absent habsent]

theorem Inv.add (h : s.Inv) (ho : 0 < s.held o) : (s.add typeName ti o name).2.Inv := by
  obtain ⟨e, he⟩ | ⟨habsent, hok⟩ := add_cases typeName s ti o name
  · rw [he]
    exact h.refer o
  · rw [hok]
    refine (h.refer o).use habsent (h.held_lt o ho) (h.not_free_of_held ho) ?_
    have howned := h.owned o
    change s.uses o + 1 + s.held o ≤ plus s.use_count o o
    rw [plus_self]
    omega

/-- `GetShared` hands out the object of the name, or throws. -/
theorem getShared_cases (typeName : τ → Str) (s : System τ hash) (ti : τ) (name : Str) :
    (∃ O ∈ s.used_objs_, O.id_ = getObjectID hash ti name ∧
      s.getObjectIter typeName ti name = .ok O ∧
      s.getShared typeName ti name = (.object O.ptr, s.hand O.ptr)) ∨
      ((∀ P ∈ s.used_objs_, P.id_ ≠ getObjectID hash ti name) ∧
        ∃ e, s.getObjectIter typeName ti name = .error e ∧
          s.getShared typeName ti name = (.thrown e, s)) := by
  cases hfind : s.find (getObjectID hash ti name) with
  | some O =>
    obtain ⟨hO, hid⟩ := find_eq_some hfind
    have hiter : s.getObjectIter typeName ti name = .ok O := by rw [getObjectIter, hfind]
    have hti : O.id_.type_idx_ = ti := by rw [hid]; rfl
    refine .inl ⟨O, hO, hid, hiter, ?_⟩
    have hcast : (do (← s.getObjectIter typeName ti name).anyCast ti : Except Thrown ℕ) =
        .ok O.ptr := by
      rw [hiter]
      exact anyCast_eq O hti
    rw [getShared, hcast]
  | none =>
    have hiter : s.getObjectIter typeName ti name =
        .error (.error (getMessage typeName ti (cStr name))) := by rw [getObjectIter, hfind]
    refine .inr ⟨find_eq_none_iff.1 hfind, _, hiter, ?_⟩
    rw [getShared, hiter]
    rfl

theorem Inv.getShared (h : s.Inv) : (s.getShared typeName ti name).2.Inv := by
  obtain ⟨O, hO, -, -, hget⟩ | ⟨-, e, -, hget⟩ := getShared_cases typeName s ti name
  · rw [hget]
    exact h.hand (h.used_lt O hO) (h.not_free_of_used hO)
  · rw [hget]
    exact h

/-- The id under which `Acquire` stores: that of the free object it takes, or that of the name. -/
def storedID (s : System τ hash) (ti : τ) (name : Str) : ObjectID τ hash :=
  match s.free_objs_ ti with
  | O :: _ => O.id_
  | [] => getObjectID hash ti name

/-- What `Acquire` leaves where it takes a free object. -/
def recycled (s : System τ hash) (ti : τ) (O : Object τ hash) (rest : List (Object τ hash)) :
    System τ hash :=
  (System.insert { s with free_objs_ := Function.update s.free_objs_ ti rest } O).hand O.ptr

/-- What `Acquire` leaves where it makes an object. -/
def created (s : System τ hash) (ti : τ) (name : Str) : System τ hash :=
  (System.insert { s with use_count := plus s.use_count s.next, next := s.next + 1 }
    (newObject (getObjectID hash ti name) s.next)).hand s.next

/-- `Acquire` throws, takes a free object, or makes one. -/
theorem Inv.acquire_cases (h : s.Inv) (ti : τ) (name : Str) (args throws : Bool) :
    (∃ e, s.acquire ti name args throws = (.thrown e, s)) ∨
      (∃ O rest, s.free_objs_ ti = O :: rest ∧
        s.acquire ti name args throws = (.object O.ptr, s.recycled ti O rest)) ∨
      (s.free_objs_ ti = [] ∧
        s.acquire ti name args throws = (.object s.next, s.created ti name)) := by
  rw [acquire]
  cases hlist : s.free_objs_ ti with
  | nil =>
    cases throws with
    | true => exact .inl ⟨_, rfl⟩
    | false => exact .inr (.inr ⟨rfl, rfl⟩)
  | cons O rest =>
    have hti := h.typed ti O (hlist ▸ List.mem_cons_self)
    dsimp only
    rw [anyCast_eq O hti]
    dsimp only
    by_cases hthrow : (args && throws) = true
    · rw [if_pos hthrow]
      exact .inl ⟨_, rfl⟩
    · rw [if_neg hthrow]
      refine .inr (.inl ⟨O, rest, rfl, ?_⟩)
      let w : System τ hash := { s with free_objs_ := Function.update s.free_objs_ ti rest }
      have hswap : { s.insert O with
          free_objs_ := Function.update (s.insert O).free_objs_ ti rest } = w.insert O := by
        have hfind : w.find O.id_ = s.find O.id_ := rfl
        unfold System.insert
        rw [hfind]
        cases s.find O.id_ <;> rfl
      rw [hswap, recycled]

/-- Free objects taken out of a free list. -/
theorem Inv.take {rest : List (Object τ hash)} (h : s.Inv) (hlist : s.free_objs_ ti = O :: rest) :
    Inv { s with free_objs_ := Function.update s.free_objs_ ti rest } ∧
      ∀ tj, ∀ P ∈ Function.update s.free_objs_ ti rest tj, P ∈ s.free_objs_ tj ∧ P.ptr ≠ O.ptr := by
  have hO : O ∈ s.free_objs_ ti := hlist ▸ List.mem_cons_self
  have hnodup := h.once ti
  rw [hlist, List.map_cons, List.nodup_cons] at hnodup
  have hsub : ∀ tj, ∀ P ∈ Function.update s.free_objs_ ti rest tj,
      P ∈ s.free_objs_ tj ∧ P.ptr ≠ O.ptr := by
    intro tj P hP
    by_cases htj : tj = ti
    · subst htj
      rw [Function.update_self] at hP
      refine ⟨hlist ▸ List.mem_cons_of_mem O hP, fun heq => hnodup.1 ?_⟩
      rw [← heq]
      exact List.mem_map_of_mem hP
    · rw [Function.update_of_ne htj] at hP
      exact ⟨hP, fun heq => htj (h.apart tj ti P hP O hO heq)⟩
  have honce : ∀ tj, ((Function.update s.free_objs_ ti rest tj).map Object.ptr).Nodup := by
    intro tj
    by_cases htj : tj = ti
    · rw [htj, Function.update_self]
      exact hnodup.2
    · rw [Function.update_of_ne htj]
      exact h.once tj
  refine ⟨?_, hsub⟩
  exact {
    distinct := h.distinct
    typed := fun tj P hP => h.typed tj P (hsub tj P hP).1
    owned := h.owned
    idle := fun tj P hP => h.idle tj P (hsub tj P hP).1
    once := honce
    apart := fun tj tk P hP Q hQ => h.apart tj tk P (hsub tj P hP).1 Q (hsub tk Q hQ).1
    used_lt := h.used_lt
    free_lt := fun tj P hP => h.free_lt tj P (hsub tj P hP).1
    held_lt := h.held_lt }

theorem Inv.recycled {rest : List (Object τ hash)} (h : s.Inv)
    (hlist : s.free_objs_ ti = O :: rest) : (s.recycled ti O rest).Inv := by
  have hO : O ∈ s.free_objs_ ti := hlist ▸ List.mem_cons_self
  obtain ⟨hheld, hone, huses⟩ := h.idle ti O hO
  obtain ⟨htake, hsub⟩ := h.take hlist
  have hinsert := htake.insert (O := O) (h.free_lt ti O hO) (fun tj P hP => (hsub tj P hP).2) (by
    change s.uses O.ptr + 1 + s.held O.ptr ≤ s.use_count O.ptr
    omega)
  refine hinsert.hand ?_ fun tj P hP => ?_
  · rw [insert_eq]
    exact h.free_lt ti O hO
  · rw [insert_eq] at hP
    exact (hsub tj P hP).2

theorem Inv.created (h : s.Inv) : (s.created ti name).Inv := by
  have hnext : s.uses s.next = 0 := uses_eq_zero_iff.2 fun P hP => Nat.ne_of_lt (h.used_lt P hP)
  have hheld : s.held s.next = 0 :=
    Nat.eq_zero_of_not_pos fun hpos => Nat.lt_irrefl _ (h.held_lt _ hpos)
  have hfree : ∀ tj, ∀ P ∈ s.free_objs_ tj, P.ptr ≠ s.next :=
    fun tj P hP => Nat.ne_of_lt (h.free_lt tj P hP)
  have hmade : Inv { s with use_count := plus s.use_count s.next, next := s.next + 1 } :=
    h.counts _ s.held (s.next + 1)
      (fun o => Nat.le_trans (h.owned o) (le_plus _ _ _))
      (fun tj P hP => ⟨(h.idle tj P hP).1, Nat.le_trans (h.idle tj P hP).2.1 (le_plus _ _ _)⟩)
      (Nat.le_succ _) fun o ho => Nat.lt_succ_of_lt (h.held_lt o ho)
  have hinsert := hmade.insert (O := newObject (getObjectID hash ti name) s.next)
    (Nat.lt_succ_self _) hfree (by
      change s.uses s.next + 1 + s.held s.next ≤ plus s.use_count s.next s.next
      rw [plus_self]
      omega)
  refine hinsert.hand ?_ fun tj P hP => ?_
  · rw [insert_eq]
    exact Nat.lt_succ_self _
  · rw [insert_eq] at hP
    exact hfree tj P hP

theorem Inv.acquire (h : s.Inv) {args throws : Bool} : (s.acquire ti name args throws).2.Inv := by
  obtain ⟨e, he⟩ | ⟨O, rest, hlist, he⟩ | ⟨hlist, he⟩ := h.acquire_cases ti name args throws
  · rw [he]
    exact h
  · rw [he]
    exact h.recycled hlist
  · rw [he]
    exact h.created

/-- What `Release` leaves where it gives an object back. -/
def released (s : System τ hash) (ti : τ) (O : Object τ hash) : System τ hash :=
  { s with
    free_objs_ := Function.update s.free_objs_ ti (s.free_objs_ ti ++ [O])
    used_objs_ := s.used_objs_.eraseP fun P => P.id_.compare O.id_ }

/-- `Release` throws, does nothing, or gives back an object that has one reference. -/
theorem release_cases (typeName : τ → Str) (s : System τ hash) (ti : τ) (name : Str) :
    (∃ e, s.release typeName ti name = (.thrown e, s)) ∨
      s.release typeName ti name = (.done false, s) ∨
      ∃ O ∈ s.used_objs_, O.id_ = getObjectID hash ti name ∧ s.use_count O.ptr ≤ 1 ∧
        s.release typeName ti name = (.done true, s.released ti O) := by
  rw [release]
  obtain ⟨O, hO, hid, hiter, -⟩ | ⟨-, e, hiter, -⟩ := getShared_cases typeName s ti name
  · have hti : O.id_.type_idx_ = ti := by rw [hid]; rfl
    rw [hiter]
    dsimp only
    rw [anyCast_eq O hti]
    dsimp only
    by_cases hcount : s.use_count O.ptr + 1 ≤ 2
    · rw [if_pos hcount]
      exact .inr (.inr ⟨O, hO, hid, by omega, rfl⟩)
    · rw [if_neg hcount]
      exact .inr (.inl rfl)
  · rw [hiter]
    exact .inl ⟨e, rfl⟩

/-- What is erased from the used set is the object found. -/
theorem Inv.erase_eq (h : s.Inv) (hO : O ∈ s.used_objs_) :
    ∃ before behind, s.used_objs_ = before ++ O :: behind ∧
      (s.used_objs_.eraseP fun P => P.id_.compare O.id_) = before ++ behind := by
  obtain ⟨P, before, behind, -, hP, hsplit, herase⟩ :=
    List.exists_of_eraseP (p := fun P : Object τ hash => P.id_.compare O.id_) hO
      (ObjectID.compare_iff.2 rfl)
  have hPmem : P ∈ s.used_objs_ := by
    rw [hsplit]
    simp
  obtain rfl := List.inj_on_of_nodup_map h.distinct hPmem hO (ObjectID.compare_iff.1 hP)
  exact ⟨before, behind, hsplit, herase⟩

theorem Inv.released (h : s.Inv) (hO : O ∈ s.used_objs_) (hti : O.id_.type_idx_ = ti)
    (hone : s.use_count O.ptr ≤ 1) : (s.released ti O).Inv := by
  obtain ⟨before, behind, hsplit, herase⟩ := h.erase_eq hO
  have howned := h.owned O.ptr
  have hpos := uses_pos hO
  have huses : ∀ o, s.uses o = (before ++ behind).countP (fun P => P.ptr = o) +
      if O.ptr = o then 1 else 0 := by
    intro o
    rw [uses, hsplit]
    simp only [List.countP_append, List.countP_cons, decide_eq_true_eq]
    omega
  have hsame : (before ++ behind).countP (fun P => P.ptr = O.ptr) = 0 := by
    have := huses O.ptr
    rw [if_pos rfl] at this
    omega
  have hfree := h.not_free_of_used hO
  have hmem : ∀ tj, ∀ P ∈ Function.update s.free_objs_ ti (s.free_objs_ ti ++ [O]) tj,
      P ∈ s.free_objs_ tj ∨ (tj = ti ∧ P = O) := by
    intro tj P hP
    by_cases htj : tj = ti
    · subst htj
      rw [Function.update_self] at hP
      rcases List.mem_append.1 hP with hP | hP
      · exact .inl hP
      · exact .inr ⟨rfl, List.mem_singleton.1 hP⟩
    · rw [Function.update_of_ne htj] at hP
      exact .inl hP
  have honce : ∀ tj, ((Function.update s.free_objs_ ti (s.free_objs_ ti ++ [O]) tj).map
      Object.ptr).Nodup := by
    intro tj
    by_cases htj : tj = ti
    · rw [htj, Function.update_self, List.map_append]
      refine List.Nodup.append (h.once ti) (List.nodup_singleton _) ?_
      intro o ho ho'
      obtain ⟨P, hP, rfl⟩ := List.mem_map.1 ho
      exact hfree ti P hP (List.mem_singleton.1 ho')
    · rw [Function.update_of_ne htj]
      exact h.once tj
  have hidle : s.held O.ptr = 0 ∧ 1 ≤ s.use_count O.ptr := by omega
  unfold System.released
  rw [herase]
  exact {
    distinct := by
      have hdistinct := h.distinct
      rw [hsplit, List.map_append, List.map_cons] at hdistinct
      rw [List.map_append]
      exact (List.nodup_middle.1 hdistinct).of_cons
    typed := fun tj P hP => by
      rcases hmem tj P hP with hP | ⟨rfl, rfl⟩
      · exact h.typed tj P hP
      · exact hti
    owned := fun o => by
      have := h.owned o
      have := huses o
      change (before ++ behind).countP (fun P => P.ptr = o) + s.held o ≤ s.use_count o
      omega
    idle := fun tj P hP => by
      rcases hmem tj P hP with hP | ⟨-, rfl⟩
      · refine ⟨(h.idle tj P hP).1, (h.idle tj P hP).2.1, ?_⟩
        have hzero := (h.idle tj P hP).2.2
        rw [huses] at hzero
        change (before ++ behind).countP (fun Q => Q.ptr = P.ptr) = 0
        omega
      · exact ⟨hidle.1, hidle.2, hsame⟩
    once := honce
    apart := fun tj tk P hP Q hQ heq => by
      rcases hmem tj P hP with hP' | ⟨htj, hPO⟩ <;> rcases hmem tk Q hQ with hQ' | ⟨htk, hQO⟩
      · exact h.apart tj tk P hP' Q hQ' heq
      · exact absurd (hQO ▸ heq) (hfree tj P hP')
      · exact absurd (hPO ▸ heq).symm (hfree tk Q hQ')
      · rw [htj, htk]
    used_lt := fun P hP => h.used_lt P (hsplit ▸ by
      rcases List.mem_append.1 hP with hP | hP
      · exact List.mem_append_left _ hP
      · exact List.mem_append_right _ (List.mem_cons_of_mem O hP))
    free_lt := fun tj P hP => by
      rcases hmem tj P hP with hP | ⟨-, rfl⟩
      · exact h.free_lt tj P hP
      · exact h.used_lt P hO
    held_lt := h.held_lt }

theorem Inv.release (h : s.Inv) : (s.release typeName ti name).2.Inv := by
  obtain ⟨e, he⟩ | he | ⟨O, hO, hid, hone, he⟩ := release_cases typeName s ti name
  · rw [he]
    exact h
  · rw [he]
    exact h
  · rw [he]
    exact h.released hO (by rw [hid]; rfl) hone

/-! ### The steps -/

/-- **Every step keeps the invariant.** -/
theorem Inv.step {op : Op τ} (h : s.Inv) (hstep : Step typeName s op t) : t.Inv := by
  cases op with
  | call c r =>
    obtain ⟨hpossible, depth, hcall⟩ := hstep
    cases c with
    | add via ti o name =>
      obtain rfl := congrArg Prod.snd (Option.some.inj hcall)
      exact h.add hpossible
    | acquire via ti name args throws =>
      cases via with
      | chars =>
        obtain rfl := congrArg Prod.snd (Option.some.inj hcall)
        exact h.acquire
      | string =>
        rw [System.call, acquireString_eq_none] at hcall
        cases hcall
    | getShared via ti name =>
      obtain rfl := congrArg Prod.snd (Option.some.inj hcall)
      exact h.getShared
    | release via ti name =>
      obtain rfl := congrArg Prod.snd (Option.some.inj hcall)
      exact h.release
  | make =>
    obtain rfl : t = _ := hstep
    exact h.make
  | copy o =>
    obtain ⟨ho, rfl⟩ := hstep
    exact h.hand (h.held_lt o ho) (h.not_free_of_held ho)
  | drop o =>
    obtain ⟨ho, rfl⟩ := hstep
    exact h.drop ho

end System

end Codrive.Objects
