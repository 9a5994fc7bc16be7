/-
# Maps under a comparator

`std::map` with a comparator that is a strict order but need not order every two keys: keys of
which neither is less than the other are the same key to the map.  Its entries are in order, every
two of them, and a key cuts them into those before it, those it cannot tell from itself, and those
after it (`exists_parts`).  Each operation is said on the three parts:

| operation | entries before | entries after |
|---|---|---|
| `find? k` | `A ++ M ++ B` | the first of `M` |
| `insert k v` | `A ++ B` | `A ++ (k, v) :: B` |
| `insert k v` | `A ++ M ++ B`, `M` not empty | unchanged |
| `erase k` | `A ++ m :: M ++ B` | `A ++ M ++ B` |
-/

import Mathlib.Order.Defs.Unbundled
import Mathlib.Data.List.Pairwise
import Mathlib.Tactic.Common

namespace Codrive.Basis

variable {κ α : Type*}

namespace ComparatorMap

section

variable (lt : κ → κ → Prop) [DecidableRel lt]

/-- The entries from the first that is not before the key. -/
def lowerBound (k : κ) (l : List (κ × α)) : List (κ × α) := l.dropWhile fun e => lt e.1 k

/-- `find`. -/
def find? (k : κ) (l : List (κ × α)) : Option (κ × α) :=
  match lowerBound lt k l with
  | [] => none
  | e :: _ => if lt k e.1 then none else some e

/-- `insert`: the last entry that is not after the key is the one that may keep it out. -/
def insert (k : κ) (v : α) (l : List (κ × α)) : List (κ × α) :=
  let A := l.takeWhile fun e => ¬lt k e.1
  match A.getLast? with
  | none => (k, v) :: l
  | some e => if lt e.1 k then A ++ (k, v) :: l.dropWhile fun e => ¬lt k e.1 else l

/-- `erase` of what `find` finds. -/
def erase (k : κ) (l : List (κ × α)) : List (κ × α) :=
  match find? lt k l with
  | none => l
  | some _ => (l.takeWhile fun e => lt e.1 k) ++ (lowerBound lt k l).tail

end

/-- The entries in order. -/
def Sorted (lt : κ → κ → Prop) (l : List (κ × α)) : Prop := l.Pairwise fun a b => lt a.1 b.1

/-- The parts of a map around a key. -/
structure Parts (lt : κ → κ → Prop) (k : κ) (l A M B : List (κ × α)) : Prop where
  eq : l = A ++ (M ++ B)
  before : ∀ e ∈ A, lt e.1 k
  same : ∀ e ∈ M, ¬lt e.1 k ∧ ¬lt k e.1
  after : ∀ e ∈ B, lt k e.1

section

variable {lt : κ → κ → Prop} {k : κ} {l A M B : List (κ × α)}

/-- A key that is before or after every entry has an empty middle part. -/
theorem Parts.same_eq_nil_iff (hp : Parts lt k l A M B) :
    M = [] ↔ ∀ e ∈ l, lt e.1 k ∨ lt k e.1 := by
  constructor
  · rintro rfl e he
    rw [hp.eq] at he
    rcases List.mem_append.1 he with he | he
    · exact .inl (hp.before e he)
    · exact .inr (hp.after e he)
  · intro h
    refine List.eq_nil_iff_forall_not_mem.2 fun e he => ?_
    have hor := h e (by rw [hp.eq]; simp [he])
    exact hor.elim (hp.same e he).1 (hp.same e he).2

/-- Of entries in order, one at most cannot be told from a key that separates them. -/
theorem Parts.same_of_point (h : Sorted lt l) (hk : ∀ a b, lt a b → lt a k ∨ lt k b)
    (hp : Parts lt k l A M B) : M = [] ∨ ∃ e, M = [e] := by
  rcases M with _ | ⟨e, _ | ⟨e', M⟩⟩
  · exact .inl rfl
  · exact .inr ⟨e, rfl⟩
  · unfold Sorted at h
    rw [hp.eq, List.pairwise_append, List.pairwise_append] at h
    have hlt := (List.pairwise_cons.1 h.2.1.1).1 e' List.mem_cons_self
    rcases hk _ _ hlt with hlt | hlt
    · exact absurd hlt (hp.same e List.mem_cons_self).1
    · exact absurd hlt (hp.same e' (List.mem_cons_of_mem _ List.mem_cons_self)).2

end

section

variable {lt : κ → κ → Prop} [IsStrictOrder κ lt] {k : κ} {v : α} {l A M B : List (κ × α)}

/-- **A key cuts the entries into three parts.** -/
theorem exists_parts (k : κ) (h : Sorted lt l) : ∃ A M B, Parts lt k l A M B := by
  induction l with
  | nil => exact ⟨[], [], [], rfl, by simp, by simp, by simp⟩
  | cons e l ih =>
    obtain ⟨he, hl⟩ := List.pairwise_cons.1 h
    by_cases hafter : lt k e.1
    · refine ⟨[], [], e :: l, rfl, by simp, by simp, ?_⟩
      intro x hx
      rcases List.mem_cons.1 hx with rfl | hx
      · exact hafter
      · exact trans_of lt hafter (he x hx)
    obtain ⟨A, M, B, hp⟩ := ih hl
    by_cases hbefore : lt e.1 k
    · refine ⟨e :: A, M, B, by rw [hp.eq, List.cons_append], ?_, hp.same, hp.after⟩
      intro x hx
      rcases List.mem_cons.1 hx with rfl | hx
      · exact hbefore
      · exact hp.before x hx
    · -- what is before the key would be after an entry that is not
      have hA : A = [] := by
        refine List.eq_nil_iff_forall_not_mem.2 fun x hx => hbefore ?_
        have hxl : x ∈ l := by
          rw [hp.eq]
          exact List.mem_append_left _ hx
        exact trans_of lt (he x hxl) (hp.before x hx)
      subst hA
      refine ⟨[], e :: M, B, by rw [hp.eq]; rfl, by simp, ?_, hp.after⟩
      intro x hx
      rcases List.mem_cons.1 hx with rfl | hx
      · exact ⟨hbefore, hafter⟩
      · exact hp.same x hx

variable [DecidableRel lt]

theorem Parts.lowerBound_eq (hp : Parts lt k l A M B) : lowerBound lt k l = M ++ B := by
  rw [lowerBound, hp.eq, List.dropWhile_append_of_pos fun e he => by simpa using hp.before e he]
  have hfirst : ∀ e ∈ M ++ B, ¬lt e.1 k := by
    intro e he
    rcases List.mem_append.1 he with he | he
    · exact (hp.same e he).1
    · exact fun h => irrefl_of lt k (trans_of lt (hp.after e he) h)
  cases hMB : M ++ B with
  | nil => rfl
  | cons e l => simp [hfirst e (hMB ▸ List.mem_cons_self)]

/-- **`find`** finds the first entry of the middle part. -/
theorem Parts.find?_eq (hp : Parts lt k l A M B) : find? lt k l = M.head? := by
  rw [find?, hp.lowerBound_eq]
  cases M with
  | cons m M => simp [(hp.same m List.mem_cons_self).2]
  | nil =>
    cases B with
    | nil => rfl
    | cons b B => simp [hp.after b List.mem_cons_self]

/-- **`erase`** takes out the first entry of the middle part. -/
theorem Parts.erase_eq (hp : Parts lt k l A M B) : erase lt k l = A ++ (M.tail ++ B) := by
  have htake : ∀ C, (∀ e ∈ C, ¬lt e.1 k) →
      ((A ++ C).takeWhile fun e => decide (lt e.1 k)) = A := by
    intro C hC
    rw [List.takeWhile_append_of_pos fun e he => by simpa using hp.before e he]
    cases C with
    | nil => simp
    | cons c C => simp [hC c List.mem_cons_self]
  have hlate : ∀ e ∈ M ++ B, ¬lt e.1 k := by
    intro e he
    rcases List.mem_append.1 he with he | he
    · exact (hp.same e he).1
    · exact fun h => irrefl_of lt k (trans_of lt (hp.after e he) h)
  rw [erase, hp.find?_eq]
  cases M with
  | nil => exact hp.eq
  | cons m M =>
    rw [List.head?_cons, hp.lowerBound_eq, hp.eq]
    dsimp only
    rw [htake _ hlate]
    rfl

/-- **`insert`** between the parts, when the middle part is empty. -/
theorem Parts.insert_eq (hp : Parts lt k l A [] B) : insert lt k v l = A ++ (k, v) :: B := by
  have hnot : ∀ e ∈ A, ¬lt k e.1 := fun e he h =>
    irrefl_of lt k (trans_of lt h (hp.before e he))
  have htake : (l.takeWhile fun e => decide ¬lt k e.1) = A := by
    rw [hp.eq, List.nil_append,
      List.takeWhile_append_of_pos fun e he => by simpa using hnot e he]
    cases B with
    | nil => simp
    | cons b B => simp [hp.after b List.mem_cons_self]
  have hdrop : (l.dropWhile fun e => decide ¬lt k e.1) = B := by
    rw [hp.eq, List.nil_append,
      List.dropWhile_append_of_pos fun e he => by simpa using hnot e he]
    cases B with
    | nil => rfl
    | cons b B => simp [hp.after b List.mem_cons_self]
  rw [insert, htake, hdrop]
  cases hlast : A.getLast? with
  | none =>
    rw [List.getLast?_eq_none_iff] at hlast
    subst hlast
    rw [hp.eq]
    rfl
  | some e =>
    exact if_pos (hp.before e (List.mem_of_getLast? hlast))

/-- **`insert`** changes nothing when the middle part is not empty. -/
theorem Parts.insert_eq_self (hp : Parts lt k l A M B) (hM : M ≠ []) : insert lt k v l = l := by
  have hnot : ∀ e ∈ A ++ M, ¬lt k e.1 := by
    intro e he h
    rcases List.mem_append.1 he with he | he
    · exact irrefl_of lt k (trans_of lt h (hp.before e he))
    · exact (hp.same e he).2 h
  have htake : (l.takeWhile fun e => decide ¬lt k e.1) = A ++ M := by
    rw [hp.eq, ← List.append_assoc,
      List.takeWhile_append_of_pos fun e he => by simpa using hnot e he]
    cases B with
    | nil => simp
    | cons b B => simp [hp.after b List.mem_cons_self]
  rw [insert, htake, List.getLast?_append]
  cases hlast : M.getLast? with
  | none => exact absurd (List.getLast?_eq_none_iff.1 hlast) hM
  | some e => exact if_neg (hp.same e (List.mem_of_getLast? hlast)).1

/-- An entry that the key cannot be told from keeps it out. -/
theorem insert_eq_self (h : Sorted lt l) {e : κ × α} (he : e ∈ l) (hlt : ¬lt e.1 k)
    (hgt : ¬lt k e.1) : insert lt k v l = l := by
  obtain ⟨A, M, B, hp⟩ := exists_parts k h
  refine hp.insert_eq_self fun hM => ?_
  exact (hp.same_eq_nil_iff.1 hM e he).elim hlt hgt

/-- A key that can be told from those of all entries is inserted. -/
theorem insert_perm (h : Sorted lt l) (hor : ∀ e ∈ l, lt e.1 k ∨ lt k e.1) :
    (insert lt k v l).Perm ((k, v) :: l) := by
  obtain ⟨A, M, B, hp⟩ := exists_parts k h
  obtain rfl := hp.same_eq_nil_iff.2 hor
  rw [hp.insert_eq, hp.eq, List.nil_append]
  exact List.perm_middle

theorem sorted_insert (h : Sorted lt l) (k : κ) (v : α) : Sorted lt (insert lt k v l) := by
  obtain ⟨A, M, B, hp⟩ := exists_parts k h
  by_cases hM : M = []
  · subst hM
    rw [hp.insert_eq]
    unfold Sorted at h ⊢
    rw [hp.eq, List.nil_append, List.pairwise_append] at h
    obtain ⟨hA, hB, hAB⟩ := h
    refine List.pairwise_append.2 ⟨hA, List.pairwise_cons.2 ⟨hp.after, hB⟩, ?_⟩
    intro a ha b hb
    rcases List.mem_cons.1 hb with rfl | hb
    · exact hp.before a ha
    · exact hAB a ha b hb
  · rw [hp.insert_eq_self hM]
    exact h

theorem sorted_erase (h : Sorted lt l) (k : κ) : Sorted lt (erase lt k l) := by
  obtain ⟨A, M, B, hp⟩ := exists_parts k h
  rw [hp.erase_eq]
  unfold Sorted at h ⊢
  rw [hp.eq] at h
  exact h.sublist ((List.Sublist.refl A).append ((List.tail_sublist M).append (.refl B)))

end

section Point

variable {lt : κ → κ → Prop} [IsStrictOrder κ lt] [DecidableRel lt] {k : κ} {v : α}
  {l A M B : List (κ × α)}

/-- **A key that separates all others finds the entry that it cannot be told from.** -/
theorem find?_eq_some_iff (h : Sorted lt l) (hk : ∀ a b, lt a b → lt a k ∨ lt k b) {e : κ × α} :
    find? lt k l = some e ↔ e ∈ l ∧ ¬lt e.1 k ∧ ¬lt k e.1 := by
  obtain ⟨A, M, B, hp⟩ := exists_parts k h
  rw [hp.find?_eq]
  constructor
  · intro he
    have heM := List.mem_of_mem_head? he
    refine ⟨?_, hp.same e heM⟩
    rw [hp.eq]
    exact List.mem_append_right _ (List.mem_append_left _ heM)
  · rintro ⟨he, hlt, hgt⟩
    have heM : e ∈ M := by
      rw [hp.eq] at he
      rcases List.mem_append.1 he with he | he
      · exact absurd (hp.before e he) hlt
      rcases List.mem_append.1 he with he | he
      · exact he
      · exact absurd (hp.after e he) hgt
    rcases hp.same_of_point h hk with rfl | ⟨e', rfl⟩
    · exact nomatch heM
    · rw [List.mem_singleton.1 heM, List.head?_cons]

/-- What it erases is this entry. -/
theorem erase_eq_filter (h : Sorted lt l) (hk : ∀ a b, lt a b → lt a k ∨ lt k b) :
    erase lt k l = l.filter fun e => decide (lt e.1 k ∨ lt k e.1) := by
  obtain ⟨A, M, B, hp⟩ := exists_parts k h
  have hA : A.filter (fun e => decide (lt e.1 k ∨ lt k e.1)) = A :=
    List.filter_eq_self.2 fun e he => decide_eq_true (.inl (hp.before e he))
  have hB : B.filter (fun e => decide (lt e.1 k ∨ lt k e.1)) = B :=
    List.filter_eq_self.2 fun e he => decide_eq_true (.inr (hp.after e he))
  have hM : M.filter (fun e => decide (lt e.1 k ∨ lt k e.1)) = [] := by
    refine List.filter_eq_nil_iff.2 fun e he => ?_
    have hsame := hp.same e he
    simp [hsame.1, hsame.2]
  rw [hp.erase_eq, hp.eq, List.filter_append, List.filter_append, hA, hB, hM]
  rcases hp.same_of_point h hk with rfl | ⟨e', rfl⟩ <;> rfl

end Point

end ComparatorMap

end Codrive.Basis
