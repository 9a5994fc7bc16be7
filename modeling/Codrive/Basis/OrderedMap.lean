/-
# Ordered maps as sorted lists of entries

`std::map` walks its entries in key order, and the code that uses it steps from an
entry to its neighbours.  `OrderedMap` keeps the entries themselves, in increasing
key order and with the order as a field, so that what an operation does is said on a
decomposition `A ++ (k, v) :: B` of the entries:

| operation | entries before | entries after |
|---|---|---|
| `set k w` | `A ++ (k, v) :: B` | `A ++ (k, w) :: B` |
| `set k w` | `A ++ B`, `k` between | `A ++ (k, w) :: B` |
| `update? k f` | `A ++ (k, v) :: B` | `A ++ (k, f v) :: B` |
| `erase k` | `A ++ (k, v) :: B` | `A ++ B` |
-/

import Mathlib.Data.List.Pairwise
import Mathlib.Order.Basic
import Mathlib.Order.Lattice
import Mathlib.Tactic.Common

namespace Codrive.Basis

/-- A finite map over linearly ordered keys: its entries in increasing key order. -/
@[ext]
structure OrderedMap (κ α : Type) [LinearOrder κ] where
  /-- The entries, in the order `begin()` to `end()` visits them. -/
  entries : List (κ × α)
  /-- Keys increase strictly. -/
  sorted : entries.Pairwise fun a b => a.1 < b.1

namespace OrderedMap

variable {κ α : Type} [LinearOrder κ]

/-- Insertion of an entry into a list of entries in key order, replacing the entry of
the same key. -/
def insertEntry (k : κ) (v : α) : List (κ × α) → List (κ × α)
  | [] => [(k, v)]
  | e :: l =>
    if k < e.1 then (k, v) :: e :: l
    else if e.1 < k then e :: insertEntry k v l
    else (k, v) :: l

theorem insertEntry_append_of_lt (k : κ) (v : α) (A B : List (κ × α))
    (hA : ∀ e ∈ A, e.1 < k) : insertEntry k v (A ++ B) = A ++ insertEntry k v B := by
  induction A with
  | nil => rfl
  | cons e A ih =>
    have he : e.1 < k := hA e (List.mem_cons_self ..)
    rw [List.cons_append, insertEntry, if_neg he.asymm, if_pos he,
      ih fun x hx => hA x (List.mem_cons_of_mem _ hx), List.cons_append]

theorem insertEntry_of_forall_lt (k : κ) (v : α) (B : List (κ × α)) (hB : ∀ e ∈ B, k < e.1) :
    insertEntry k v B = (k, v) :: B := by
  cases B with
  | nil => rfl
  | cons e B => rw [insertEntry, if_pos (hB e (List.mem_cons_self ..))]

theorem mem_insertEntry {k : κ} {v : α} {l : List (κ × α)} {x : κ × α}
    (h : x ∈ insertEntry k v l) : x = (k, v) ∨ x ∈ l := by
  induction l with
  | nil => exact .inl (List.mem_singleton.1 h)
  | cons e l ih =>
    rw [insertEntry] at h
    split_ifs at h with h₁ h₂
    · exact List.mem_cons.1 h
    · rcases List.mem_cons.1 h with rfl | h
      · exact .inr (List.mem_cons_self ..)
      · exact (ih h).imp_right (List.mem_cons_of_mem _)
    · exact (List.mem_cons.1 h).imp_right (List.mem_cons_of_mem _)

theorem pairwise_insertEntry (k : κ) (v : α) (l : List (κ × α))
    (h : l.Pairwise fun a b => a.1 < b.1) :
    (insertEntry k v l).Pairwise fun a b => a.1 < b.1 := by
  induction l with
  | nil => exact List.pairwise_singleton ..
  | cons e l ih =>
    have hl := List.pairwise_cons.1 h
    rw [insertEntry]
    split_ifs with h₁ h₂
    · refine List.pairwise_cons.2 ⟨fun x hx => ?_, h⟩
      rcases List.mem_cons.1 hx with rfl | hx
      · exact h₁
      · exact h₁.trans (hl.1 x hx)
    · refine List.pairwise_cons.2 ⟨fun x hx => ?_, ih hl.2⟩
      rcases mem_insertEntry hx with rfl | hx
      · exact h₂
      · exact hl.1 x hx
    · have hk : k = e.1 := le_antisymm (not_lt.1 h₂) (not_lt.1 h₁)
      exact List.pairwise_cons.2 ⟨fun x hx => hk ▸ hl.1 x hx, hl.2⟩

/-- The map without entries. -/
def empty : OrderedMap κ α := ⟨[], .nil⟩

/-- The value at a key. -/
def find? (m : OrderedMap κ α) (k : κ) : Option α :=
  (m.entries.find? fun e => e.1 = k).map Prod.snd

/-- `m[k] = v`. -/
def set (m : OrderedMap κ α) (k : κ) (v : α) : OrderedMap κ α :=
  ⟨insertEntry k v m.entries, pairwise_insertEntry k v _ m.sorted⟩

/-- `m[k]` as a statement: an absent key gets the value `d`. -/
def touch (m : OrderedMap κ α) (k : κ) (d : α) : OrderedMap κ α :=
  if (m.find? k).isSome then m else m.set k d

/-- Writing through an iterator at key `k`; there is no such iterator when `k` is absent. -/
def update? (m : OrderedMap κ α) (k : κ) (f : α → α) : Option (OrderedMap κ α) :=
  (m.find? k).map fun v => m.set k (f v)

/-- `m.erase(k)`. -/
def erase (m : OrderedMap κ α) (k : κ) : OrderedMap κ α :=
  ⟨m.entries.filter fun e => e.1 ≠ k, m.sorted.filter _⟩

/-- `m.begin()`: the least key, `none` standing for `m.end()`. -/
def first? (m : OrderedMap κ α) : Option κ := m.entries.head?.map Prod.fst

/-- `--m.end()`, or `m.rbegin()`: the entry of the greatest key. -/
def last? (m : OrderedMap κ α) : Option (κ × α) := m.entries.getLast?

/-- The entries below a key, nearest first: what `--it` steps through. -/
def below (m : OrderedMap κ α) (k : κ) : List (κ × α) :=
  (m.entries.filter fun e => e.1 < k).reverse

/-- `++it`: the first entry above a key. -/
def above? (m : OrderedMap κ α) (k : κ) : Option (κ × α) :=
  m.entries.find? fun e => k < e.1

/-- `--m.upper_bound(k)`: the last entry at or below a key, `none` when `upper_bound` is
`begin()`. -/
def floor? (m : OrderedMap κ α) (k : κ) : Option (κ × α) :=
  (m.entries.filter fun e => e.1 ≤ k).getLast?

/-- The same keys with other values: a loop over the entries that writes each value. -/
def mapValues (m : OrderedMap κ α) (f : α → α) : OrderedMap κ α :=
  ⟨m.entries.map fun e => (e.1, f e.2), by
    rw [List.pairwise_map]
    exact m.sorted⟩

/-! ### Lookups -/

@[simp] theorem entries_empty : (empty : OrderedMap κ α).entries = [] := rfl

theorem entries_set (m : OrderedMap κ α) (k : κ) (v : α) :
    (m.set k v).entries = insertEntry k v m.entries := rfl

theorem entries_erase (m : OrderedMap κ α) (k : κ) :
    (m.erase k).entries = m.entries.filter fun e => e.1 ≠ k := rfl

theorem lt_of_entries {m : OrderedMap κ α} {A B : List (κ × α)} {k : κ} {v : α}
    (h : m.entries = A ++ (k, v) :: B) : (∀ e ∈ A, e.1 < k) ∧ ∀ e ∈ B, k < e.1 := by
  have hs := m.sorted
  rw [h, List.pairwise_append, List.pairwise_cons] at hs
  exact ⟨fun e he => hs.2.2 e he (k, v) (List.mem_cons_self ..), hs.2.1.1⟩

theorem find?_of_entries {m : OrderedMap κ α} {A B : List (κ × α)} {k : κ} {v : α}
    (h : m.entries = A ++ (k, v) :: B) : m.find? k = some v := by
  have hA : A.find? (fun e => decide (e.1 = k)) = none :=
    List.find?_eq_none.2 fun e he => by simpa using ((lt_of_entries h).1 e he).ne
  rw [find?, h, List.find?_append, hA]
  simp

theorem mem_of_find? {m : OrderedMap κ α} {k : κ} {v : α} (h : m.find? k = some v) :
    (k, v) ∈ m.entries := by
  obtain ⟨⟨k', v'⟩, he, rfl⟩ := Option.map_eq_some_iff.1 h
  have hk : k' = k := by simpa using List.find?_some he
  exact hk ▸ List.mem_of_find?_eq_some he

/-- **A key that is found splits the entries at it.** -/
theorem exists_entries_of_find? {m : OrderedMap κ α} {k : κ} {v : α} (h : m.find? k = some v) :
    ∃ A B, m.entries = A ++ (k, v) :: B :=
  List.append_of_mem (mem_of_find? h)

theorem find?_eq_some_iff {m : OrderedMap κ α} {k : κ} {v : α} :
    m.find? k = some v ↔ (k, v) ∈ m.entries := by
  refine ⟨mem_of_find?, fun h => ?_⟩
  obtain ⟨A, B, h⟩ := List.append_of_mem h
  exact find?_of_entries h

theorem find?_eq_none_iff {m : OrderedMap κ α} {k : κ} :
    m.find? k = none ↔ ∀ e ∈ m.entries, e.1 ≠ k := by
  rw [find?, Option.map_eq_none_iff, List.find?_eq_none]
  simp

/-- A key that is not found splits the entries where it would stand. -/
theorem exists_entries_of_find?_none {m : OrderedMap κ α} {k : κ} (h : m.find? k = none) :
    ∃ A B, m.entries = A ++ B ∧ (∀ e ∈ A, e.1 < k) ∧ ∀ e ∈ B, k < e.1 := by
  have hne := find?_eq_none_iff.1 h
  have hs := m.sorted
  generalize m.entries = l at hne hs
  induction l with
  | nil => exact ⟨[], [], rfl, by simp, by simp⟩
  | cons e l ih =>
    obtain ⟨hel, hl⟩ := List.pairwise_cons.1 hs
    rcases lt_or_gt_of_ne (hne e (List.mem_cons_self ..)) with hlt | hgt
    · obtain ⟨A, B, rfl, hA, hB⟩ := ih (fun x hx => hne x (List.mem_cons_of_mem _ hx)) hl
      refine ⟨e :: A, B, rfl, fun x hx => ?_, hB⟩
      rcases List.mem_cons.1 hx with rfl | hx
      · exact hlt
      · exact hA x hx
    · refine ⟨[], e :: l, rfl, by simp, fun x hx => ?_⟩
      rcases List.mem_cons.1 hx with rfl | hx
      · exact hgt
      · exact hgt.trans (hel x hx)

/-! ### Writes -/

theorem entries_set_of_lt {m : OrderedMap κ α} {A B : List (κ × α)} (k : κ) (v : α)
    (h : m.entries = A ++ B) (hA : ∀ e ∈ A, e.1 < k) (hB : ∀ e ∈ B, k < e.1) :
    (m.set k v).entries = A ++ (k, v) :: B := by
  rw [entries_set, h, insertEntry_append_of_lt k v A B hA, insertEntry_of_forall_lt k v B hB]

theorem entries_set_of_entries {m : OrderedMap κ α} {A B : List (κ × α)} {k : κ} {v : α} (w : α)
    (h : m.entries = A ++ (k, v) :: B) : (m.set k w).entries = A ++ (k, w) :: B := by
  rw [entries_set, h, insertEntry_append_of_lt k w A _ (lt_of_entries h).1, insertEntry,
    if_neg (lt_irrefl k), if_neg (lt_irrefl k)]

theorem entries_touch_of_lt {m : OrderedMap κ α} {A B : List (κ × α)} (k : κ) (d : α)
    (h : m.entries = A ++ B) (hA : ∀ e ∈ A, e.1 < k) (hB : ∀ e ∈ B, k < e.1) :
    (m.touch k d).entries = A ++ (k, d) :: B := by
  have hn : m.find? k = none := by
    refine find?_eq_none_iff.2 fun e he => ?_
    rw [h, List.mem_append] at he
    exact he.elim (fun he => (hA e he).ne) fun he => (hB e he).ne'
  rw [touch, hn]
  exact entries_set_of_lt k d h hA hB

theorem exists_update? {m : OrderedMap κ α} {A B : List (κ × α)} {k : κ} {v : α} (f : α → α)
    (h : m.entries = A ++ (k, v) :: B) :
    ∃ m', m.update? k f = some m' ∧ m'.entries = A ++ (k, f v) :: B :=
  ⟨m.set k (f v), by rw [update?, find?_of_entries h, Option.map_some],
    entries_set_of_entries _ h⟩

theorem entries_erase_of_entries {m : OrderedMap κ α} {A B : List (κ × α)} {k : κ} {v : α}
    (h : m.entries = A ++ (k, v) :: B) : (m.erase k).entries = A ++ B := by
  have hA : A.filter (fun e => decide (e.1 ≠ k)) = A :=
    List.filter_eq_self.2 fun e he => by simpa using ((lt_of_entries h).1 e he).ne
  have hB : B.filter (fun e => decide (e.1 ≠ k)) = B :=
    List.filter_eq_self.2 fun e he => by simpa using ((lt_of_entries h).2 e he).ne'
  rw [entries_erase, h, List.filter_append, List.filter_cons_of_neg (by simp), hA, hB]

/-- **A write is found at its key** and nowhere else. -/
theorem find?_set (m : OrderedMap κ α) (k : κ) (v : α) (k' : κ) :
    (m.set k v).find? k' = if k' = k then some v else m.find? k' := by
  obtain ⟨A, B, hset, hmem⟩ : ∃ A B, (m.set k v).entries = A ++ (k, v) :: B ∧
      ∀ x : κ × α, x.1 ≠ k → (x ∈ m.entries ↔ x ∈ A ++ (k, v) :: B) := by
    cases hf : m.find? k with
    | none =>
      obtain ⟨A, B, hl, hA, hB⟩ := exists_entries_of_find?_none hf
      refine ⟨A, B, entries_set_of_lt k v hl hA hB, fun x hx => ?_⟩
      have hne : x ≠ (k, v) := fun h => hx (congrArg Prod.fst h)
      simp [hl, hne]
    | some w =>
      obtain ⟨A, B, hl⟩ := exists_entries_of_find? hf
      refine ⟨A, B, entries_set_of_entries v hl, fun x hx => ?_⟩
      have hne : ∀ w, x ≠ (k, w) := fun w h => hx (congrArg Prod.fst h)
      simp [hl, hne]
  split
  · rename_i hk
    subst hk
    exact find?_of_entries hset
  · rename_i hk
    refine Option.ext fun w => ?_
    rw [find?_eq_some_iff, find?_eq_some_iff, hset, hmem (k', w) hk]

theorem find?_update? {m m' : OrderedMap κ α} {k : κ} {f : α → α} (h : m.update? k f = some m')
    (k' : κ) : m'.find? k' = if k' = k then (m.find? k').map f else m.find? k' := by
  obtain ⟨v, hv, rfl⟩ := Option.map_eq_some_iff.1 h
  rw [find?_set]
  split
  · subst k'
    rw [hv, Option.map_some]
  · rfl

theorem find?_erase (m : OrderedMap κ α) (k k' : κ) :
    (m.erase k).find? k' = if k' = k then none else m.find? k' := by
  refine Option.ext fun w => ?_
  rw [find?_eq_some_iff, entries_erase, List.mem_filter]
  split
  · rename_i hk
    simp [hk]
  · rename_i hk
    simp [hk, find?_eq_some_iff]

@[simp] theorem entries_mapValues (m : OrderedMap κ α) (f : α → α) :
    (m.mapValues f).entries = m.entries.map fun e => (e.1, f e.2) := rfl

theorem find?_mapValues (m : OrderedMap κ α) (f : α → α) (k : κ) :
    (m.mapValues f).find? k = (m.find? k).map f := by
  unfold find?
  rw [entries_mapValues, List.find?_map, Option.map_map, Option.map_map]
  rfl

/-! ### Neighbours -/

theorem first?_of_forall_le {m : OrderedMap κ α} {k : κ} {v : α} (hk : (k, v) ∈ m.entries)
    (hle : ∀ e ∈ m.entries, k ≤ e.1) : m.first? = some k := by
  obtain ⟨A, B, h⟩ := List.append_of_mem hk
  cases A with
  | nil => rw [first?, h]; rfl
  | cons e A =>
    have he : e.1 < k := (lt_of_entries h).1 e (List.mem_cons_self ..)
    exact absurd (hle e (h ▸ List.mem_cons_self ..)) he.not_ge

theorem last?_of_forall_le {m : OrderedMap κ α} {k : κ} {v : α} (hk : (k, v) ∈ m.entries)
    (hle : ∀ e ∈ m.entries, e.1 ≤ k) : m.last? = some (k, v) := by
  obtain ⟨A, B, h⟩ := List.append_of_mem hk
  cases B with
  | nil => rw [last?, h, List.getLast?_append]; rfl
  | cons e B =>
    have he : k < e.1 := (lt_of_entries h).2 e (List.mem_cons_self ..)
    exact absurd (hle e (h ▸ List.mem_append_right _ (List.mem_cons_of_mem _
      (List.mem_cons_self ..)))) he.not_ge

theorem below_of_entries {m : OrderedMap κ α} {A B : List (κ × α)} {k : κ} {v : α}
    (h : m.entries = A ++ (k, v) :: B) : m.below k = A.reverse := by
  have hA : A.filter (fun e => decide (e.1 < k)) = A :=
    List.filter_eq_self.2 fun e he => by simpa using (lt_of_entries h).1 e he
  have hB : B.filter (fun e => decide (e.1 < k)) = [] :=
    List.filter_eq_nil_iff.2 fun e he => by simpa using ((lt_of_entries h).2 e he).le
  rw [below, h, List.filter_append, List.filter_cons_of_neg (by simp), hA, hB, List.append_nil]

theorem above?_of_entries {m : OrderedMap κ α} {A B : List (κ × α)} {k : κ} {v : α}
    (h : m.entries = A ++ (k, v) :: B) : m.above? k = B.head? := by
  have hA : A.find? (fun e => decide (k < e.1)) = none :=
    List.find?_eq_none.2 fun e he => by simpa using ((lt_of_entries h).1 e he).le
  have hB := (lt_of_entries h).2
  rw [above?, h, List.find?_append, hA, Option.none_or, List.find?_cons_of_neg (by simp)]
  cases B with
  | nil => rfl
  | cons e B => rw [List.find?_cons_of_pos (by simpa using hB e (List.mem_cons_self ..))]; rfl

theorem floor?_of_entries {m : OrderedMap κ α} {A B : List (κ × α)} {k k' : κ} {v : α}
    (h : m.entries = A ++ (k, v) :: B) (hk : k ≤ k') (hB : ∀ e ∈ B, k' < e.1) :
    m.floor? k' = some (k, v) := by
  have hB' : B.filter (fun e => decide (e.1 ≤ k')) = [] :=
    List.filter_eq_nil_iff.2 fun e he => by simpa using hB e he
  rw [floor?, h, List.filter_append, List.filter_cons_of_pos (by simpa using hk), hB']
  simp

/-- **What `floor?` finds is the last key at or below.** -/
theorem floor?_eq_some {m : OrderedMap κ α} {k k' : κ} {v : α} (h : m.floor? k' = some (k, v)) :
    m.find? k = some v ∧ k ≤ k' ∧ ∀ e ∈ m.entries, e.1 ≤ k' → e.1 ≤ k := by
  obtain ⟨l, hl⟩ := List.getLast?_eq_some_iff.1 h
  have hs := m.sorted.filter (p := fun e => decide (e.1 ≤ k'))
  rw [hl, List.pairwise_append] at hs
  have hmem : (k, v) ∈ m.entries.filter fun e => decide (e.1 ≤ k') :=
    hl ▸ List.mem_append_right _ (List.mem_singleton.2 rfl)
  obtain ⟨hin, hle⟩ := List.mem_filter.1 hmem
  refine ⟨find?_eq_some_iff.2 hin, of_decide_eq_true hle, fun e he hek => ?_⟩
  have he' : e ∈ m.entries.filter fun e => decide (e.1 ≤ k') :=
    List.mem_filter.2 ⟨he, decide_eq_true hek⟩
  rw [hl, List.mem_append, List.mem_singleton] at he'
  rcases he' with he' | rfl
  · exact (hs.2.2 e he' (k, v) (List.mem_singleton.2 rfl)).le
  · exact le_refl k

theorem floor?_eq_none {m : OrderedMap κ α} {k : κ} (h : m.floor? k = none) :
    ∀ e ∈ m.entries, k < e.1 := by
  intro e he
  have hno := List.filter_eq_nil_iff.1 (List.getLast?_eq_none_iff.1 h) e he
  rw [decide_eq_true_eq] at hno
  exact not_le.1 hno

/-- What `floor?` finds splits the entries at it. -/
theorem exists_entries_of_floor? {m : OrderedMap κ α} {k k' : κ} {v : α}
    (h : m.floor? k' = some (k, v)) : k ≤ k' ∧ ∃ A B, m.entries = A ++ (k, v) :: B := by
  have hm := List.mem_of_getLast? h
  rw [List.mem_filter] at hm
  exact ⟨by simpa using hm.2, List.append_of_mem hm.1⟩

end OrderedMap

end Codrive.Basis
