/-
# Pools with a rotating cursor

A pool of items, each with a flag that says whether it is in use.  An item is looked for from the
cursor on and once around; if all are in use, the pool grows, and the first new item is taken.
Positions and the cursor are words of 32 bits; the cursor moves behind the item that was taken.

The search finds a free item if there is one (`find_eq_none_iff`).  As long as the positions are
words, taking and giving back keep the cursor in the pool (`Got`, `Inv.release`), and the flags are
those of the items that are held (`Held`).
-/

import Codrive.Basis.Machine
import Mathlib.Data.List.Basic
import Mathlib.Data.List.Nodup
import Mathlib.Data.Int.Notation

namespace Codrive.Basis

/-- Items, their flags, and the cursor. -/
structure CursorPool (α : Type) where
  items : List α
  flags : List Bool
  cursor : ℕ

namespace CursorPool

variable {α : Type}

/-- The cursor moves to the next position, or to the first one. -/
def next (size cursor : ℕ) : ℕ := if wrap 32 (cursor + 1) = size then 0 else wrap 32 (cursor + 1)

/-- The search from behind a position until it comes to `start`, over so many positions. -/
def scan (flags : List Bool) (start : ℕ) : ℕ → ℕ → Option ℕ
  | 0, _ => none
  | count + 1, cursor =>
    let cursor := next flags.length cursor
    if flags.getD cursor true = false then some cursor
    else if cursor = start then none
    else scan flags start count cursor

variable (p : CursorPool α)

/-- The first free item from the cursor on. -/
def find : Option ℕ :=
  if p.flags.getD p.cursor true = false then some p.cursor
  else scan p.flags p.cursor p.flags.length p.cursor

/-- The item is in use from now on, and the cursor is behind it. -/
def take (i : ℕ) : CursorPool α :=
  { p with flags := p.flags.set i true, cursor := next p.items.length i }

/-- More items, none of which is in use. -/
def grow (more : List α) : CursorPool α :=
  { p with items := p.items ++ more, flags := p.flags ++ List.replicate more.length false }

/-- An item and its position; `more` is what the pool grows by if all of it is in use, or `none` if
it cannot grow. -/
def get (ndebug : Bool) (more : Option (List α)) : Option (α × ℕ × CursorPool α) :=
  match p.find with
  | some i => p.items[i]?.map fun a => (a, i, p.take i)
  | none => do
    let oldSize := wrap 32 p.items.length
    let oldFlagSize := wrap 32 p.flags.length
    assert ndebug (oldSize = oldFlagSize)
    let more ← more
    let p := p.grow more
    assert ndebug (p.items.length = wrap 32 (oldSize + more.length))
    assert ndebug (p.flags.length = wrap 32 (oldFlagSize + more.length))
    p.items[oldSize]?.map fun a => (a, oldSize, p.take oldSize)

@[simp] theorem items_take (i : ℕ) : (p.take i).items = p.items := rfl

@[simp] theorem items_grow (more : List α) : (p.grow more).items = p.items ++ more := rfl

/-- The item is free again. -/
def release (i : ℕ) : CursorPool α := { p with flags := p.flags.set i false }

/-- The item is in use. -/
def InUse (i : ℕ) : Prop := p.flags[i]? = some true

/-- Every item is in use. -/
def Full : Prop := ∀ i < p.items.length, p.InUse i

/-- **The invariant**: each item has a flag, and the cursor is at one of them. -/
structure Inv (p : CursorPool α) : Prop where
  length : p.flags.length = p.items.length
  cursor : p.cursor < p.items.length
  lt : p.items.length < 2 ^ 32

/-! ### The search -/

section Search

variable {flags : List Bool} {start c k n i : ℕ}

theorem next_eq (h : c < n) (hn : n < 2 ^ 32) : next n c = (c + 1) % n := by
  unfold next
  rw [wrap_of_lt (by omega)]
  by_cases heq : c + 1 = n
  · rw [if_pos heq, heq, Nat.mod_self]
  · rw [if_neg heq, Nat.mod_eq_of_lt (by omega)]

theorem next_lt (h : c < n) (hn : n < 2 ^ 32) : next n c < n := by
  rw [next_eq h hn]
  exact Nat.mod_lt _ (by omega)

theorem getD_eq_false (h : flags.getD i true = false) : flags[i]? = some false := by
  rw [List.getD_eq_getElem?_getD] at h
  rcases hi : flags[i]? with _ | b
  · rw [hi] at h
    exact nomatch h
  · rw [hi] at h
    exact congrArg some h

theorem eq_some_true_of_getD (hi : i < flags.length) (h : flags.getD i true = true) :
    flags[i]? = some true := by
  rw [List.getD_eq_getElem?_getD, List.getElem?_eq_getElem hi] at h
  rw [List.getElem?_eq_getElem hi]
  exact congrArg some h

/-- What the search finds is free. -/
theorem scan_eq_some (h : scan flags start k c = some i) : flags[i]? = some false := by
  induction k generalizing c with
  | zero => exact nomatch h
  | succ k ih =>
    unfold scan at h
    dsimp only at h
    by_cases hfree : flags.getD (next flags.length c) true = false
    · rw [if_pos hfree] at h
      obtain rfl := Option.some.inj h
      exact getD_eq_false hfree
    · rw [if_neg hfree] at h
      by_cases hstart : next flags.length c = start
      · rw [if_pos hstart] at h
        exact nomatch h
      · rw [if_neg hstart] at h
        exact ih h

/-- **A search that finds nothing has seen every item behind where it began**, which is `k` items
behind the start. -/
theorem scan_eq_none (hn : flags.length < 2 ^ 32) (hstart : start < flags.length)
    (hk : k < flags.length)
    (h : scan flags start (flags.length - k) ((start + k) % flags.length) = none) :
    ∀ j, k < j → j ≤ flags.length → flags.getD ((start + j) % flags.length) true = true := by
  generalize hm : flags.length - k = m at h
  induction m generalizing k with
  | zero => omega
  | succ m ih =>
    have hlt : (start + k) % flags.length < flags.length := Nat.mod_lt _ (by omega)
    have hnext : next flags.length ((start + k) % flags.length) =
        (start + (k + 1)) % flags.length := by
      rw [next_eq hlt hn, Nat.mod_add_mod, Nat.add_assoc]
    unfold scan at h
    dsimp only at h
    rw [hnext] at h
    by_cases hfree : flags.getD ((start + (k + 1)) % flags.length) true = false
    · rw [if_pos hfree] at h
      exact nomatch h
    rw [if_neg hfree] at h
    rw [Bool.not_eq_false] at hfree
    intro j hkj hj
    by_cases hjk : j = k + 1
    · rw [hjk]
      exact hfree
    by_cases hlast : (start + (k + 1)) % flags.length = start
    · -- The search is back at the start only after all positions.
      have hfull : k + 1 = flags.length := by
        by_cases hwrap : start + (k + 1) < flags.length
        · rw [Nat.mod_eq_of_lt hwrap] at hlast
          omega
        · rw [Nat.mod_eq_sub_mod (by omega)] at hlast
          by_cases hagain : start + (k + 1) - flags.length < flags.length
          · rw [Nat.mod_eq_of_lt hagain] at hlast
            omega
          · omega
      omega
    · rw [if_neg hlast] at h
      have hk1 : k + 1 < flags.length := by
        by_contra hge
        have hfull : k + 1 = flags.length := by omega
        rw [hfull, Nat.add_mod_right, Nat.mod_eq_of_lt hstart] at hlast
        exact hlast rfl
      exact ih hk1 (by omega) h j (by omega) hj

end Search

variable {p} {q : CursorPool α} {more : List α} {i j : ℕ} {a : α} {ndebug : Bool}

/-- What is found is free. -/
theorem find_eq_some (h : p.find = some i) : p.flags[i]? = some false := by
  unfold find at h
  by_cases hfree : p.flags.getD p.cursor true = false
  · rw [if_pos hfree] at h
    obtain rfl := Option.some.inj h
    exact getD_eq_false hfree
  · rw [if_neg hfree] at h
    exact scan_eq_some h

/-- What has a true flag is an item. -/
theorem Inv.lt_of_inUse (h : p.Inv) (hi : p.InUse i) : i < p.items.length := by
  rw [← h.length]
  exact (List.getElem?_eq_some_iff.1 hi).1

/-- **Nothing is found if and only if every item is in use.** -/
theorem find_eq_none_iff (h : p.Inv) : p.find = none ↔ p.Full := by
  constructor
  · intro hnone i hi
    have hlen := h.length
    have hcursor : p.cursor < p.flags.length := by
      rw [hlen]
      exact h.cursor
    unfold find at hnone
    by_cases hfree : p.flags.getD p.cursor true = false
    · rw [if_pos hfree] at hnone
      exact nomatch hnone
    rw [if_neg hfree] at hnone
    have hscan := scan_eq_none (k := 0) (by rw [hlen]; exact h.lt) hcursor (by omega)
      (by rw [Nat.add_zero, Nat.mod_eq_of_lt (by omega), Nat.sub_zero]; exact hnone)
    -- Every position is so many behind the cursor.
    have hpos : p.flags.getD i true = true := by
      by_cases hle : i ≤ p.cursor
      · have hfound := hscan (i + p.flags.length - p.cursor) (by omega) (by omega)
        have hback : p.cursor + (i + p.flags.length - p.cursor) = i + p.flags.length := by omega
        rwa [hback, Nat.add_mod_right, Nat.mod_eq_of_lt (by rw [hlen]; exact hi)] at hfound
      · have hfound := hscan (i - p.cursor) (by omega) (by omega)
        have hback : p.cursor + (i - p.cursor) = i := by omega
        rwa [hback, Nat.mod_eq_of_lt (by rw [hlen]; exact hi)] at hfound
    exact eq_some_true_of_getD (by rw [hlen]; exact hi) hpos
  · intro hfull
    refine Option.eq_none_iff_forall_ne_some.2 fun i hi => ?_
    have hfree := find_eq_some hi
    have hlt : i < p.items.length := by
      rw [← h.length]
      exact (List.getElem?_eq_some_iff.1 hfree).1
    have huse := hfull i hlt
    rw [InUse, hfree] at huse
    exact nomatch huse

/-- The item at the cursor is found if it is free. -/
theorem find_of_cursor (h : p.Inv) (hfree : ¬p.InUse p.cursor) : p.find = some p.cursor := by
  have hlt : p.cursor < p.flags.length := by
    rw [h.length]
    exact h.cursor
  unfold find
  refine if_pos ?_
  by_contra hne
  exact hfree (eq_some_true_of_getD hlt (eq_true_of_ne_false hne))

/-! ### Taking and giving back -/

/-- **What `get` does**: the item at position `i` was free or is the first new one of a pool that
was full; it is in use from now on, and nothing else changes. -/
structure Got (p : CursorPool α) (more : Option (List α)) (a : α) (i : ℕ) (q : CursorPool α) :
    Prop where
  inv : q.Inv
  item : q.items[i]? = some a
  free : ¬p.InUse i
  inUse : ∀ j, q.InUse j ↔ p.InUse j ∨ j = i
  items : i < p.items.length ∧ q.items = p.items ∨
    p.Full ∧ i = p.items.length ∧ ∃ l, more = some l ∧ q.items = p.items ++ l

theorem inUse_take (hi : i < p.flags.length) : (p.take i).InUse j ↔ p.InUse j ∨ j = i := by
  unfold InUse take
  dsimp only
  by_cases hij : i = j
  · rw [hij, List.getElem?_set_self (by omega)]
    simp
  · rw [List.getElem?_set_ne hij]
    exact ⟨.inl, fun h => h.resolve_right (Ne.symm hij)⟩

theorem inUse_grow : (p.grow more).InUse j ↔ p.InUse j := by
  unfold InUse grow
  dsimp only
  by_cases hj : j < p.flags.length
  · rw [List.getElem?_append_left hj]
  · rw [List.getElem?_append_right (by omega), List.getElem?_eq_none (Nat.not_lt.1 hj)]
    constructor
    · intro h
      have hmem := List.mem_of_getElem? h
      exact nomatch (List.eq_of_mem_replicate hmem)
    · exact fun h => nomatch h

theorem Inv.grow (h : p.Inv) (hlt : p.items.length + more.length < 2 ^ 32) : (p.grow more).Inv where
  length := by simp [CursorPool.grow, h.length]
  cursor := by
    have := h.cursor
    simp only [CursorPool.grow, List.length_append]
    omega
  lt := by simpa [CursorPool.grow] using hlt

theorem Inv.take (h : p.Inv) (hi : i < p.items.length) : (p.take i).Inv where
  length := by simp [CursorPool.take, h.length]
  cursor := next_lt hi h.lt
  lt := h.lt

/-- An item that is found is taken. -/
theorem get_of_find {m : Option (List α)} (h : p.find = some i) :
    p.get ndebug m = p.items[i]?.map fun a => (a, i, p.take i) := by
  unfold get
  rw [h]

/-- **A full pool grows**, and the first new item is taken; its position is the size that was. -/
theorem get_of_full {m : Option (List α)} (h : p.Inv) (hfull : p.Full)
    (hlt : ∀ l, m = some l → p.items.length + l.length < 2 ^ 32) :
    p.get ndebug m = m.bind fun l => (p.grow l).items[p.items.length]?.map fun a =>
      (a, p.items.length, (p.grow l).take p.items.length) := by
  have hold : wrap 32 p.items.length = p.items.length := wrap_of_lt h.lt
  unfold get
  rw [(find_eq_none_iff h).2 hfull]
  dsimp only
  rw [h.length, hold, assert_of_true (decide_eq_true rfl)]
  rcases m with _ | l
  · rfl
  · have hsum := hlt l rfl
    have hlen : (p.grow l).items.length = p.items.length + l.length := List.length_append
    have hflags : (p.grow l).flags.length = p.items.length + l.length := by
      rw [(h.grow hsum).length, hlen]
    simp only [Option.bind_eq_bind, Option.bind_some]
    rw [wrap_of_lt hsum, assert_of_true (decide_eq_true hlen),
      assert_of_true (decide_eq_true hflags)]
    rfl

/-- **`get` keeps the invariant**, if the positions remain words. -/
theorem got_of_get {m : Option (List α)} (h : p.Inv)
    (hlt : p.Full → ∀ l, m = some l → p.items.length + l.length < 2 ^ 32)
    (hget : p.get ndebug m = some (a, i, q)) : p.Got m a i q := by
  rcases hfind : p.find with _ | k
  · have hfull := (find_eq_none_iff h).1 hfind
    rw [get_of_full h hfull (hlt hfull)] at hget
    obtain ⟨l, hm, hget⟩ := Option.bind_eq_some_iff.1 hget
    obtain ⟨b, hitem, hget⟩ := Option.map_eq_some_iff.1 hget
    obtain ⟨rfl, hrest⟩ := Prod.mk.inj hget
    obtain ⟨rfl, rfl⟩ := Prod.mk.inj hrest
    have hinv := h.grow (hlt hfull l hm)
    have hi := (List.getElem?_eq_some_iff.1 hitem).1
    refine ⟨hinv.take hi, hitem, ?_, ?_, .inr ⟨hfull, rfl, l, hm, rfl⟩⟩
    · intro huse
      exact Nat.lt_irrefl _ (h.lt_of_inUse huse)
    · intro j
      rw [inUse_take (by rw [hinv.length]; exact hi), inUse_grow]
  · rw [get_of_find hfind] at hget
    obtain ⟨b, hitem, hget⟩ := Option.map_eq_some_iff.1 hget
    obtain ⟨rfl, hrest⟩ := Prod.mk.inj hget
    obtain ⟨rfl, rfl⟩ := Prod.mk.inj hrest
    have hi := (List.getElem?_eq_some_iff.1 hitem).1
    have hfree := find_eq_some hfind
    refine ⟨h.take hi, hitem, ?_, fun j => inUse_take (by rw [h.length]; exact hi), .inl ⟨hi, rfl⟩⟩
    intro huse
    rw [InUse, hfree] at huse
    exact nomatch huse

/-- Only a full pool grows. -/
theorem full_of_items_ne {m : Option (List α)} (h : p.Inv) (hget : p.get ndebug m = some (a, i, q))
    (hne : q.items ≠ p.items) : p.Full := by
  rcases hfind : p.find with _ | k
  · exact (find_eq_none_iff h).1 hfind
  · rw [get_of_find hfind] at hget
    obtain ⟨b, -, hget⟩ := Option.map_eq_some_iff.1 hget
    obtain rfl := (Prod.mk.inj (Prod.mk.inj hget).2).2
    exact absurd rfl hne

theorem inUse_release : (p.release i).InUse j ↔ p.InUse j ∧ j ≠ i := by
  unfold InUse release
  dsimp only
  by_cases hij : i = j
  · rw [hij]
    refine ⟨fun h => ?_, fun h => absurd rfl h.2⟩
    rw [List.getElem?_set] at h
    by_cases hlt : j < p.flags.length <;> simp [hlt] at h
  · rw [List.getElem?_set_ne hij]
    exact ⟨fun h => ⟨h, Ne.symm hij⟩, And.left⟩

theorem Inv.release (h : p.Inv) : (p.release i).Inv where
  length := by simp [CursorPool.release, h.length]
  cursor := h.cursor
  lt := h.lt

/-! ### What is held -/

/-- **The items that are held**, with their positions: these are the ones whose flag is set. -/
structure Held (p : CursorPool α) (l : List (α × ℤ)) : Prop where
  mem : ∀ x ∈ l, ∃ j : ℕ, x.2 = j ∧ p.items[j]? = some x.1 ∧ p.InUse j
  inUse : ∀ j : ℕ, p.InUse j → ∃ x ∈ l, x.2 = j
  nodup : (l.map Prod.snd).Nodup

variable {l : List (α × ℤ)} {x : α × ℤ}

/-- Nothing of a new pool is in use. -/
theorem not_inUse_init : ¬(grow ⟨[], [], 0⟩ more).InUse j := by
  rw [inUse_grow]
  exact fun h => nomatch h

theorem inv_init (hpos : 0 < more.length) (hlt : more.length < 2 ^ 32) :
    (grow ⟨[], [], 0⟩ more).Inv where
  length := by simp [CursorPool.grow]
  cursor := by simpa [CursorPool.grow] using hpos
  lt := by simpa [CursorPool.grow] using hlt

theorem held_init : (grow ⟨[], [], 0⟩ more).Held [] where
  mem := nofun
  inUse _ huse := absurd huse not_inUse_init
  nodup := .nil

/-- What is got is held with the rest. -/
theorem Held.got {m : Option (List α)} (h : p.Held l) (hgot : p.Got m a i q) :
    q.Held ((a, (i : ℤ)) :: l) := by
  refine ⟨?_, ?_, ?_⟩
  · intro x hx
    rcases List.mem_cons.1 hx with rfl | hx
    · exact ⟨i, rfl, hgot.item, (hgot.inUse i).2 (.inr rfl)⟩
    · obtain ⟨j, hj, hitem, huse⟩ := h.mem x hx
      refine ⟨j, hj, ?_, (hgot.inUse j).2 (.inl huse)⟩
      rcases hgot.items with ⟨-, hitems⟩ | ⟨-, -, l, -, hitems⟩
      · rw [hitems]
        exact hitem
      · rw [hitems, List.getElem?_append_left (List.getElem?_eq_some_iff.1 hitem).1]
        exact hitem
  · intro j huse
    rcases (hgot.inUse j).1 huse with huse | rfl
    · obtain ⟨x, hx, hj⟩ := h.inUse j huse
      exact ⟨x, List.mem_cons_of_mem _ hx, hj⟩
    · exact ⟨_, List.mem_cons_self, rfl⟩
  · refine List.nodup_cons.2 ⟨fun hmem => ?_, h.nodup⟩
    obtain ⟨x, hx, hxi⟩ := List.mem_map.1 hmem
    obtain ⟨j, hj, -, huse⟩ := h.mem x hx
    obtain rfl : j = i := by
      have : (j : ℤ) = i := hj.symm.trans hxi
      omega
    exact hgot.free huse

/-- What is given back is not held any more. -/
theorem Held.release [DecidableEq α] (h : p.Held l) (hx : x ∈ l) (hi : x.2 = i) :
    (p.release i).Held (l.erase x) := by
  have hnodup : l.Nodup := h.nodup.of_map _
  have hinj := List.inj_on_of_nodup_map h.nodup
  refine ⟨?_, ?_, ?_⟩
  · intro y hy
    obtain ⟨hne, hy⟩ := hnodup.mem_erase_iff.1 hy
    obtain ⟨j, hj, hitem, huse⟩ := h.mem y hy
    refine ⟨j, hj, hitem, inUse_release.2 ⟨huse, ?_⟩⟩
    rintro rfl
    exact hne (hinj hy hx (hj.trans hi.symm))
  · intro j huse
    obtain ⟨huse, hne⟩ := inUse_release.1 huse
    obtain ⟨y, hy, hj⟩ := h.inUse j huse
    refine ⟨y, hnodup.mem_erase_iff.2 ⟨?_, hy⟩, hj⟩
    rintro rfl
    have : (j : ℤ) = i := hj.symm.trans hi
    omega
  · exact h.nodup.sublist ((List.erase_sublist).map _)

/-- **The flag of an item is set if and only if the item is held.** -/
theorem Held.inUse_iff (h : p.Held l) (hnodup : p.items.Nodup) (hj : p.items[j]? = some a) :
    p.InUse j ↔ a ∈ l.map Prod.fst := by
  constructor
  · intro huse
    obtain ⟨x, hx, hxj⟩ := h.inUse j huse
    obtain ⟨k, hk, hitem, -⟩ := h.mem x hx
    obtain rfl : k = j := by
      have : (k : ℤ) = j := hk.symm.trans hxj
      omega
    rw [hj] at hitem
    rw [Option.some.inj hitem]
    exact List.mem_map_of_mem hx
  · intro hmem
    obtain ⟨x, hx, rfl⟩ := List.mem_map.1 hmem
    obtain ⟨k, -, hitem, huse⟩ := h.mem x hx
    obtain ⟨hlt, hitem⟩ := List.getElem?_eq_some_iff.1 hitem
    obtain ⟨hlt', hj⟩ := List.getElem?_eq_some_iff.1 hj
    obtain rfl : k = j := (hnodup.getElem_inj_iff).1 (hitem.trans hj.symm)
    exact huse

/-- **No item is held twice.** -/
theorem Held.nodup_items (h : p.Held l) (hnodup : p.items.Nodup) : (l.map Prod.fst).Nodup := by
  refine List.Nodup.map_on ?_ (h.nodup.of_map _)
  intro x hx y hy heq
  obtain ⟨j, hj, hitem, -⟩ := h.mem x hx
  obtain ⟨k, hk, hitem', -⟩ := h.mem y hy
  rw [← heq] at hitem'
  obtain ⟨hlt, hitem⟩ := List.getElem?_eq_some_iff.1 hitem
  obtain ⟨hlt', hitem'⟩ := List.getElem?_eq_some_iff.1 hitem'
  obtain rfl : j = k := (hnodup.getElem_inj_iff).1 (hitem.trans hitem'.symm)
  exact Prod.ext heq (hj.trans hk.symm)

end CursorPool

end Codrive.Basis
