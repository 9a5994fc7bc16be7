/-
# The shape of the allocator's memory

What `Allocator` keeps true of its nodes, said on the list of entries in address order.
The free list is not a second structure: it is the sublist of the free entries, and `next`
and `prior` are the neighbours in it (`Linked`).  The guards stand at the two ends of the
arena (`startOf`), so that guards and nodes tile one interval.
-/

import Codrive.Basis.Tiling
import Codrive.Device.Allocator
import Mathlib.Data.List.Chain

namespace Codrive.Device

open Codrive.Basis

/-- An entry is free when its `next` is not `memory.begin()`, the guard at `0`. -/
def isFreeEntry (e : ℕ × Node) : Bool := e.2.next ≠ some 0

/-- Neighbours in the free list name each other. -/
def Link (x y : ℕ × Node) : Prop := x.2.next = some y.1 ∧ y.2.prior = some x.1

/-- Neighbours in memory are not both free, unless one is a guard. -/
def Apart (x y : ℕ × Node) : Prop :=
  isFreeEntry x = true → isFreeEntry y = true → x.1 = 0 ∨ y.1 = guardKey

/-- Where the bytes of an entry start: the guards stand at the ends of the arena. -/
def startOf (pool length : ℕ) (e : ℕ × Node) : ℕ :=
  if e.1 = 0 then pool else if e.1 = guardKey then pool + length else e.1

/-- The bytes of an entry, as a span. -/
def spanOf (pool length : ℕ) (e : ℕ × Node) : ℕ × ℕ := (startOf pool length e, e.2.len)

/-- The used entries, with their lengths. -/
def usedNodes (l : List (ℕ × Node)) : List (ℕ × ℕ) :=
  (l.filter fun e => !isFreeEntry e).map fun e => (e.1, e.2.len)

/-- The bytes of the free entries. -/
def freeBytes (l : List (ℕ × Node)) : ℕ := ((l.filter isFreeEntry).map fun e => e.2.len).sum

/-- What every call of the allocator keeps, coalescing apart. -/
structure Shape (pool length : ℕ) (l : List (ℕ × Node)) : Prop where
  /-- The start guard is there. -/
  zero_mem : 0 ∈ l.map Prod.fst
  /-- It is empty, free, and first in the free list. -/
  zero : ∀ e ∈ l, e.1 = 0 → e.2.len = 0 ∧ e.2.prior = none ∧ isFreeEntry e = true
  /-- The end guard is there. -/
  guard_mem : guardKey ∈ l.map Prod.fst
  /-- It is empty, and last in the free list. -/
  guard : ∀ e ∈ l, e.1 = guardKey → e.2.len = 0 ∧ e.2.next = none
  /-- No address is past the end guard. -/
  le_guard : ∀ e ∈ l, e.1 ≤ guardKey
  /-- Addresses increase. -/
  sorted : l.Pairwise fun a b => a.1 < b.1
  /-- The nodes tile the arena. -/
  tiles : Tiles pool (pool + length) (l.map (spanOf pool length))
  /-- The free entries, in address order, are the free list. -/
  links : (l.filter isFreeEntry).IsChain Link
  /-- Used nodes are not empty. -/
  used_pos : ∀ e ∈ l, isFreeEntry e = false → 0 < e.2.len

section Lists

variable {pool length : ℕ} {l l' P S U V : List (ℕ × Node)} {b c d x : ℕ × Node}

@[simp] theorem usedNodes_nil : usedNodes [] = [] := rfl

@[simp] theorem usedNodes_append : usedNodes (l ++ l') = usedNodes l ++ usedNodes l' := by
  simp [usedNodes]

theorem usedNodes_cons_free (h : isFreeEntry x = true) :
    usedNodes (x :: l) = usedNodes l := by
  simp [usedNodes, h]

theorem usedNodes_cons_used (h : isFreeEntry x = false) :
    usedNodes (x :: l) = (x.1, x.2.len) :: usedNodes l := by
  simp [usedNodes, h]

@[simp] theorem freeBytes_nil : freeBytes [] = 0 := rfl

@[simp] theorem freeBytes_append : freeBytes (l ++ l') = freeBytes l + freeBytes l' := by
  simp [freeBytes]

theorem freeBytes_cons_free (h : isFreeEntry x = true) :
    freeBytes (x :: l) = x.2.len + freeBytes l := by
  simp [freeBytes, h]

theorem freeBytes_cons_used (h : isFreeEntry x = false) : freeBytes (x :: l) = freeBytes l := by
  simp [freeBytes, h]

/-- Only used entries: nothing to visit for the free list. -/
theorem filter_of_used (h : ∀ e ∈ U, isFreeEntry e = false) : U.filter isFreeEntry = [] :=
  List.filter_eq_nil_iff.2 fun e he => by simp [h e he]

/-- The last free entry of a list that has one. -/
theorem exists_last_free (h : ∃ e ∈ l, isFreeEntry e = true) :
    ∃ P b U, l = P ++ b :: U ∧ isFreeEntry b = true ∧ ∀ e ∈ U, isFreeEntry e = false := by
  induction l with
  | nil => simp at h
  | cons a l ih =>
    by_cases hl : ∃ e ∈ l, isFreeEntry e = true
    · obtain ⟨P, b, U, rfl, hb, hU⟩ := ih hl
      exact ⟨a :: P, b, U, rfl, hb, hU⟩
    · have ha : isFreeEntry a = true := by
        obtain ⟨e, he, hf⟩ := h
        rcases List.mem_cons.1 he with rfl | he
        · exact hf
        · exact absurd ⟨e, he, hf⟩ hl
      exact ⟨[], a, l, rfl, ha, fun e he => by
        by_contra hf
        exact hl ⟨e, he, by simpa using hf⟩⟩

/-- The first free entry of a list that has one. -/
theorem exists_first_free (h : ∃ e ∈ l, isFreeEntry e = true) :
    ∃ V d S, l = V ++ d :: S ∧ isFreeEntry d = true ∧ ∀ e ∈ V, isFreeEntry e = false := by
  induction l with
  | nil => simp at h
  | cons a l ih =>
    by_cases ha : isFreeEntry a = true
    · exact ⟨[], a, l, rfl, ha, fun e he => absurd he List.not_mem_nil⟩
    · have hl : ∃ e ∈ l, isFreeEntry e = true := by
        obtain ⟨e, he, hf⟩ := h
        rcases List.mem_cons.1 he with rfl | he
        · exact absurd hf ha
        · exact ⟨e, he, hf⟩
      obtain ⟨V, d, S, rfl, hd, hV⟩ := ih hl
      refine ⟨a :: V, d, S, rfl, hd, fun e he => ?_⟩
      rcases List.mem_cons.1 he with rfl | he
      · simpa using ha
      · exact hV e he

/-- **A chain around a stretch of it**: its two ends, kept as they are, and the stretch. -/
theorem isChain_around {α : Type*} {R : α → α → Prop} {b d : α} {P M S : List α} :
    (P ++ b :: (M ++ d :: S)).IsChain R ↔
      (P ++ [b]).IsChain R ∧ (b :: (M ++ [d])).IsChain R ∧ (d :: S).IsChain R := by
  rw [List.isChain_split, List.isChain_cons_split]

/-- The last entry of a chain of links may be replaced by one of the same key and `prior`. -/
theorem isChain_link_last (hk : c.1 = b.1) (hp : c.2.prior = b.2.prior)
    (h : (P ++ [b]).IsChain Link) : (P ++ [c]).IsChain Link := by
  rw [List.isChain_append] at h ⊢
  refine ⟨h.1, List.isChain_singleton _, fun x hx y hy => ?_⟩
  have hxb := h.2.2 x hx b (by simp)
  obtain rfl : c = y := by simpa using hy
  exact ⟨hk ▸ hxb.1, hp ▸ hxb.2⟩

/-- The first entry of a chain of links may be replaced by one of the same key and `next`. -/
theorem isChain_link_head (hk : c.1 = d.1) (hn : c.2.next = d.2.next)
    (h : (d :: S).IsChain Link) : (c :: S).IsChain Link := by
  rw [List.isChain_cons] at h ⊢
  refine ⟨fun y hy => ?_, h.2⟩
  obtain ⟨h₁, h₂⟩ := h.1 y hy
  exact ⟨hn ▸ h₁, hk ▸ h₂⟩

/-- The last entry of a coalesced stretch may be replaced by one that is free if it was. -/
theorem isChain_apart_last (h : (P ++ [b]).IsChain Apart)
    (hk : b.1 = guardKey → c.1 = guardKey) (hf : isFreeEntry c = true → isFreeEntry b = true) :
    (P ++ [c]).IsChain Apart := by
  rw [List.isChain_append] at h ⊢
  refine ⟨h.1, List.isChain_singleton _, fun x hx y hy => ?_⟩
  have hxb := h.2.2 x hx b (by simp)
  obtain rfl : c = y := by simpa using hy
  exact fun hx hc => (hxb hx (hf hc)).imp_right hk

/-- The first entry of a coalesced stretch may be replaced by one that is free if it was. -/
theorem isChain_apart_head (h : (d :: S).IsChain Apart) (hk : d.1 = 0 → c.1 = 0)
    (hf : isFreeEntry c = true → isFreeEntry d = true) : (c :: S).IsChain Apart := by
  rw [List.isChain_cons] at h ⊢
  exact ⟨fun y hy hc hy' => (h.1 y hy (hf hc) hy').imp_left hk, h.2⟩

/-- An entry of a coalesced stretch may be replaced by one of the same key that is free if
it was. -/
theorem isChain_apart_replace (h : (P ++ b :: S).IsChain Apart) (hk : c.1 = b.1)
    (hf : isFreeEntry c = true → isFreeEntry b = true) : (P ++ c :: S).IsChain Apart := by
  rw [List.isChain_split] at h ⊢
  exact ⟨isChain_apart_last h.1 (fun h => hk.trans h) hf,
    isChain_apart_head h.2 (fun h => hk.trans h) hf⟩

/-- A used entry keeps two coalesced stretches apart. -/
theorem isChain_apart_used (hP : P.IsChain Apart) (hS : S.IsChain Apart)
    (hc : isFreeEntry c = false) : (P ++ c :: S).IsChain Apart := by
  refine hP.append (hS.cons fun y _ hf => ?_) fun x _ y hy _ hf => ?_
  · rw [hc] at hf
    cases hf
  · obtain rfl : c = y := by simpa using hy
    rw [hc] at hf
    cases hf

/-- A free entry may follow a coalesced stretch whose last free entry it does not touch. -/
theorem isChain_apart_snoc (h : (P ++ b :: U).IsChain Apart)
    (hU : ∀ e ∈ U, isFreeEntry e = false) (ht : U ≠ [] ∨ b.1 = 0 ∨ c.1 = guardKey) :
    (P ++ b :: U ++ [c]).IsChain Apart := by
  refine h.append (List.isChain_singleton _) fun x hx y hy hxf _ => ?_
  obtain rfl : c = y := by simpa using hy
  rcases U.eq_nil_or_concat with rfl | ⟨W, u, rfl⟩
  · obtain rfl : b = x := by simpa using hx
    exact ht.resolve_left fun h => h rfl
  · obtain rfl : u = x := by
      rw [List.concat_eq_append, ← List.cons_append, ← List.append_assoc,
        List.getLast?_concat] at hx
      exact Option.some.inj hx
    rw [hU u (by simp)] at hxf
    cases hxf

/-- A free entry may precede a coalesced stretch whose first free entry it does not touch. -/
theorem isChain_apart_cons (h : (V ++ d :: S).IsChain Apart)
    (hV : ∀ e ∈ V, isFreeEntry e = false) (ht : V ≠ [] ∨ c.1 = 0 ∨ d.1 = guardKey) :
    (c :: (V ++ d :: S)).IsChain Apart := by
  refine h.cons fun y hy _ hyf => ?_
  cases V with
  | nil =>
    obtain rfl : d = y := by simpa using hy
    exact ht.resolve_left fun h => h rfl
  | cons v V =>
    obtain rfl : v = y := by simpa using hy
    rw [hV v (by simp)] at hyf
    cases hyf

theorem mem_usedNodes {k n : ℕ} :
    (k, n) ∈ usedNodes l ↔ ∃ nk, (k, nk) ∈ l ∧ isFreeEntry (k, nk) = false ∧ nk.len = n := by
  simp only [usedNodes, List.mem_map, List.mem_filter, Prod.mk.injEq, Prod.exists]
  constructor
  · rintro ⟨k', nk, ⟨hk, hf⟩, rfl, rfl⟩
    exact ⟨nk, hk, by simpa using hf, rfl⟩
  · rintro ⟨nk, hk, hf, rfl⟩
    exact ⟨k, nk, ⟨hk, by simpa using hf⟩, rfl, rfl⟩

end Lists

section Shapes

variable {pool length : ℕ} {l P S U V X Y : List (ℕ × Node)} {b c d : ℕ × Node}

theorem startOf_node (h₀ : c.1 ≠ 0) (h : c.1 ≠ guardKey) : startOf pool length c = c.1 := by
  rw [startOf, if_neg h₀, if_neg h]

theorem Shape.isFreeEntry_guard (hl : Shape pool length l) (hd : d ∈ l) (h : d.1 = guardKey) :
    isFreeEntry d = true := by
  simp [isFreeEntry, (hl.guard d hd h).2]

/-- The start guard has no bytes. -/
theorem Shape.ne_zero_of_pos (hl : Shape pool length l) (hc : c ∈ l) (h : 0 < c.2.len) :
    c.1 ≠ 0 := fun h₀ => h.ne' (hl.zero c hc h₀).1

/-- The end guard has no bytes. -/
theorem Shape.ne_guard_of_pos (hl : Shape pool length l) (hc : c ∈ l) (h : 0 < c.2.len) :
    c.1 ≠ guardKey := fun hg => h.ne' (hl.guard c hc hg).1

/-- A node between the guards lies in the arena. -/
theorem Shape.bounds (hl : Shape pool length l) (hc : c ∈ l) (h₀ : c.1 ≠ 0)
    (hg : c.1 ≠ guardKey) : pool ≤ c.1 ∧ c.1 + c.2.len ≤ pool + length := by
  have h := hl.tiles.mem_bounds (List.mem_map_of_mem hc)
  rwa [spanOf, startOf_node h₀ hg] at h

/-- What is past a node starts where the node ends, or later. -/
theorem Shape.le_of_after (hl : Shape pool length l) (he : l = X ++ c :: Y) (h₀ : c.1 ≠ 0)
    (hg : c.1 ≠ guardKey) (hd : d ∈ Y) : c.1 + c.2.len ≤ startOf pool length d := by
  have ht := hl.tiles
  rw [he, List.map_append, List.map_cons, tiles_append_cons] at ht
  have h := (ht.2.mem_bounds (List.mem_map_of_mem hd)).1
  rwa [spanOf, startOf_node h₀ hg] at h

/-- A node ends where the next entry starts. -/
theorem Shape.adjacent (hl : Shape pool length l) (he : l = X ++ c :: d :: Y) (h₀ : c.1 ≠ 0)
    (hg : c.1 ≠ guardKey) : startOf pool length d = c.1 + c.2.len := by
  have ht := hl.tiles
  rw [he, List.map_append, List.map_cons, List.map_cons, tiles_append_cons, tiles_cons, spanOf,
    startOf_node h₀ hg] at ht
  exact ht.2.1

/-- Keys past an entry are above its key. -/
theorem Shape.lt_of_after (hl : Shape pool length l) (he : l = X ++ c :: Y) (hd : d ∈ Y) :
    c.1 < d.1 := by
  have hs := hl.sorted
  rw [he, List.pairwise_append, List.pairwise_cons] at hs
  exact hs.2.1.1 d hd

/-- Keys before an entry are below its key. -/
theorem Shape.lt_of_before (hl : Shape pool length l) (he : l = X ++ c :: Y) (hb : b ∈ X) :
    b.1 < c.1 := by
  have hs := hl.sorted
  rw [he, List.pairwise_append] at hs
  exact hs.2.2 b hb c (List.mem_cons_self ..)

/-- An address inside a node is below every key past the node. -/
theorem Shape.lt_key_of_after {r : ℕ} (hl : Shape pool length l) (he : l = X ++ c :: Y)
    (hfit : pool + length < guardKey) (h₀ : c.1 ≠ 0) (hg : c.1 ≠ guardKey)
    (hr : r < c.1 + c.2.len) : ∀ e ∈ Y, r < e.1 := by
  intro e h
  have hbd := hl.bounds (he ▸ List.mem_append_right _ (List.mem_cons_self ..)) h₀ hg
  have h₁ := hl.le_of_after he h₀ hg h
  have h₂ := hl.lt_of_after he h
  unfold startOf at h₁
  split_ifs at h₁ <;> omega

/-- The free entry after an entry that is not the end guard. -/
theorem Shape.exists_free_after (hl : Shape pool length l) (he : l = X ++ c :: Y)
    (hg : c.1 ≠ guardKey) :
    ∃ V d S, Y = V ++ d :: S ∧ isFreeEntry d = true ∧ ∀ e ∈ V, isFreeEntry e = false := by
  obtain ⟨z, hz, hzg⟩ := List.mem_map.1 hl.guard_mem
  refine exists_first_free ⟨z, ?_, hl.isFreeEntry_guard hz hzg⟩
  rw [he, List.mem_append, List.mem_cons] at hz
  rcases hz with hz | rfl | hz
  · have h₁ := hl.lt_of_before he hz
    have h₂ := hl.le_guard c (he ▸ List.mem_append_right _ (List.mem_cons_self ..))
    omega
  · exact absurd hzg hg
  · exact hz

/-- The free entry before an entry that is not the start guard. -/
theorem Shape.exists_free_before (hl : Shape pool length l) (he : l = X ++ c :: Y)
    (h₀ : c.1 ≠ 0) :
    ∃ P b U, X = P ++ b :: U ∧ isFreeEntry b = true ∧ ∀ e ∈ U, isFreeEntry e = false := by
  obtain ⟨z, hz, hz0⟩ := List.mem_map.1 hl.zero_mem
  refine exists_last_free ⟨z, ?_, (hl.zero z hz hz0).2.2⟩
  rw [he, List.mem_append, List.mem_cons] at hz
  rcases hz with hz | rfl | hz
  · exact hz
  · exact absurd hz0 h₀
  · have := hl.lt_of_after he hz
    omega

/-- **A node between the guards has free neighbours on both sides.** -/
theorem Shape.exists_free_around (hl : Shape pool length l) (he : l = X ++ c :: Y)
    (h₀ : c.1 ≠ 0) (hg : c.1 ≠ guardKey) :
    ∃ P b U V d S, X = P ++ b :: U ∧ Y = V ++ d :: S ∧
      isFreeEntry b = true ∧ isFreeEntry d = true ∧ d.1 ≠ 0 ∧
      (∀ e ∈ U, isFreeEntry e = false) ∧ ∀ e ∈ V, isFreeEntry e = false := by
  obtain ⟨P, b, U, rfl, hb, hU⟩ := hl.exists_free_before he h₀
  obtain ⟨V, d, S, rfl, hd, hV⟩ := hl.exists_free_after he hg
  have hcd := hl.lt_of_after he (d := d) (by simp)
  exact ⟨P, b, U, V, d, S, rfl, rfl, hb, hd, by omega, hU, hV⟩

/-- **The links of two neighbours in the free list.** -/
theorem Shape.link (hl : Shape pool length l) (he : l = P ++ b :: (U ++ d :: S))
    (hb : isFreeEntry b = true) (hd : isFreeEntry d = true)
    (hU : ∀ e ∈ U, isFreeEntry e = false) : Link b d := by
  have h := hl.links
  rw [he, List.filter_append, List.filter_cons_of_pos hb, List.filter_append,
    filter_of_used hU, List.filter_cons_of_pos hd, List.nil_append, List.isChain_split] at h
  exact (List.isChain_cons_cons.1 h.2).1

/-- **What is between two free entries may be rearranged**, as long as it tiles the same
bytes and the free list still runs through it. -/
theorem Shape.replace {M M' : List (ℕ × Node)} {b' d' : ℕ × Node}
    (hl : Shape pool length (P ++ b :: (M ++ d :: S)))
    (hb : isFreeEntry b = true) (hd : isFreeEntry d = true)
    (hb₁ : b'.1 = b.1) (hb₂ : b'.2.len = b.2.len) (hb₃ : b'.2.prior = b.2.prior)
    (hb' : isFreeEntry b' = true)
    (hd₁ : d'.1 = d.1) (hd₂ : d'.2.len = d.2.len) (hd₃ : d'.2.next = d.2.next)
    (hsorted : (P ++ b' :: (M' ++ d' :: S)).Pairwise fun x y => x.1 < y.1)
    (htiles : ∀ lo hi, Tiles lo hi (M.map (spanOf pool length)) →
      Tiles lo hi (M'.map (spanOf pool length)))
    (hlinks : (b' :: (M'.filter isFreeEntry ++ [d'])).IsChain Link)
    (hpos : ∀ e ∈ M', isFreeEntry e = false → 0 < e.2.len) :
    Shape pool length (P ++ b' :: (M' ++ d' :: S)) := by
  have hd' : isFreeEntry d' = true := by rwa [isFreeEntry, hd₃, ← isFreeEntry]
  have hbd : b'.1 < d'.1 := by
    rw [List.pairwise_append, List.pairwise_cons] at hsorted
    exact hsorted.2.1.1 d' (by simp)
  have hMd : ∀ e ∈ M', e.1 < d'.1 := by
    intro e he
    rw [List.pairwise_append, List.pairwise_cons, List.pairwise_append] at hsorted
    exact hsorted.2.1.2.2.2 e he d' (List.mem_cons_self ..)
  have hbM : ∀ e ∈ M', b'.1 < e.1 := by
    intro e he
    rw [List.pairwise_append, List.pairwise_cons] at hsorted
    exact hsorted.2.1.1 e (List.mem_append_left _ he)
  have hspan_b : spanOf pool length b' = spanOf pool length b := by
    simp only [spanOf, startOf, hb₁, hb₂]
  have hspan_d : spanOf pool length d' = spanOf pool length d := by
    simp only [spanOf, startOf, hd₁, hd₂]
  have hle := hl.le_guard
  have hzero := hl.zero
  have hguard := hl.guard
  have hused := hl.used_pos
  have hz := hl.zero_mem
  have hg := hl.guard_mem
  have hdg := hl.le_guard d (by simp)
  simp only [List.forall_mem_append, List.forall_mem_cons] at hle hzero hguard hused
  simp only [List.map_append, List.map_cons, List.mem_append, List.mem_cons] at hz hg
  constructor
  case zero_mem =>
    simp only [List.map_append, List.map_cons, List.mem_append, List.mem_cons, hb₁, hd₁]
    rcases hz with hz | hz | hz | hz | hz
    · exact .inl hz
    · exact .inr (.inl hz)
    · obtain ⟨e, he, he0⟩ := List.mem_map.1 hz
      have := hl.lt_of_after (X := P) (Y := M ++ d :: S) rfl (List.mem_append_left _ he)
      omega
    · exact .inr (.inr (.inr (.inl hz)))
    · exact .inr (.inr (.inr (.inr hz)))
  case zero =>
    simp only [List.forall_mem_append, List.forall_mem_cons]
    refine ⟨hzero.1, fun h => ?_, fun e he h => by have := hbM e he; omega, fun h => ?_,
      hzero.2.2.2.2⟩
    · rw [hb₂, hb₃]
      exact ⟨(hzero.2.1 (hb₁ ▸ h)).1, (hzero.2.1 (hb₁ ▸ h)).2.1, hb'⟩
    · omega
  case guard_mem =>
    simp only [List.map_append, List.map_cons, List.mem_append, List.mem_cons, hb₁, hd₁]
    rcases hg with hg | hg | hg | hg | hg
    · exact .inl hg
    · exact .inr (.inl hg)
    · obtain ⟨e, he, hek⟩ := List.mem_map.1 hg
      have := hl.lt_of_before (c := d) (X := P ++ b :: M) (Y := S) (by simp)
        (List.mem_append_right _ (List.mem_cons_of_mem _ he))
      omega
    · exact .inr (.inr (.inr (.inl hg)))
    · exact .inr (.inr (.inr (.inr hg)))
  case guard =>
    simp only [List.forall_mem_append, List.forall_mem_cons]
    refine ⟨hguard.1, fun h => ?_, fun e he h => by have := hMd e he; omega, fun h => ?_,
      hguard.2.2.2.2⟩
    · omega
    · rw [hd₂, hd₃]
      exact hguard.2.2.2.1 (hd₁ ▸ h)
  case le_guard =>
    simp only [List.forall_mem_append, List.forall_mem_cons, hb₁, hd₁]
    refine ⟨hle.1, hle.2.1, fun e he => ?_, hle.2.2.2.1, hle.2.2.2.2⟩
    have := hMd e he
    omega
  case sorted => exact hsorted
  case tiles =>
    have ht := hl.tiles
    simp only [List.map_append, List.map_cons, tiles_append, tiles_cons] at ht ⊢
    obtain ⟨x, hP, hx, y, hM, hy⟩ := ht
    exact ⟨x, hP, hspan_b ▸ hx, y, hspan_b ▸ htiles _ _ hM, hspan_d ▸ hy⟩
  case links =>
    have h := hl.links
    rw [List.filter_append, List.filter_cons_of_pos hb, List.filter_append,
      List.filter_cons_of_pos hd, isChain_around] at h
    rw [List.filter_append, List.filter_cons_of_pos hb', List.filter_append,
      List.filter_cons_of_pos hd', isChain_around]
    exact ⟨isChain_link_last hb₁ hb₃ h.1, hlinks, isChain_link_head hd₁ hd₃ h.2.2⟩
  case used_pos =>
    simp only [List.forall_mem_append, List.forall_mem_cons]
    refine ⟨hused.1, fun h => ?_, hpos, fun h => ?_, hused.2.2.2.2⟩
    · rw [hb'] at h
      cases h
    · rw [hd'] at h
      cases h

end Shapes

end Codrive.Device
