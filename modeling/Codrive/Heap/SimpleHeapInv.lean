/-
# The invariant of the fragment heap

`src/src/common/simple_heap.h`.  The three structures of `SimpleHeap` and its two counters
are tied together by permutations: `free_list_` lists the free fragments of the blocks that
are not discarded (`freeAll`), the used fragments (`usedAll`) are the live allocations and,
in discarded blocks, fragments whose bytes were freed but stay marked used (`stale`), and the
blocks held are those in use (`inUse`) and those in the cache.
-/

import Codrive.Basis.Tiling
import Codrive.Heap.SimpleHeap
import Mathlib.Data.List.Chain

namespace Codrive.Heap

open Codrive.Basis

/-- The bytes of a fragment, as a span. -/
def span (e : ℕ × Fragment) : ℕ × ℕ := (e.1, e.2.size)

/-- The bytes of a list of fragments. -/
def total (l : List (ℕ × Fragment)) : ℕ := (l.map fun e => e.2.size).sum

/-- The fragments that are marked used. -/
def usedFrags (l : List (ℕ × Fragment)) : List (ℕ × ℕ) :=
  (l.filter fun e => !e.2.free).map span

/-- The free list entries of the fragments that are free and not discarded. -/
def freeFrags (l : List (ℕ × Fragment)) : List (ℕ × ℕ) :=
  (l.filter fun e => e.2.free && !e.2.discard).map fun e => (e.2.size, e.1)

/-- The used fragments of all blocks. -/
def usedAll (bl : List (ℕ × FragMap)) : List (ℕ × ℕ) := bl.flatMap fun e => usedFrags e.2.entries

/-- The free list entries of all blocks. -/
def freeAll (bl : List (ℕ × FragMap)) : List (ℕ × ℕ) := bl.flatMap fun e => freeFrags e.2.entries

/-- The blocks that are cut into fragments, with their lengths. -/
def inUse (bl : List (ℕ × FragMap)) : List (ℕ × ℕ) := bl.map fun e => (e.1, total e.2.entries)

/-- The blocks in use whose fragments are all marked for discard. -/
def discardedBlocks (bl : List (ℕ × FragMap)) : List (ℕ × ℕ) :=
  inUse (bl.filter fun e => e.2.entries.all fun f => f.2.discard)

/-- What is true of the fragments of one block. -/
structure BlockInv (base : ℕ) (l : List (ℕ × Fragment)) : Prop where
  /-- The fragments tile the block. -/
  tiles : Tiles base (base + total l) (l.map span)
  /-- No fragment is empty. -/
  pos : ∀ e ∈ l, 0 < e.2.size
  /-- No two adjacent fragments are free. -/
  coalesced : l.IsChain fun x y => ¬ (x.2.free = true ∧ y.2.free = true)
  /-- The free list entry of a fragment is its own. -/
  entry : ∀ e ∈ l, e.2.free_list_entry =
    if e.2.free && !e.2.discard then some (e.2.size, e.1) else none
  /-- Some fragment is used. -/
  used : ∃ e ∈ l, e.2.free = false
  /-- All fragments are discarded or none is. -/
  flag : ∀ e ∈ l, ∀ e' ∈ l, e.2.discard = e'.2.discard

/-- What the block allocator promises of a block: it is not null, its end is an
address, it has `max_alloc` bytes or more, and its length fits the fragments' size field. -/
def BlockOk (max_alloc : ℕ) (b : ℕ × ℕ) : Prop :=
  0 < b.1 ∧ b.1 + b.2 < 2 ^ 64 ∧ max_alloc ≤ b.2 ∧ 0 < b.2 ∧ b.2 < 2 ^ 62

/-- The heap's invariant: `live` allocations, `stale` fragments and blocks `held`. -/
structure HeapInv (max_alloc : ℕ) (h : SimpleHeap) (live stale held : List (ℕ × ℕ)) : Prop where
  /-- Every block in use. -/
  blocks : ∀ e ∈ h.block_list.entries, BlockInv e.1 e.2.entries
  /-- The free list. -/
  free_list : h.free_list.Perm (freeAll h.block_list.entries)
  /-- The used fragments. -/
  used : (live ++ stale).Perm (usedAll h.block_list.entries)
  /-- Stale fragments are in discarded blocks. -/
  stale_mem : ∀ s ∈ stale, ∃ e ∈ h.block_list.entries, s ∈ usedFrags e.2.entries ∧
    ∀ f ∈ e.2.entries, f.2.discard = true
  /-- The blocks held. -/
  held_perm : held.Perm (inUse h.block_list.entries ++ h.block_cache)
  /-- They are as the block allocator promises. -/
  ok : ∀ b ∈ held, BlockOk max_alloc b
  /-- They are disjoint. -/
  separate : held.Pairwise Separate
  /-- `in_use_size_`. -/
  in_use_size : h.in_use_size = ((inUse h.block_list.entries).map Prod.snd).sum
  /-- `cache_size_`. -/
  cache_size : h.cache_size = (h.block_cache.map Prod.snd).sum

section Lists

variable {l l' : List (ℕ × Fragment)} {e : ℕ × Fragment} {bl bl' : List (ℕ × FragMap)}
  {b : ℕ × FragMap}

/-- What is around an element is in the list with it. -/
theorem mem_around {α : Type*} {x y : α} {P S : List α} (h : x ∈ P ++ S) : x ∈ P ++ y :: S :=
  List.mem_append.2 ((List.mem_append.1 h).imp_right (List.mem_cons_of_mem _))

@[simp] theorem total_nil : total [] = 0 := rfl

@[simp] theorem total_cons : total (e :: l) = e.2.size + total l := by simp [total]

@[simp] theorem total_append : total (l ++ l') = total l + total l' := by simp [total]

@[simp] theorem usedFrags_nil : usedFrags [] = [] := rfl

@[simp] theorem usedFrags_append : usedFrags (l ++ l') = usedFrags l ++ usedFrags l' := by
  simp [usedFrags]

theorem usedFrags_cons_used (h : e.2.free = false) :
    usedFrags (e :: l) = (e.1, e.2.size) :: usedFrags l := by
  simp [usedFrags, h, span]

theorem usedFrags_cons_free (h : e.2.free = true) : usedFrags (e :: l) = usedFrags l := by
  simp [usedFrags, h]

@[simp] theorem freeFrags_nil : freeFrags [] = [] := rfl

@[simp] theorem freeFrags_append : freeFrags (l ++ l') = freeFrags l ++ freeFrags l' := by
  simp [freeFrags]

theorem freeFrags_cons_used (h : e.2.free = false) : freeFrags (e :: l) = freeFrags l := by
  simp [freeFrags, h]

theorem freeFrags_cons_free (h : e.2.free = true) (hd : e.2.discard = false) :
    freeFrags (e :: l) = (e.2.size, e.1) :: freeFrags l := by
  simp [freeFrags, h, hd]

theorem freeFrags_cons_discard (hd : e.2.discard = true) : freeFrags (e :: l) = freeFrags l := by
  simp [freeFrags, hd]

@[simp] theorem usedAll_nil : usedAll [] = [] := rfl

@[simp] theorem usedAll_append : usedAll (bl ++ bl') = usedAll bl ++ usedAll bl' := by
  simp [usedAll]

@[simp] theorem usedAll_cons : usedAll (b :: bl) = usedFrags b.2.entries ++ usedAll bl := by
  simp [usedAll]

@[simp] theorem freeAll_nil : freeAll [] = [] := rfl

@[simp] theorem freeAll_append : freeAll (bl ++ bl') = freeAll bl ++ freeAll bl' := by
  simp [freeAll]

@[simp] theorem freeAll_cons : freeAll (b :: bl) = freeFrags b.2.entries ++ freeAll bl := by
  simp [freeAll]

@[simp] theorem inUse_nil : inUse [] = [] := rfl

@[simp] theorem inUse_append : inUse (bl ++ bl') = inUse bl ++ inUse bl' := by simp [inUse]

@[simp] theorem inUse_cons : inUse (b :: bl) = (b.1, total b.2.entries) :: inUse bl := by
  simp [inUse]

@[simp] theorem discardedBlocks_append :
    discardedBlocks (bl ++ bl') = discardedBlocks bl ++ discardedBlocks bl' := by
  simp [discardedBlocks]

theorem discardedBlocks_cons_of_not (h : ∃ f ∈ b.2.entries, f.2.discard = false) :
    discardedBlocks (b :: bl) = discardedBlocks bl := by
  rw [discardedBlocks, List.filter_cons_of_neg, ← discardedBlocks]
  simpa using h

theorem discardedBlocks_sublist : (discardedBlocks bl).Sublist (inUse bl) :=
  List.filter_sublist.map _

theorem mem_usedFrags {p : ℕ × ℕ} :
    p ∈ usedFrags l ↔ ∃ f, (p.1, f) ∈ l ∧ f.free = false ∧ f.size = p.2 := by
  obtain ⟨k, n⟩ := p
  simp only [usedFrags, List.mem_map, List.mem_filter, span, Prod.mk.injEq, Prod.exists,
    Bool.not_eq_true']
  constructor
  · rintro ⟨k', f, ⟨hm, hf⟩, rfl, rfl⟩
    exact ⟨f, hm, hf, rfl⟩
  · rintro ⟨f, hm, hf, rfl⟩
    exact ⟨k, f, ⟨hm, hf⟩, rfl, rfl⟩

theorem mem_freeFrags {p : ℕ × ℕ} :
    p ∈ freeFrags l ↔ ∃ f, (p.2, f) ∈ l ∧ f.free = true ∧ f.discard = false ∧ f.size = p.1 := by
  obtain ⟨n, k⟩ := p
  simp only [freeFrags, List.mem_map, List.mem_filter, Prod.mk.injEq, Prod.exists,
    Bool.and_eq_true, Bool.not_eq_true']
  constructor
  · rintro ⟨k', f, ⟨hm, hf⟩, rfl, rfl⟩
    exact ⟨f, hm, hf.1, hf.2, rfl⟩
  · rintro ⟨f, hm, hf, hd, rfl⟩
    exact ⟨k, f, ⟨hm, hf, hd⟩, rfl, rfl⟩

theorem insertFree_perm (fl : List (ℕ × ℕ)) (x : ℕ × ℕ) : (insertFree fl x).Perm (x :: fl) :=
  List.perm_orderedInsert _ _ _

end Lists

section Blocks

variable {base : ℕ} {l P S : List (ℕ × Fragment)} {e : ℕ × Fragment}

theorem BlockInv.ne_nil (h : BlockInv base l) : l ≠ [] := by
  obtain ⟨e, he, -⟩ := h.used
  exact List.ne_nil_of_mem he

/-- The bytes of a fragment are bytes of the block. -/
theorem BlockInv.bounds (h : BlockInv base l) (he : e ∈ l) :
    base ≤ e.1 ∧ e.1 + e.2.size ≤ base + total l :=
  h.tiles.mem_bounds (List.mem_map_of_mem he)

/-- Fragments past a fragment start where it ends, or later. -/
theorem BlockInv.le_of_after (h : BlockInv base l) (he : l = P ++ e :: S) :
    ∀ x ∈ S, e.1 + e.2.size ≤ x.1 := by
  intro x hx
  have ht := h.tiles
  rw [he, List.map_append, List.map_cons, tiles_append_cons] at ht
  exact (ht.2.mem_bounds (List.mem_map_of_mem hx)).1

end Blocks

section Held

variable {max_alloc : ℕ} {h : SimpleHeap} {live stale held : List (ℕ × ℕ)}

/-- The blocks in use are held. -/
theorem HeapInv.mem_held (hi : HeapInv max_alloc h live stale held) {e : ℕ × FragMap}
    (he : e ∈ h.block_list.entries) : (e.1, total e.2.entries) ∈ held :=
  hi.held_perm.mem_iff.2 (List.mem_append_left _ (List.mem_map_of_mem he))

theorem HeapInv.blockOk (hi : HeapInv max_alloc h live stale held) {e : ℕ × FragMap}
    (he : e ∈ h.block_list.entries) : BlockOk max_alloc (e.1, total e.2.entries) :=
  hi.ok _ (hi.mem_held he)

/-- The blocks in use and in the cache are disjoint. -/
theorem HeapInv.pairwise (hi : HeapInv max_alloc h live stale held) :
    (inUse h.block_list.entries ++ h.block_cache).Pairwise Separate :=
  (hi.held_perm.pairwise_iff fun {_ _} h => h.symm).1 hi.separate

/-- **`--upper_bound` finds the block an address is in.** -/
theorem HeapInv.floor? (hi : HeapInv max_alloc h live stale held) {A B : List (ℕ × FragMap)}
    {base x : ℕ} {fm : FragMap} (he : h.block_list.entries = A ++ (base, fm) :: B)
    (hx : base ≤ x) (hlt : x < base + total fm.entries) :
    h.block_list.floor? x = some (base, fm) := by
  refine OrderedMap.floor?_of_entries he hx fun e hB => ?_
  have hsep := (List.pairwise_append.1 hi.pairwise).1
  rw [he, inUse_append, inUse_cons, List.pairwise_append, List.pairwise_cons] at hsep
  have hs := hsep.2.1.1 (e.1, total e.2.entries) (List.mem_map_of_mem hB)
  have hlt' := (OrderedMap.lt_of_entries he).2 e hB
  rcases hs with hs | hs <;> simp only at hs <;> omega

/-- A block that is not discarded is disjoint from those that are. -/
theorem HeapInv.separate_discarded (hi : HeapInv max_alloc h live stale held)
    {A B : List (ℕ × FragMap)} {b : ℕ × FragMap} (he : h.block_list.entries = A ++ b :: B)
    (hb : ∀ f ∈ b.2.entries, f.2.discard = false) :
    ∀ d ∈ discardedBlocks h.block_list.entries, Separate d (b.1, total b.2.entries) := by
  intro d hd
  have hne := (hi.blocks b (he ▸ by simp)).ne_nil
  obtain ⟨f, hf⟩ := List.exists_mem_of_ne_nil _ hne
  have hp := (List.pairwise_append.1 hi.pairwise).1
  rw [he, inUse_append, inUse_cons, List.pairwise_append, List.pairwise_cons] at hp
  rw [he, discardedBlocks_append, discardedBlocks_cons_of_not ⟨f, hf, hb f hf⟩,
    List.mem_append] at hd
  rcases hd with hd | hd
  · exact hp.2.2 d (discardedBlocks_sublist.subset hd) _ (List.mem_cons_self ..)
  · exact (hp.2.1.1 d (discardedBlocks_sublist.subset hd)).symm

/-- The counters do not overflow. -/
theorem HeapInv.sizes_lt (hi : HeapInv max_alloc h live stale held) :
    h.in_use_size + h.cache_size < 2 ^ 64 := by
  have hsum := @sum_le_of_separate 1 (2 ^ 64) held hi.separate fun b hb => by
    have := hi.ok b hb
    exact ⟨this.1, this.2.1.le⟩
  have hperm := (hi.held_perm.map Prod.snd).sum_eq
  rw [List.map_append, List.sum_append, ← hi.in_use_size, ← hi.cache_size] at hperm
  omega

/-- The lengths of the blocks held add up to the two counters. -/
theorem HeapInv.sizes (hi : HeapInv max_alloc h live stale held) :
    h.in_use_size + h.cache_size = (held.map Prod.snd).sum := by
  have hperm := (hi.held_perm.map Prod.snd).sum_eq
  rw [List.map_append, List.sum_append, ← hi.in_use_size, ← hi.cache_size] at hperm
  exact hperm.symm

end Held

end Codrive.Heap
