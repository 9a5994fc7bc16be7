/-
# `trim`, `discardBlock` and `free` as a caller meets them

`discardBlock` of `src/src/common/simple_heap.h` marks the fragments of one block and takes
the free ones off the free list; what is live stays live.  `free` refuses an address where no
used fragment starts.
-/

import Codrive.Heap.SimpleHeapFree

namespace Codrive.Heap

open Codrive.Basis

section Discarded

variable {l : List (ℕ × Fragment)} {bl : List (ℕ × FragMap)}

/-- The fragments of a block after `discardBlock`. -/
def discardFrags (l : List (ℕ × Fragment)) : List (ℕ × Fragment) :=
  l.map fun e => (e.1, e.2.discarded)

@[simp] theorem total_discardFrags : total (discardFrags l) = total l := by
  simp [total, discardFrags, Function.comp_def, Fragment.discarded]

@[simp] theorem usedFrags_discardFrags : usedFrags (discardFrags l) = usedFrags l := by
  simp [usedFrags, discardFrags, List.filter_map, Function.comp_def, Fragment.discarded, span]

@[simp] theorem freeFrags_discardFrags : freeFrags (discardFrags l) = [] := by
  refine List.map_eq_nil_iff.2 (List.filter_eq_nil_iff.2 fun e he => ?_)
  obtain ⟨e, -, rfl⟩ := List.mem_map.1 he
  simp [Fragment.discarded]

/-- Marking its fragments leaves a block a block. -/
theorem BlockInv.discardFrags {base : ℕ} (h : BlockInv base l) :
    BlockInv base (discardFrags l) := by
  have hmem : ∀ e ∈ Heap.discardFrags l, ∃ f, (e.1, f) ∈ l ∧ e.2 = f.discarded := by
    rintro e he
    obtain ⟨⟨k, f⟩, hm, rfl⟩ := List.mem_map.1 he
    exact ⟨f, hm, rfl⟩
  constructor
  case tiles =>
    have hspan : (Heap.discardFrags l).map span = l.map span := by
      simp [Heap.discardFrags, Function.comp_def, span, Fragment.discarded]
    rw [total_discardFrags, hspan]
    exact h.tiles
  case pos =>
    intro e he
    obtain ⟨f, hm, hf⟩ := hmem e he
    rw [hf]
    exact h.pos _ hm
  case coalesced =>
    rw [Heap.discardFrags, List.isChain_map]
    exact h.coalesced
  case entry =>
    intro e he
    obtain ⟨f, hm, hf⟩ := hmem e he
    rw [hf]
    simp [Fragment.discarded]
  case used =>
    obtain ⟨⟨k, f⟩, hm, hf⟩ := h.used
    exact ⟨(k, f.discarded), List.mem_map.2 ⟨_, hm, rfl⟩, hf⟩
  case flag =>
    intro e he e' he'
    obtain ⟨f, -, hf⟩ := hmem e he
    obtain ⟨g, -, hg⟩ := hmem e' he'
    rw [hf, hg]
    rfl

/-- The first fragment of a block starts where it does, the last one ends where it does. -/
theorem BlockInv.ends {base : ℕ} {fm : FragMap} (h : BlockInv base fm.entries) :
    ∃ last tail, fm.first? = some base ∧ fm.last? = some (last, tail) ∧
      last + tail.size = base + total fm.entries := by
  obtain ⟨⟨k, f⟩, S, hS⟩ := List.exists_cons_of_ne_nil h.ne_nil
  obtain ⟨P, ⟨last, tail⟩, hP⟩ := (List.eq_nil_or_concat fm.entries).resolve_left h.ne_nil
  rw [List.concat_eq_append] at hP
  have hk : k = base := by
    have ht := h.tiles
    rw [hS, List.map_cons, tiles_cons] at ht
    exact ht.1
  subst hk
  refine ⟨last, tail, by rw [OrderedMap.first?, hS]; rfl, by simp [OrderedMap.last?, hP], ?_⟩
  have ht := h.tiles
  rw [hP, List.map_append, List.map_cons, List.map_nil, tiles_append_cons, tiles_nil] at ht
  rw [hP]
  exact ht.2

/-- The loop of `discardBlock` takes the block's entries off the free list. -/
theorem foldl_removeFreeListEntry {R R' : List (ℕ × ℕ)}
    (hl : ∀ e ∈ l, e.2.free_list_entry =
      if e.2.free && !e.2.discard then some (e.2.size, e.1) else none) :
    ∀ fl : List (ℕ × ℕ), fl.Perm (R ++ freeFrags l ++ R') →
      (l.foldl (fun fl e => removeFreeListEntry fl e.2) fl).Perm (R ++ R') := by
  induction l with
  | nil => intro fl hp; simpa using hp
  | cons e l ih =>
    intro fl hp
    obtain ⟨he, hl⟩ := List.forall_mem_cons.1 hl
    rw [List.foldl_cons]
    refine ih hl _ ?_
    cases hf : e.2.free with
    | false =>
      rw [freeFrags_cons_used hf] at hp
      rw [removeFreeListEntry, he, hf]
      exact hp
    | true =>
      rw [show e :: l = [e] ++ l from rfl, freeFrags_append, ← List.append_assoc,
        List.append_assoc] at hp
      rw [List.append_assoc]
      exact removeFreeListEntry_perm hf he hp

theorem mem_discardedBlocks {d : ℕ × ℕ} : d ∈ discardedBlocks bl ↔
    ∃ e ∈ bl, (∀ f ∈ e.2.entries, f.2.discard = true) ∧ (e.1, total e.2.entries) = d := by
  simp only [discardedBlocks, inUse, List.mem_map, List.mem_filter, List.all_eq_true, and_assoc]

end Discarded

section Calls

variable {max_alloc ptr : ℕ} {h : SimpleHeap} {live stale held : List (ℕ × ℕ)}

/-- A heap nothing was taken for. -/
theorem HeapInv.empty (max_alloc : ℕ) : HeapInv max_alloc {} [] [] [] := by
  constructor <;> simp

/-- **What `trim` does.** -/
theorem HeapInv.trim (hi : HeapInv max_alloc h live stale held) :
    HeapInv max_alloc h.trim.1 live stale (inUse h.block_list.entries) ∧
      held.Perm (h.trim.2 ++ inUse h.block_list.entries) := by
  obtain ⟨hi', hp⟩ := hi.keepCache (List.append_nil h.block_cache).symm
  rw [List.append_nil] at hi' hp
  exact ⟨hi', hp⟩

/-- A used fragment in its block. -/
theorem exists_entries_of_used {h : SimpleHeap} {p : ℕ × ℕ}
    (hp : p ∈ usedAll h.block_list.entries) :
    ∃ A base fm B P f S, h.block_list.entries = A ++ (base, fm) :: B ∧
      fm.entries = P ++ (p.1, f) :: S ∧ f.free = false ∧ f.size = p.2 := by
  obtain ⟨⟨base, fm⟩, he, hpe⟩ := List.mem_flatMap.1 hp
  obtain ⟨f, hm, hf, hs⟩ := mem_usedFrags.1 hpe
  obtain ⟨A, B, hAB⟩ := List.append_of_mem he
  obtain ⟨P, S, hPS⟩ := List.append_of_mem hm
  exact ⟨A, base, fm, B, P, f, S, hAB, hPS, hf, hs⟩

/-- `free` of an address where no used fragment starts does nothing. -/
theorem SimpleHeap.free_cases (h : SimpleHeap) (ptr : ℕ) :
    (∃ A base fm B P f S, h.block_list.entries = A ++ (base, fm) :: B ∧
      fm.entries = P ++ (ptr, f) :: S ∧ f.free = false) ∨
    h.free ptr = (decide (ptr = 0), h, []) := by
  by_cases hptr : ptr = 0
  · exact .inr (by simp [SimpleHeap.free, hptr])
  cases hfl : h.block_list.floor? ptr with
  | none => exact .inr (by simp [SimpleHeap.free, hptr, hfl])
  | some e =>
    obtain ⟨base, fm⟩ := e
    cases hfi : fm.find? ptr with
    | none => exact .inr (by simp [SimpleHeap.free, hptr, hfl, hfi])
    | some f =>
      cases hf : f.free with
      | true => exact .inr (by simp [SimpleHeap.free, hptr, hfl, hfi, hf])
      | false =>
        obtain ⟨-, A, B, hAB⟩ := OrderedMap.exists_entries_of_floor? hfl
        obtain ⟨P, S, hPS⟩ := OrderedMap.exists_entries_of_find? hfi
        exact .inl ⟨A, base, fm, B, P, f, S, hAB, hPS, hf⟩

/-- **What `discardBlock` does**: nothing, when the address is in no block in use; else it
marks that block. -/
theorem HeapInv.discardBlock (hi : HeapInv max_alloc h live stale held) (ptr : ℕ) :
    (h.discardBlock ptr = some (decide (ptr = 0), h) ∧
      ∀ b ∈ inUse h.block_list.entries, ¬ (b.1 ≤ ptr ∧ ptr < b.1 + b.2)) ∨
    ∃ A base fm B h', h.block_list.entries = A ++ (base, fm) :: B ∧
      base ≤ ptr ∧ ptr < base + total fm.entries ∧ h.discardBlock ptr = some (true, h') ∧
      h'.block_list.entries = A ++ (base, fm.mapValues Fragment.discarded) :: B ∧
      h'.block_cache = h.block_cache ∧ HeapInv max_alloc h' live stale held := by
  by_cases hptr : ptr = 0
  · refine .inl ⟨by simp [SimpleHeap.discardBlock, hptr], fun b hb hin => ?_⟩
    obtain ⟨e, he, rfl⟩ := List.mem_map.1 hb
    have := (hi.blockOk he).1
    simp only at this hin
    omega
  by_cases hin : ∃ e ∈ h.block_list.entries, e.1 ≤ ptr ∧ ptr < e.1 + total e.2.entries
  · obtain ⟨⟨base, fm⟩, hm, hlo, hhi⟩ := hin
    simp only at hlo hhi
    obtain ⟨A, B, he⟩ := List.append_of_mem hm
    obtain ⟨-, hok₂, -, -, hok₅⟩ := hi.blockOk hm
    have hb := hi.blocks _ hm
    simp only at hok₂ hok₅ hb
    obtain ⟨last, tail, hfirst, hlast, hend⟩ := hb.ends
    have hbl := OrderedMap.entries_set_of_entries (fm.mapValues Fragment.discarded) he
    have hfl : (fm.entries.foldl (fun l e => removeFreeListEntry l e.2) h.free_list).Perm
        (freeAll A ++ freeAll B) := by
      have hp := hi.free_list
      rw [he, freeAll_append, freeAll_cons, ← List.append_assoc] at hp
      exact foldl_removeFreeListEntry hb.entry _ hp
    refine .inr ⟨A, base, fm, B, { h with
        free_list := fm.entries.foldl (fun l e => removeFreeListEntry l e.2) h.free_list
        block_list := h.block_list.set base (fm.mapValues Fragment.discarded) },
      he, hlo, hhi, ?_, hbl, rfl, hi.replaceBlock he hbl hb.discardFrags
        total_discardFrags rfl rfl rfl ?_ ?_ ?_⟩
    · have hu : u64 (last + tail.size) = base + total fm.entries := by
        rw [hend, u64_of_lt hok₂]
      simp [SimpleHeap.discardBlock, hptr, hi.floor? he hlo hhi, hfirst, hlast, hu, hlo.not_gt,
        hhi.not_ge]
    · show List.Perm _ (freeAll A ++ freeFrags (discardFrags fm.entries) ++ freeAll B)
      rw [freeFrags_discardFrags, List.append_nil]
      exact hfl
    · show List.Perm _ (usedAll A ++ usedFrags (discardFrags fm.entries) ++ usedAll B)
      rw [usedFrags_discardFrags]
      have hp := hi.used
      rwa [he, usedAll_append, usedAll_cons, ← List.append_assoc] at hp
    · intro s hs
      obtain ⟨e, hm, hse, hall⟩ := hi.stale_mem s hs
      rw [he, List.mem_append, List.mem_cons] at hm
      rcases hm with hm | rfl | hm
      · exact ⟨e, hbl ▸ List.mem_append_left _ hm, hse, hall⟩
      · refine ⟨(base, fm.mapValues Fragment.discarded), hbl ▸ by simp, ?_, ?_⟩
        · show s ∈ usedFrags (discardFrags fm.entries)
          rwa [usedFrags_discardFrags]
        · intro f hf
          obtain ⟨f', -, rfl⟩ := List.mem_map.1 hf
          rfl
      · exact ⟨e, hbl ▸ List.mem_append_right _ (List.mem_cons_of_mem _ hm), hse, hall⟩
  · push Not at hin
    refine .inl ⟨?_, fun b hb hc => ?_⟩
    · cases hfl : h.block_list.floor? ptr with
      | none => simp [SimpleHeap.discardBlock, hptr, hfl]
      | some e =>
        obtain ⟨base, fm⟩ := e
        obtain ⟨hlo, A, B, he⟩ := OrderedMap.exists_entries_of_floor? hfl
        have hm : (base, fm) ∈ h.block_list.entries := he ▸ by simp
        have hok := (hi.blockOk hm).2.1
        have hle := hin _ hm hlo
        obtain ⟨last, tail, hfirst, hlast, hend⟩ := (hi.blocks _ hm).ends
        simp only at hok hle hend
        have hu : u64 (last + tail.size) ≤ ptr := by rwa [hend, u64_of_lt hok]
        simp [SimpleHeap.discardBlock, hptr, hfl, hfirst, hlast, hu]
    · obtain ⟨e, he, rfl⟩ := List.mem_map.1 hb
      exact (hin e he hc.1).not_gt hc.2

end Calls

end Codrive.Heap
