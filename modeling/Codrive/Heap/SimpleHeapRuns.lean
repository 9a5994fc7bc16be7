/-
# Runs of the fragment heap

`alloc`, `free`, `trim` and `discardBlock` of `src/src/common/simple_heap.h` in any order, over
a block allocator that answers with blocks disjoint from those it gave out before.  A heap
`Tidy` is what the three structures promise of each other; `Accounted` says that the blocks
taken are held until their last allocation is freed, and not longer.

`alloc` takes the size 0: it then writes the used fragment over the free one it has just made,
whose free list entry stays behind.  And `free` leaves a fragment of a discarded block marked
used, so that its neighbours never merge with it: a block discarded with two live allocations
in it never becomes one fragment, and is never given back.
-/

import Codrive.Basis.Run
import Codrive.Heap.SimpleHeapDiscard

namespace Codrive.Heap

open Codrive.Basis

/-- A heap with what its callers and its block allocator know. -/
structure HeapState where
  /-- The heap. -/
  heap : SimpleHeap := {}
  /-- The allocations not yet freed: addresses and sizes. -/
  live : List (ℕ × ℕ) := []
  /-- The blocks obtained and not yet given back: addresses and lengths. -/
  held : List (ℕ × ℕ) := []
  /-- All blocks obtained. -/
  taken : List (ℕ × ℕ) := []
  /-- All blocks given back. -/
  given : List (ℕ × ℕ) := []
  /-- The blocks held that `discardBlock` was called for. -/
  discarded : List (ℕ × ℕ) := []

/-- A call. -/
inductive HeapCall where
  /-- `alloc(bytes)`, and what the block allocator answers if it is asked. -/
  | alloc (bytes : ℕ) (block? : Option (ℕ × ℕ))
  /-- `free(ptr)`. -/
  | free (ptr : ℕ)
  /-- `trim()`. -/
  | trim
  /-- `discardBlock(ptr)`. -/
  | discardBlock (ptr : ℕ)

/-- The blocks a call gives back leave the blocks held. -/
def HeapState.giveBack (s : HeapState) (heap : SimpleHeap) (given : List (ℕ × ℕ)) : HeapState :=
  { s with
    heap, held := s.held.diff given, given := given ++ s.given
    discarded := s.discarded.filter fun b => !given.contains b }

/-- The state after an `alloc` that answered `r`. -/
def HeapState.allocated (s : HeapState) (bytes : ℕ) (r : Option ℕ) (heap : SimpleHeap)
    (taken : List (ℕ × ℕ)) : HeapState :=
  { s with
    heap, live := (r.map fun p => (p, bytes)).toList ++ s.live
    held := taken ++ s.held, taken := taken ++ s.taken }

/-- The state after a `free` of `ptr` that answered `ok`. -/
def HeapState.freed (s : HeapState) (ptr : ℕ) (ok : Bool) (heap : SimpleHeap)
    (given : List (ℕ × ℕ)) : HeapState :=
  { s.giveBack heap given with
    live := if ok then s.live.eraseP fun p => decide (p.1 = ptr) else s.live }

/-- The blocks held that an address is in. -/
def HeapState.blocksAt (s : HeapState) (ptr : ℕ) : List (ℕ × ℕ) :=
  s.held.filter fun b => b.1 ≤ ptr ∧ ptr < b.1 + b.2

/-- A call that returns. -/
def HeapState.Step (ndebug : Bool) (max_alloc : ℕ) (s : HeapState) : HeapCall → HeapState → Prop
  | .alloc bytes block?, t =>
    (∀ b, block? = some b → BlockOk max_alloc b ∧ ∀ c ∈ s.held, Separate b c) ∧
      ∃ r heap taken, s.heap.alloc ndebug max_alloc bytes block? = some (r, heap, taken) ∧
        t = s.allocated bytes r heap taken
  | .free ptr, t =>
    ∃ ok heap given, s.heap.free ptr = (ok, heap, given) ∧ t = s.freed ptr ok heap given
  | .trim, t => t = s.giveBack s.heap.trim.1 s.heap.trim.2
  | .discardBlock ptr, t =>
    ∃ ok heap, s.heap.discardBlock ptr = some (ok, heap) ∧
      t = { s with
        heap, discarded := if ok then s.blocksAt ptr ++ s.discarded else s.discarded }

/-- No allocation is empty. -/
def HeapState.NonzeroAlloc (_ : HeapState) : HeapCall → Prop
  | .alloc bytes _ => bytes ≠ 0
  | _ => True

/-- No allocation is empty, and a block is discarded with one live allocation in it at most. -/
def HeapState.SoleDiscard (s : HeapState) : HeapCall → Prop
  | .alloc bytes _ => bytes ≠ 0
  | .discardBlock ptr => ∀ b ∈ s.blocksAt ptr, ∀ p ∈ s.live, ∀ q ∈ s.live,
      Within p b → Within q b → p = q
  | _ => True

/-- **What the heap's structures promise of each other.** -/
structure HeapState.Tidy (s : HeapState) : Prop where
  /-- A block held is cut into fragments or in the cache. -/
  held : s.held.Perm (inUse s.heap.block_list.entries ++ s.heap.block_cache)
  /-- The fragments tile their block. -/
  tiles : ∀ e ∈ s.heap.block_list.entries,
    Tiles e.1 (e.1 + total e.2.entries) (e.2.entries.map span)
  /-- The fragments of a block are all discarded or none is. -/
  flag : ∀ e ∈ s.heap.block_list.entries, ∀ f ∈ e.2.entries, ∀ g ∈ e.2.entries,
    f.2.discard = g.2.discard
  /-- The free list has the free fragments of the blocks not discarded. -/
  free_list : s.heap.free_list.Perm (freeAll s.heap.block_list.entries)
  /-- No two adjacent fragments are free. -/
  coalesced : ∀ e ∈ s.heap.block_list.entries,
    e.2.entries.IsChain fun x y => ¬ (x.2.free = true ∧ y.2.free = true)
  /-- Live allocations are used fragments. -/
  live_used : ∀ p ∈ s.live, p ∈ usedAll s.heap.block_list.entries
  /-- They are disjoint. -/
  live_separate : s.live.Pairwise Separate
  /-- The counters add up to the blocks held. -/
  sizes : s.heap.in_use_size + s.heap.cache_size = (s.held.map Prod.snd).sum

/-- **The blocks taken are accounted for.** -/
structure HeapState.Accounted (ndebug : Bool) (max_alloc : ℕ) (s : HeapState) : Prop where
  /-- A block taken was given back once or is held. -/
  ledger : s.taken.Perm (s.given ++ s.held)
  /-- The blocks held are disjoint. -/
  held_separate : s.held.Pairwise Separate
  /-- A live allocation is in a block that is held. -/
  live_held : ∀ p ∈ s.live, ∃ b ∈ s.held, Within p b
  /-- A live allocation can be freed. -/
  frees : ∀ p ∈ s.live, (s.heap.free p.1).1 = true
  /-- After `trim`, a block is held for a live allocation in it. -/
  trimmed : ∀ t, s.Step ndebug max_alloc .trim t → ∀ b ∈ t.held, ∃ p ∈ t.live, Within p b
  /-- So is a discarded block, at any time. -/
  discarded : ∀ b ∈ s.discarded, b ∈ s.held ∧ ∃ p ∈ s.live, Within p b
  /-- A call gives back no block that an allocation lives in. -/
  gives : ∀ call t given, s.Step ndebug max_alloc call t → t.given = given ++ s.given →
    ∀ b ∈ given, ∀ p ∈ t.live, Separate b p
  /-- A new allocation is in no discarded block. -/
  avoids : ∀ bytes block? t, bytes ≠ 0 → s.Step ndebug max_alloc (.alloc bytes block?) t →
    ∀ p ∈ t.live, p ∈ s.live ∨ ∀ b ∈ s.discarded, Separate b p

section Steps

variable {max_alloc ptr : ℕ} {ndebug : Bool} {h h' : SimpleHeap}
  {live stale held given : List (ℕ × ℕ)} {s t : HeapState}

/-- What is held after a call that gave blocks back. -/
theorem diff_perm {held' : List (ℕ × ℕ)} (hp : held.Perm (given ++ held')) :
    (held.diff given).Perm held' := by
  refine List.perm_iff_count.2 fun b => ?_
  have hc := hp.count_eq b
  rw [List.count_append] at hc
  rw [List.count_diff]
  omega

/-- What an `alloc` that returned did. -/
theorem HeapInv.alloc_some (hi : HeapInv max_alloc h live stale held) {bytes : ℕ}
    {block? : Option (ℕ × ℕ)} {r : Option ℕ} {taken : List (ℕ × ℕ)} (hpos : bytes ≠ 0)
    (hblock : ∀ b, block? = some b → BlockOk max_alloc b ∧ ∀ c ∈ held, Separate b c)
    (hr : h.alloc ndebug max_alloc bytes block? = some (r, h', taken)) :
    HeapInv max_alloc h' ((r.map fun p => (p, bytes)).toList ++ live) stale (taken ++ held) ∧
      discardedBlocks h'.block_list.entries = discardedBlocks h.block_list.entries ∧
      ∀ p, r = some p → ∀ d ∈ discardedBlocks h.block_list.entries, Separate d (p, bytes) := by
  by_cases hle : bytes ≤ max_alloc
  · rcases hi.alloc ndebug (Nat.pos_of_ne_zero hpos) hle hblock with
      he | ⟨p, h₁, k, he, hi', hd, hs⟩
    · obtain ⟨rfl, rfl, rfl⟩ : none = r ∧ h = h' ∧ [] = taken := by simpa [he] using hr
      exact ⟨hi, rfl, by simp⟩
    · obtain ⟨rfl, rfl, rfl⟩ : some p = r ∧ h₁ = h' ∧ k = taken := by simpa [he] using hr
      refine ⟨hi', hd, fun q hq => ?_⟩
      obtain rfl : p = q := by simpa using hq
      exact hs
  · have hgt : bytes > max_alloc := Nat.lt_of_not_le hle
    cases ndebug with
    | false => simp [SimpleHeap.alloc, hgt, assert] at hr
    | true =>
      obtain ⟨rfl, rfl, rfl⟩ : none = r ∧ h = h' ∧ [] = taken := by
        simpa [SimpleHeap.alloc, hgt, assert] using hr
      exact ⟨hi, rfl, by simp⟩

/-- No allocation lives at the null pointer. -/
theorem HeapInv.eraseP_zero (hi : HeapInv max_alloc h live stale held) :
    live.eraseP (fun p => decide (p.1 = 0)) = live := by
  refine List.eraseP_of_forall_not fun p hp => ?_
  obtain ⟨-, e, he, hlo, -⟩ := hi.exists_block (hi.used.mem_iff.1 (List.mem_append_left _ hp))
  have hpos := (hi.blockOk he).1
  simp only [decide_eq_true_eq] at hpos ⊢
  omega

/-- **`free` keeps the invariant**, whatever it is given. -/
theorem HeapInv.free (hi : HeapInv max_alloc h live stale held) (ptr : ℕ) :
    ∃ ok h' given stale' held', h.free ptr = (ok, h', given) ∧
      HeapInv max_alloc h' (if ok then live.eraseP fun p => decide (p.1 = ptr) else live)
        stale' held' ∧ held.Perm (given ++ held') := by
  rcases h.free_cases ptr with ⟨A, base, fm, B, P, f, S, he, hfm, hf⟩ | hr
  · obtain ⟨h', given, held', stale', hr, hi', hp, -⟩ := hi.free_used he hfm hf
    exact ⟨true, h', given, stale', held', hr, hi', hp⟩
  · refine ⟨_, h, [], stale, held, hr, ?_, List.Perm.refl _⟩
    by_cases hptr : ptr = 0
    · subst hptr
      simpa [hi.eraseP_zero] using hi
    · simpa [hptr] using hi

/-- **A call keeps the heap's invariant**, if it allocates something. -/
theorem HeapState.Step.heapInv {call : HeapCall} (hi : HeapInv max_alloc s.heap s.live stale s.held)
    (hc : s.NonzeroAlloc call) (hs : s.Step ndebug max_alloc call t) :
    ∃ stale', HeapInv max_alloc t.heap t.live stale' t.held := by
  cases call with
  | alloc bytes block? =>
    obtain ⟨hblock, r, heap, taken, hr, rfl⟩ := hs
    exact ⟨stale, (hi.alloc_some hc hblock hr).1⟩
  | free ptr =>
    obtain ⟨ok, heap, given, hr, rfl⟩ := hs
    obtain ⟨ok', h', given', stale', held', hr', hi', hp⟩ := hi.free ptr
    obtain ⟨rfl, rfl, rfl⟩ : ok' = ok ∧ h' = heap ∧ given' = given := by simpa [hr'] using hr
    exact ⟨stale', hi'.congr_held (diff_perm hp)⟩
  | trim =>
    obtain rfl := hs
    obtain ⟨hi', hp⟩ := hi.trim
    exact ⟨stale, hi'.congr_held (diff_perm hp)⟩
  | discardBlock ptr =>
    obtain ⟨ok, heap, hr, rfl⟩ := hs
    rcases hi.discardBlock ptr with ⟨hr', -⟩ | ⟨A, base, fm, B, h', -, -, -, hr', -, -, hi'⟩
    · obtain ⟨rfl, rfl⟩ : decide (ptr = 0) = ok ∧ s.heap = heap := by simpa [hr'] using hr
      exact ⟨stale, hi⟩
    · obtain ⟨rfl, rfl⟩ : true = ok ∧ h' = heap := by simpa [hr'] using hr
      exact ⟨stale, hi'⟩

/-- A heap with the invariant is tidy. -/
theorem HeapInv.tidy (hi : HeapInv max_alloc s.heap s.live stale s.held) : s.Tidy where
  held := hi.held_perm
  tiles := fun e he => (hi.blocks e he).tiles
  flag := fun e he => (hi.blocks e he).flag
  free_list := hi.free_list
  coalesced := fun e he => (hi.blocks e he).coalesced
  live_used := fun _ hp => hi.used.mem_iff.1 (List.mem_append_left _ hp)
  live_separate := by
    have hp := (hi.used.pairwise_iff fun {_ _} h => h.symm).2 hi.used_separate
    exact (List.pairwise_append.1 hp).1
  sizes := hi.sizes

/-- The calls that may be made of a heap in some state: `alloc` with a size that is not too
large, and a block allocator that keeps its promise. -/
def HeapState.Legal (max_alloc : ℕ) (s : HeapState) : HeapCall → Prop
  | .alloc bytes block? => bytes ≤ max_alloc ∧
      ∀ b, block? = some b → BlockOk max_alloc b ∧ ∀ c ∈ s.held, Separate b c
  | _ => True

/-- A call returns. -/
theorem HeapInv.exists_step (ndebug : Bool) {call : HeapCall}
    (hi : HeapInv max_alloc s.heap s.live stale s.held) (hl : s.Legal max_alloc call)
    (hc : s.NonzeroAlloc call) : ∃ t, s.Step ndebug max_alloc call t := by
  cases call with
  | alloc bytes block? =>
    obtain ⟨hle, hblock⟩ := hl
    rcases hi.alloc ndebug (Nat.pos_of_ne_zero hc) hle hblock with hr | ⟨p, h', taken, hr, -⟩
    · exact ⟨_, hblock, _, _, _, hr, rfl⟩
    · exact ⟨_, hblock, _, _, _, hr, rfl⟩
  | free ptr => exact ⟨_, _, _, _, rfl, rfl⟩
  | trim => exact ⟨_, rfl⟩
  | discardBlock ptr =>
    rcases hi.discardBlock ptr with ⟨hr, -⟩ | ⟨-, -, -, -, h', -, -, -, hr, -⟩
    · exact ⟨_, _, _, hr, rfl⟩
    · exact ⟨_, _, _, hr, rfl⟩

end Steps

section Accounts

variable {max_alloc ptr : ℕ} {ndebug : Bool} {s t : HeapState}

/-- The invariant of the runs in which a block is discarded with one live allocation in it at
most: nothing is ever stale. -/
structure HeapState.Inv (max_alloc : ℕ) (s : HeapState) : Prop where
  /-- The heap's invariant. -/
  heap : HeapInv max_alloc s.heap s.live [] s.held
  /-- A discarded block has one live allocation. -/
  sole : ∀ d ∈ discardedBlocks s.heap.block_list.entries, ∀ p ∈ s.live, ∀ q ∈ s.live,
    Within p d → Within q d → p = q
  /-- The fragments of a discarded block are marked. -/
  marked : ∀ d ∈ s.discarded, d ∈ discardedBlocks s.heap.block_list.entries
  /-- What was taken was given back or is held. -/
  ledger : s.taken.Perm (s.given ++ s.held)

/-- A used fragment is live. -/
theorem HeapState.Inv.mem_live (hi : s.Inv max_alloc) {e : ℕ × FragMap} {k : ℕ} {f : Fragment}
    (he : e ∈ s.heap.block_list.entries) (hk : (k, f) ∈ e.2.entries) (hf : f.free = false) :
    (k, f.size) ∈ s.live := by
  have hm := hi.heap.used.mem_iff.2
    (List.mem_flatMap.2 ⟨e, he, (mem_usedFrags (p := (k, f.size))).2 ⟨f, hk, hf, rfl⟩⟩)
  rwa [List.append_nil] at hm

/-- A block in use has a live allocation. -/
theorem HeapState.Inv.exists_live (hi : s.Inv max_alloc) {d : ℕ × ℕ}
    (hd : d ∈ inUse s.heap.block_list.entries) : ∃ p ∈ s.live, Within p d := by
  obtain ⟨e, he, rfl⟩ := List.mem_map.1 hd
  obtain ⟨⟨k, f⟩, hk, hf⟩ := (hi.heap.blocks e he).used
  exact ⟨(k, f.size), hi.mem_live he hk hf, (hi.heap.blocks e he).bounds hk⟩

/-- What was given back and what is held, after a call that gave blocks back. -/
theorem HeapState.Inv.ledger_giveBack (hi : s.Inv max_alloc) {given held' : List (ℕ × ℕ)}
    (hp : s.held.Perm (given ++ held')) :
    s.taken.Perm ((given ++ s.given) ++ s.held.diff given) := by
  refine hi.ledger.trans (((hp.trans ((diff_perm hp).symm.append_left _)).append_left _).trans ?_)
  rw [← List.append_assoc]
  exact List.perm_append_comm.append_right _

/-- **`free` in a run in which nothing is stale.** -/
theorem HeapState.Inv.free (hi : s.Inv max_alloc) {ok : Bool} {heap : SimpleHeap}
    {given : List (ℕ × ℕ)} (hr : s.heap.free ptr = (ok, heap, given)) :
    (s.freed ptr ok heap given).Inv max_alloc := by
  rcases s.heap.free_cases ptr with ⟨A, base, fm, B, P, f, S, he, hfm, hf⟩ | hr'
  case inr =>
    obtain ⟨rfl, rfl, rfl⟩ : decide (ptr = 0) = ok ∧ s.heap = heap ∧ [] = given := by
      simpa [hr'] using hr
    have hlive : (if decide (ptr = 0) = true then s.live.eraseP fun p => decide (p.1 = ptr)
        else s.live) = s.live := by
      by_cases hptr : ptr = 0
      · subst hptr
        simpa using hi.heap.eraseP_zero
      · simp [hptr]
    have hsame : s.freed ptr (decide (ptr = 0)) s.heap [] = s := by
      rw [HeapState.freed, hlive]
      simp [HeapState.giveBack]
    rwa [hsame]
  obtain ⟨h', given', held', stale', hr', hi', hp, hcases⟩ := hi.heap.free_used he hfm hf
  obtain ⟨rfl, rfl, rfl⟩ : true = ok ∧ h' = heap ∧ given' = given := by simpa [hr'] using hr
  have hbm : (base, fm) ∈ s.heap.block_list.entries := he ▸ by simp
  have hfmem : (ptr, f) ∈ fm.entries := hfm ▸ by simp
  have hflag := (hi.heap.blocks _ hbm).flag
  have hsub : ∀ p ∈ s.live.eraseP (fun p => decide (p.1 = ptr)), p ∈ s.live :=
    fun p hp => List.mem_of_mem_eraseP hp
  -- what is marked for discard afterwards was so before
  obtain ⟨rfl, hdisc, hkeep⟩ : stale' = [] ∧
      (∀ d ∈ discardedBlocks h'.block_list.entries,
        d ∈ discardedBlocks s.heap.block_list.entries) ∧
      ∀ d ∈ discardedBlocks s.heap.block_list.entries, d ∉ given' →
        d ∈ discardedBlocks h'.block_list.entries := by
    rcases hcases with ⟨hbl, hst, hgiven⟩ | ⟨fm', hbl, htot, hmark, -, hst, e, hem, hef⟩
    · refine ⟨List.eq_nil_iff_forall_not_mem.2 fun x hx => by simpa using hst x hx,
        fun d hd => ?_, fun d hd hng => ?_⟩
      · obtain ⟨e, hm, hall⟩ := mem_discardedBlocks.1 hd
        exact mem_discardedBlocks.2 ⟨e, he ▸ mem_around (hbl ▸ hm), hall⟩
      · obtain ⟨e, hm, hall, hd⟩ := mem_discardedBlocks.1 hd
        refine mem_discardedBlocks.2 ⟨e, ?_, hall, hd⟩
        rw [he, List.mem_append, List.mem_cons] at hm
        rw [hbl, List.mem_append]
        rcases hm with hm | rfl | hm
        · exact .inl hm
        · exact absurd (hd ▸ hgiven (hall _ hfmem)) hng
        · exact .inr hm
    · -- the block stays: it is not discarded, or it had one live allocation
      have hfd : f.discard = false := by
        by_contra hfd
        have hfd' : ∀ g ∈ fm.entries, g.2.discard = true := fun g hg =>
          (hflag g hg _ hfmem).trans (by simpa using hfd)
        have hd := mem_discardedBlocks.2 ⟨(base, fm), hbm, hfd', rfl⟩
        have hem' : e ∈ fm.entries := hfm ▸ mem_around hem
        have heq := hi.sole _ hd _ (hi.mem_live hbm hfmem hf) (e.1, e.2.size)
          (hi.mem_live hbm hem' hef) ((hi.heap.blocks _ hbm).bounds hfmem)
          ((hi.heap.blocks _ hbm).bounds hem')
        have hlt := OrderedMap.lt_of_entries hfm
        simp only [Prod.mk.injEq] at heq
        rcases List.mem_append.1 hem with hem | hem
        · exact (hlt.1 e hem).ne heq.1.symm
        · exact (hlt.2 e hem).ne heq.1
      have hsame : discardedBlocks h'.block_list.entries =
          discardedBlocks s.heap.block_list.entries := by
        have hne := (hi'.blocks (base, fm') (hbl ▸ by simp)).ne_nil
        obtain ⟨g, hg⟩ := List.exists_mem_of_ne_nil _ hne
        rw [hbl, he, discardedBlocks_append, discardedBlocks_append,
          discardedBlocks_cons_of_not ⟨g, hg, (hmark g hg).trans hfd⟩,
          discardedBlocks_cons_of_not ⟨(ptr, f), hfmem, hfd⟩]
      rw [hsame]
      exact ⟨List.eq_nil_iff_forall_not_mem.2 fun x hx => by simpa using hst hfd x hx,
        fun d hd => hd, fun d hd _ => hd⟩
  refine ⟨hi'.congr_held (diff_perm hp), fun d hd p hp q hq => ?_, fun d hd => ?_,
    hi.ledger_giveBack hp⟩
  · exact hi.sole d (hdisc d hd) p (hsub p hp) q (hsub q hq)
  · obtain ⟨hd, hng⟩ := List.mem_filter.1 hd
    exact hkeep d (hi.marked d hd) (by simpa using hng)

/-- The blocks marked after `discardBlock`. -/
theorem mem_discardedBlocks_discard {A B : List (ℕ × FragMap)} {base : ℕ} {fm : FragMap}
    {d : ℕ × ℕ} :
    d ∈ discardedBlocks (A ++ (base, fm.mapValues Fragment.discarded) :: B) ↔
      d = (base, total fm.entries) ∨ d ∈ discardedBlocks (A ++ (base, fm) :: B) := by
  have hall : ∀ f ∈ (fm.mapValues Fragment.discarded).entries, f.2.discard = true := by
    intro f hf
    obtain ⟨f, -, rfl⟩ := List.mem_map.1 hf
    rfl
  have htot : total (fm.mapValues Fragment.discarded).entries = total fm.entries :=
    total_discardFrags
  simp only [mem_discardedBlocks, List.mem_append, List.mem_cons]
  constructor
  · rintro ⟨e, he | rfl | he, hm, rfl⟩
    · exact .inr ⟨e, .inl he, hm, rfl⟩
    · exact .inl (by rw [htot])
    · exact .inr ⟨e, .inr (.inr he), hm, rfl⟩
  · rintro (rfl | ⟨e, he | rfl | he, hm, rfl⟩)
    · exact ⟨_, .inr (.inl rfl), hall, by rw [htot]⟩
    · exact ⟨e, .inl he, hm, rfl⟩
    · exact ⟨_, .inr (.inl rfl), hall, by rw [htot]⟩
    · exact ⟨e, .inr (.inr he), hm, rfl⟩

/-- **A call that does not discard two live allocations keeps the invariant.** -/
theorem HeapState.Inv.step {call : HeapCall} (hi : s.Inv max_alloc) (hc : s.SoleDiscard call)
    (hs : s.Step ndebug max_alloc call t) : t.Inv max_alloc := by
  cases call with
  | alloc bytes block? =>
    obtain ⟨hblock, r, heap, taken, hr, rfl⟩ := hs
    obtain ⟨hi', hd, hsep⟩ := hi.heap.alloc_some hc hblock hr
    refine ⟨hi', fun d hm p hp q hq hpd hqd => ?_, fun d hm => ?_, ?_⟩
    · simp only [HeapState.allocated] at hm hp hq
      rw [hd] at hm
      -- what is new is in no discarded block
      have hold : ∀ x ∈ (r.map fun p => (p, bytes)).toList ++ s.live, Within x d → x ∈ s.live := by
        intro x hx hxd
        rcases List.mem_append.1 hx with hx | hx
        · obtain ⟨a, ha, rfl⟩ := Option.map_eq_some_iff.1 (Option.mem_toList.1 hx)
          obtain ⟨hlo, hhi⟩ := hxd
          have hc : bytes ≠ 0 := hc
          rcases hsep a ha d hm with h | h <;> simp only at h hlo hhi <;> omega
        · exact hx
      exact hi.sole d hm p (hold p hp hpd) q (hold q hq hqd) hpd hqd
    · simp only [HeapState.allocated] at hm ⊢
      rw [hd]
      exact hi.marked d hm
    · simp only [HeapState.allocated]
      refine (hi.ledger.append_left taken).trans ?_
      rw [← List.append_assoc, ← List.append_assoc]
      exact List.perm_append_comm.append_right _
  | free ptr =>
    obtain ⟨ok, heap, given, hr, rfl⟩ := hs
    exact hi.free hr
  | trim =>
    obtain rfl := hs
    obtain ⟨hi', hp⟩ := hi.heap.trim
    refine ⟨hi'.congr_held (diff_perm hp), hi.sole, fun d hd => ?_, hi.ledger_giveBack hp⟩
    exact hi.marked d (List.mem_filter.1 hd).1
  | discardBlock ptr =>
    obtain ⟨ok, heap, hr, rfl⟩ := hs
    rcases hi.heap.discardBlock ptr with
      ⟨hr', hnone⟩ | ⟨A, base, fm, B, h', he, hlo, hhi, hr', hbl, -, hi'⟩
    · obtain ⟨rfl, rfl⟩ : decide (ptr = 0) = ok ∧ s.heap = heap := by simpa [hr'] using hr
      refine ⟨hi.heap, hi.sole, fun d hd => ?_, hi.ledger⟩
      split_ifs at hd with hptr
      · rcases List.mem_append.1 hd with hd | hd
        · obtain ⟨hm, hin⟩ := List.mem_filter.1 hd
          have hpos := (hi.heap.ok d hm).1
          simp only [decide_eq_true_eq] at hptr hin
          omega
        · exact hi.marked d hd
      · exact hi.marked d hd
    · obtain ⟨rfl, rfl⟩ : true = ok ∧ h' = heap := by simpa [hr'] using hr
      have hm : (base, fm) ∈ s.heap.block_list.entries := he ▸ by simp
      have hblk : (base, total fm.entries) ∈ s.blocksAt ptr :=
        List.mem_filter.2 ⟨hi.heap.mem_held hm, by simpa using ⟨hlo, hhi⟩⟩
      have hdisc : ∀ d, d ∈ discardedBlocks h'.block_list.entries ↔
          d = (base, total fm.entries) ∨ d ∈ discardedBlocks s.heap.block_list.entries := by
        intro d
        rw [hbl, he]
        exact mem_discardedBlocks_discard
      refine ⟨hi', fun d hd => ?_, fun d hd => (hdisc d).2 ?_, hi.ledger⟩
      · rcases (hdisc d).1 hd with rfl | hd
        · exact hc _ hblk
        · exact hi.sole d hd
      · rcases List.mem_append.1 hd with hd | hd
        · -- blocks with an address in common are one block
          obtain ⟨hdm, hin⟩ := List.mem_filter.1 hd
          simp only [decide_eq_true_eq] at hin
          by_contra hne
          rw [not_or] at hne
          rcases hi.heap.separate.forall hdm (hi.heap.mem_held hm) hne.1 with h | h <;>
            simp only at h <;> omega
        · exact .inr (hi.marked d hd)

/-- A live allocation is in a block that is held. -/
theorem HeapState.Inv.exists_held (hi : s.Inv max_alloc) {p : ℕ × ℕ} (hp : p ∈ s.live) :
    ∃ b ∈ s.held, Within p b := by
  obtain ⟨-, e, he, hlo, hhi⟩ :=
    hi.heap.exists_block (hi.heap.used.mem_iff.1 (List.mem_append_left _ hp))
  exact ⟨_, hi.heap.mem_held he, hlo, hhi⟩

/-- What is given back is disjoint from what is live. -/
theorem HeapState.Inv.separate_given (hi : s.Inv max_alloc) (ht : t.Inv max_alloc)
    {given : List (ℕ × ℕ)} (htaken : t.taken = s.taken) (hg : t.given = given ++ s.given) :
    ∀ b ∈ given, ∀ p ∈ t.live, Separate b p := by
  have hp : s.held.Perm (given ++ t.held) := by
    refine List.perm_iff_count.2 fun b => ?_
    have h₁ := hi.ledger.count_eq b
    have h₂ := ht.ledger.count_eq b
    rw [htaken, hg] at h₂
    simp only [List.count_append] at h₁ h₂ ⊢
    omega
  intro b hb p hpl
  obtain ⟨c, hc, hlo, hhi⟩ := ht.exists_held hpl
  have hsep := (hp.pairwise_iff fun {_ _} h => h.symm).1 hi.heap.separate
  exact ((List.pairwise_append.1 hsep).2.2 b hb c hc).part hlo hhi

/-- A heap with the invariant accounts for its blocks. -/
theorem HeapState.Inv.accounted (hi : s.Inv max_alloc) : s.Accounted ndebug max_alloc where
  ledger := hi.ledger
  held_separate := hi.heap.separate
  live_held := fun _ hp => hi.exists_held hp
  frees := by
    intro p hp
    obtain ⟨A, base, fm, B, P, f, S, he, hfm, hf, -⟩ :=
      exists_entries_of_used (hi.heap.used.mem_iff.1 (List.mem_append_left _ hp))
    obtain ⟨h', given, held', stale', hr, -⟩ := hi.heap.free_used he hfm hf
    rw [hr]
  trimmed := by
    intro t ht b hb
    have hi' := hi.step (show s.SoleDiscard .trim from trivial) ht
    obtain rfl := ht
    have hm := hi'.heap.held_perm.mem_iff.1 hb
    rw [List.mem_append] at hm
    exact hi'.exists_live (hm.resolve_right (by simp [HeapState.giveBack, SimpleHeap.trim]))
  discarded := by
    intro d hd
    have hm := discardedBlocks_sublist.subset (hi.marked d hd)
    exact ⟨hi.heap.held_perm.mem_iff.2 (List.mem_append_left _ hm), hi.exists_live hm⟩
  gives := by
    intro call t given hs hg
    cases call with
    | alloc bytes block? =>
      obtain ⟨-, r, heap, taken, -, rfl⟩ := hs
      have hnil : given = [] := List.self_eq_append_left.1 hg
      simp [hnil]
    | free ptr =>
      have hi' := hi.step (show s.SoleDiscard (.free ptr) from trivial) hs
      obtain ⟨ok, heap, g, -, rfl⟩ := hs
      exact hi.separate_given hi' rfl hg
    | trim =>
      have hi' := hi.step (show s.SoleDiscard .trim from trivial) hs
      obtain rfl := hs
      exact hi.separate_given hi' rfl hg
    | discardBlock ptr =>
      obtain ⟨ok, heap, -, rfl⟩ := hs
      have hnil : given = [] := List.self_eq_append_left.1 hg
      simp [hnil]
  avoids := by
    rintro bytes block? t hc ⟨hblock, r, heap, taken, hr, rfl⟩ p hp
    obtain ⟨-, -, hsep⟩ := hi.heap.alloc_some hc hblock hr
    rcases List.mem_append.1 hp with hp | hp
    · obtain ⟨a, ha, rfl⟩ := Option.map_eq_some_iff.1 (Option.mem_toList.1 hp)
      exact .inr fun d hd => hsep a ha d (hi.marked d hd)
    · exact .inl hp

end Accounts

section Runs

variable {max_alloc : ℕ} {ndebug : Bool} {calls : List HeapCall} {s : HeapState}

/-- **A run without empty allocations leaves the heap tidy**, and able to serve every legal
call. -/
theorem HeapState.tidy_of_run
    (hr : Run (Guarded NonzeroAlloc (Step ndebug max_alloc)) {} calls s) :
    s.Tidy ∧ ∀ call, s.Legal max_alloc call → s.NonzeroAlloc call →
      ∃ t, s.Step ndebug max_alloc call t := by
  have hinv : ∃ stale, HeapInv max_alloc s.heap s.live stale s.held := by
    refine hr.inv (I := fun s => ∃ stale, HeapInv max_alloc s.heap s.live stale s.held) ?_
      ⟨[], .empty max_alloc⟩
    rintro s call t ⟨stale, hi⟩ ⟨hc, hs⟩
    exact hs.heapInv hi hc
  obtain ⟨stale, hi⟩ := hinv
  exact ⟨hi.tidy, fun call hl hc => hi.exists_step ndebug hl hc⟩

/-- A page is a block a heap without blocks may be given. -/
theorem blockOk_page : ∀ b, some (4096, 4096) = some b → BlockOk 4096 b ∧
    ∀ c ∈ ({} : HeapState).held, Separate b c := by
  rintro b ⟨⟩
  exact ⟨⟨by decide, by decide, by decide, by decide, by decide⟩, by simp⟩

/-- Two allocations of one block, of which the first is freed: the run is such a run. -/
theorem HeapState.tidy_of_run_two : ∃ s : HeapState, s.live = [(4196, 50)] ∧
    s.heap.free_list = [(100, 4096), (3946, 4246)] ∧ s.Tidy := by
  have hr : Run (Guarded NonzeroAlloc (Step false 4096)) {}
      [.alloc 100 (some (4096, 4096)), .alloc 50 none, .free 4096] _ :=
    .cons ⟨by simp [NonzeroAlloc], blockOk_page, _, _, _, rfl, rfl⟩
      (.cons ⟨by simp [NonzeroAlloc], by simp, _, _, _, rfl, rfl⟩
        (.cons ⟨trivial, _, _, _, rfl, rfl⟩ (.nil _)))
  exact ⟨_, rfl, rfl, (tidy_of_run hr).1⟩

/-- **An empty allocation breaks the heap**: the entry of the free fragment it overwrites
stays on the free list. -/
theorem HeapState.zero_alloc_breaks : ∃ s : HeapState,
    Run (Step false 4096) {} [.alloc 0 (some (4096, 4096))] s ∧
      s.heap.free_list = [(4096, 4096)] ∧ freeAll s.heap.block_list.entries = [] ∧ ¬ s.Tidy := by
  have hr : Run (Step false 4096) {} [.alloc 0 (some (4096, 4096))] _ :=
    .cons ⟨blockOk_page, _, _, _, rfl, rfl⟩ (.nil _)
  exact ⟨_, hr, rfl, rfl, fun ht => absurd (show 1 = 0 from ht.free_list.length_eq) (by decide)⟩

/-- **In a run in which blocks are discarded with one live allocation in them at most, the
blocks taken are accounted for.** -/
theorem HeapState.accounted_of_run
    (hr : Run (Guarded SoleDiscard (Step ndebug max_alloc)) {} calls s) :
    s.Accounted ndebug max_alloc := by
  have hinv : s.Inv max_alloc := by
    refine hr.inv (fun s call t hi hs => hi.step hs.1 hs.2) ⟨.empty max_alloc, ?_, ?_, ?_⟩
    · exact fun d hd => absurd hd (List.not_mem_nil)
    · exact fun d hd => absurd hd (List.not_mem_nil)
    · exact List.Perm.refl _
  exact hinv.accounted

/-- A block that is discarded and then freed: it is given back. -/
theorem HeapState.accounted_of_run_discard : ∃ s : HeapState, s.given = [(4096, 4096)] ∧
    s.held = [] ∧ s.Accounted false 4096 := by
  have hr : Run (Guarded SoleDiscard (Step false 4096)) {}
      [.alloc 100 (some (4096, 4096)), .discardBlock 4096, .free 4096] _ :=
    .cons ⟨by simp [SoleDiscard], blockOk_page, _, _, _, rfl, rfl⟩
      (.cons ⟨by unfold SoleDiscard; decide, _, _, rfl, rfl⟩
        (.cons ⟨trivial, _, _, _, rfl, rfl⟩ (.nil _)))
  exact ⟨_, by decide, by decide, accounted_of_run hr⟩

/-- **A block discarded with two live allocations is never given back**: both are freed and
the cache is empty, and the block is held. -/
theorem HeapState.discard_two_leaks : ∃ s : HeapState,
    Run (Step false 4096) {} [.alloc 100 (some (4096, 4096)), .alloc 100 none,
      .discardBlock 4096, .free 4096, .free 4196] s ∧
      s.live = [] ∧ s.heap.block_cache = [] ∧ s.held = [(4096, 4096)] ∧
      ¬ s.Accounted false 4096 := by
  have hr : Run (Step false 4096) {} [.alloc 100 (some (4096, 4096)), .alloc 100 none,
      .discardBlock 4096, .free 4096, .free 4196] _ :=
    .cons ⟨blockOk_page, _, _, _, rfl, rfl⟩
      (.cons ⟨by simp, _, _, _, rfl, rfl⟩
        (.cons ⟨_, _, rfl, rfl⟩
          (.cons ⟨_, _, _, rfl, rfl⟩ (.cons ⟨_, _, _, rfl, rfl⟩ (.nil _)))))
  refine ⟨_, hr, by decide, by decide, by decide, fun ha => ?_⟩
  obtain ⟨p, hp, -⟩ := ha.trimmed _ rfl (4096, 4096) (by decide)
  exact List.not_mem_nil (show p ∈ ([] : List (ℕ × ℕ)) from hp)

end Runs

end Codrive.Heap
