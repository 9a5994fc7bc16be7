/-
# `SimpleHeap::alloc` keeps the invariant

Best fit from the free list, else the block last cached, else a block of the block
allocator.  A request of zero bytes is left out here: `alloc(0)` files the whole block as
free under the address of the fragment it then marks used.
-/

import Codrive.Heap.SimpleHeapInv

namespace Codrive.Heap

open Codrive.Basis

section Blocks

variable {base k bytes : ℕ} {f : Fragment} {P S : List (ℕ × Fragment)}

/-- The fragment `alloc` leaves marked used. -/
def Fragment.take (f : Fragment) (bytes : ℕ) : Fragment :=
  { f with size := bytes, free := false, free_list_entry := none }

/-- Taking a whole fragment keeps the block. -/
theorem BlockInv.take (h : BlockInv base (P ++ (k, f) :: S)) :
    BlockInv base (P ++ (k, f.take f.size) :: S) := by
  have ht : total (P ++ (k, f.take f.size) :: S) = total (P ++ (k, f) :: S) := by
    simp [Fragment.take]
  have hpos := h.pos
  have hentry := h.entry
  have hflag := h.flag
  simp only [List.forall_mem_append, List.forall_mem_cons] at hpos hentry hflag
  constructor
  case tiles =>
    have := h.tiles
    rw [ht]
    simpa [span, Fragment.take] using this
  case pos =>
    simp only [List.forall_mem_append, List.forall_mem_cons]
    exact hpos
  case coalesced =>
    have hc := h.coalesced
    rw [List.isChain_append] at hc ⊢
    refine ⟨hc.1, (List.isChain_cons.1 hc.2.1).2.cons fun y _ hy => ?_, fun x _ y hy hxy => ?_⟩
    · exact Bool.false_ne_true hy.1
    · obtain rfl : (k, f.take f.size) = y := by simpa using hy
      exact Bool.false_ne_true hxy.2
  case entry =>
    simp only [List.forall_mem_append, List.forall_mem_cons]
    exact ⟨hentry.1, rfl, hentry.2.2⟩
  case used => exact ⟨(k, f.take f.size), by simp, rfl⟩
  case flag =>
    simp only [List.forall_mem_append, List.forall_mem_cons]
    exact hflag

/-- Taking the low part of a fragment keeps the block. -/
theorem BlockInv.split (h : BlockInv base (P ++ (k, f) :: S)) (hf : f.free = true)
    (hd : f.discard = false) (hpos : 0 < bytes) (hlt : bytes < f.size)
    {g : Fragment} (hg : g.free = true) (hgd : g.discard = false)
    (hgs : g.size = f.size - bytes) (hge : g.free_list_entry = some (f.size - bytes, k + bytes)) :
    BlockInv base (P ++ (k, f.take bytes) :: (k + bytes, g) :: S) := by
  have ht : total (P ++ (k, f.take bytes) :: (k + bytes, g) :: S) = total (P ++ (k, f) :: S) := by
    simp [Fragment.take, hgs]
    omega
  have hp := h.pos
  have hentry := h.entry
  have hflag := h.flag
  have hfl : ∀ e ∈ P ++ (k, f) :: S, e.2.discard = false := fun e he =>
    (h.flag e he (k, f) (by simp)).trans hd
  simp only [List.forall_mem_append, List.forall_mem_cons] at hp hentry hflag hfl
  constructor
  case tiles =>
    have htl := h.tiles
    have hsize : f.size = bytes + (f.size - bytes) := by omega
    rw [List.map_append, List.map_cons, span, hsize] at htl
    rw [ht, List.map_append, List.map_cons, List.map_cons, span, span, hgs]
    exact tiles_split.2 htl
  case pos =>
    simp only [List.forall_mem_append, List.forall_mem_cons]
    exact ⟨hp.1, hpos, by omega, hp.2.2⟩
  case coalesced =>
    have hc := h.coalesced
    rw [List.isChain_append, List.isChain_cons] at hc
    refine List.isChain_append.2 ⟨hc.1, .cons_cons (fun hy => Bool.false_ne_true hy.1)
      (hc.2.1.2.cons fun y hy hgy => hc.2.1.1 y hy ⟨hf, hgy.2⟩), fun x _ y hy hxy => ?_⟩
    obtain rfl : (k, f.take bytes) = y := by simpa using hy
    exact Bool.false_ne_true hxy.2
  case entry =>
    simp only [List.forall_mem_append, List.forall_mem_cons]
    exact ⟨hentry.1, rfl, by simp [hg, hgd, hge, hgs], hentry.2.2⟩
  case used => exact ⟨(k, f.take bytes), by simp, rfl⟩
  case flag =>
    have hall : ∀ e ∈ P ++ (k, f.take bytes) :: (k + bytes, g) :: S, e.2.discard = false := by
      simp only [List.forall_mem_append, List.forall_mem_cons]
      exact ⟨hfl.1, hd, hgd, hfl.2.2⟩
    exact fun e he e' he' => (hall e he).trans (hall e' he').symm

end Blocks

section Heaps

variable {max_alloc : ℕ} {h h' : SimpleHeap} {live stale held live' stale' : List (ℕ × ℕ)}
  {A B : List (ℕ × FragMap)} {base : ℕ} {fm fm' : FragMap}

/-- **One block may be cut differently**, as long as its bytes are the same. -/
theorem HeapInv.replaceBlock (hi : HeapInv max_alloc h live stale held)
    (he : h.block_list.entries = A ++ (base, fm) :: B)
    (he' : h'.block_list.entries = A ++ (base, fm') :: B) (hb : BlockInv base fm'.entries)
    (ht : total fm'.entries = total fm.entries) (hc : h'.block_cache = h.block_cache)
    (hs : h'.in_use_size = h.in_use_size) (hcs : h'.cache_size = h.cache_size)
    (hfree : h'.free_list.Perm (freeAll A ++ freeFrags fm'.entries ++ freeAll B))
    (hused : (live' ++ stale').Perm (usedAll A ++ usedFrags fm'.entries ++ usedAll B))
    (hstale : ∀ s ∈ stale', ∃ e ∈ h'.block_list.entries, s ∈ usedFrags e.2.entries ∧
      ∀ f ∈ e.2.entries, f.2.discard = true) :
    HeapInv max_alloc h' live' stale' held := by
  have hin : inUse h'.block_list.entries = inUse h.block_list.entries := by
    rw [he, he', inUse_append, inUse_append, inUse_cons, inUse_cons, ht]
  refine ⟨fun e hm => ?_, ?_, ?_, hstale, ?_, hi.ok, hi.separate, ?_, ?_⟩
  · rw [he', List.mem_append, List.mem_cons] at hm
    rcases hm with hm | rfl | hm
    · exact hi.blocks e (he ▸ List.mem_append_left _ hm)
    · exact hb
    · exact hi.blocks e (he ▸ List.mem_append_right _ (List.mem_cons_of_mem _ hm))
  · rw [he', freeAll_append, freeAll_cons, ← List.append_assoc]
    exact hfree
  · rw [he', usedAll_append, usedAll_cons, ← List.append_assoc]
    exact hused
  · rw [hin, hc]
    exact hi.held_perm
  · rw [hs, hin]
    exact hi.in_use_size
  · rw [hcs, hc]
    exact hi.cache_size

/-- Stale fragments stay where they are when a block that is not discarded is cut
differently. -/
theorem HeapInv.stale_frame (hi : HeapInv max_alloc h live stale held)
    (he : h.block_list.entries = A ++ (base, fm) :: B)
    (hd : ∃ e ∈ fm.entries, e.2.discard = false) {bl : OrderedMap ℕ FragMap}
    (he' : bl.entries = A ++ (base, fm') :: B) :
    ∀ s ∈ stale, ∃ e ∈ bl.entries, s ∈ usedFrags e.2.entries ∧
      ∀ f ∈ e.2.entries, f.2.discard = true := by
  intro s hs
  obtain ⟨e, hm, hse, hall⟩ := hi.stale_mem s hs
  refine ⟨e, ?_, hse, hall⟩
  rw [he, List.mem_append, List.mem_cons] at hm
  rw [he', List.mem_append, List.mem_cons]
  rcases hm with hm | rfl | hm
  · exact .inl hm
  · obtain ⟨f, hf, hfd⟩ := hd
    exact absurd (hall f hf) (by simp [hfd])
  · exact .inr (.inr hm)

/-- **`alloc` from the free list.**  The fragment found lies in a block that is not
discarded. -/
theorem HeapInv.allocFragment (ndebug : Bool) {bytes size addr : ℕ}
    (hi : HeapInv max_alloc h live stale held) (hpos : 0 < bytes)
    (hlb : lowerBound h.free_list bytes = some (size, addr)) :
    ∃ h' A b fm fm' B, h.allocFragment ndebug bytes size addr = some h' ∧
      HeapInv max_alloc h' ((addr, bytes) :: live) stale held ∧
      h.block_list.entries = A ++ (b, fm) :: B ∧ h'.block_list.entries = A ++ (b, fm') :: B ∧
      (∀ f ∈ fm.entries, f.2.discard = false) ∧ (∀ f ∈ fm'.entries, f.2.discard = false) ∧
      b ≤ addr ∧ addr + bytes ≤ b + total fm.entries := by
  have hle : bytes ≤ size := by simpa using List.find?_some hlb
  have hmem := hi.free_list.mem_iff.1 (List.mem_of_find?_eq_some hlb)
  obtain ⟨⟨b, fm⟩, hbm, hfm⟩ := List.mem_flatMap.1 hmem
  obtain ⟨f, hf, hfree, hdisc, rfl⟩ := mem_freeFrags.1 hfm
  simp only at hf hle hlb
  obtain ⟨A, B, he⟩ := List.append_of_mem hbm
  obtain ⟨P, S, hfe⟩ := List.append_of_mem hf
  have hb := hi.blocks _ hbm
  have hbd := hb.bounds hf
  obtain ⟨-, hok₂, -, -, hok₅⟩ := hi.blockOk hbm
  simp only at hbd hok₂ hok₅
  have hfloor := hi.floor? he hbd.1 (by omega)
  have hfind := OrderedMap.find?_of_entries hfe
  have hflag : ∀ e ∈ fm.entries, e.2.discard = false := fun e he =>
    (hb.flag e he _ hf).trans hdisc
  have hsize : size62 bytes = bytes := wrap_of_lt (by omega)
  have htake := OrderedMap.entries_set_of_entries (f.take bytes) hfe
  -- what is left of the free list once the entry is erased
  have herase : (h.free_list.erase (f.size, addr)).Perm
      (freeAll A ++ (freeFrags P ++ freeFrags S) ++ freeAll B) := by
    have hp := hi.free_list
    rw [he, freeAll_append, freeAll_cons, hfe, freeFrags_append,
      freeFrags_cons_free hfree hdisc] at hp
    have hp' := hp.erase (f.size, addr)
    refine hp'.trans ?_
    have hmid : (freeAll A ++ (freeFrags P ++ (f.size, addr) :: freeFrags S ++ freeAll B)).Perm
        ((f.size, addr) :: (freeAll A ++ (freeFrags P ++ freeFrags S) ++ freeAll B)) := by
      simpa only [List.append_assoc, List.cons_append] using @List.perm_middle _ (f.size, addr)
        (freeAll A ++ freeFrags P) (freeFrags S ++ freeAll B)
    simpa using hmid.erase (f.size, addr)
  -- the used fragments get one more
  have hused : (((addr, bytes) :: live) ++ stale).Perm
      (usedAll A ++ (usedFrags P ++ (addr, bytes) :: usedFrags S) ++ usedAll B) := by
    have hp := hi.used
    rw [he, usedAll_append, usedAll_cons, hfe, usedFrags_append, usedFrags_cons_free hfree] at hp
    refine (hp.cons (addr, bytes)).trans ?_
    simpa only [List.append_assoc, List.cons_append] using (@List.perm_middle _ (addr, bytes)
        (usedAll A ++ usedFrags P) (usedFrags S ++ usedAll B)).symm
  have hnd : ∃ e ∈ fm.entries, e.2.discard = false := ⟨_, hf, hdisc⟩
  rcases hle.eq_or_lt with rfl | hlt
  · -- the whole fragment
    have hbl := OrderedMap.entries_set_of_entries (fm.set addr (f.take f.size)) he
    refine ⟨{ h with
        free_list := h.free_list.erase (f.size, addr)
        block_list := h.block_list.set b (fm.set addr (f.take f.size)) }, A, b, fm, _, B, ?_,
      hi.replaceBlock he hbl (htake ▸ (hfe ▸ hb).take) ?_ rfl rfl rfl ?_ ?_
        (hi.stale_frame he hnd hbl), he, hbl, hflag, ?_, hbd.1, hbd.2⟩
    · simp [SimpleHeap.allocFragment, assert_of_true, hfloor, hfind, hsize, Fragment.take]
    · rw [htake, hfe]
      simp [Fragment.take]
    · rw [htake, freeFrags_append, freeFrags_cons_used rfl]
      exact herase
    · rw [htake, usedFrags_append, usedFrags_cons_used rfl]
      exact hused
    · rw [hfe] at hflag
      simp only [List.forall_mem_append, List.forall_mem_cons] at hflag
      rw [htake]
      simp only [List.forall_mem_append, List.forall_mem_cons]
      exact hflag
  · -- the low part, with the rest on the free list
    have haddr : u64 (addr + bytes) = addr + bytes := u64_of_lt (by omega)
    have hrest : size62 (f.size - bytes) = f.size - bytes := wrap_of_lt (by omega)
    have hafter : ∀ e ∈ S, addr + bytes < e.1 := fun e he => by
      have := (hfe ▸ hb).le_of_after rfl e he
      simp only at this
      omega
    have hbefore : ∀ e ∈ P ++ [(addr, f.take bytes)], e.1 < addr + bytes := by
      intro e he
      rcases List.mem_append.1 he with he | he
      · have := (OrderedMap.lt_of_entries hfe).1 e he
        omega
      · rw [List.mem_singleton.1 he]
        simp only
        omega
    have hput := OrderedMap.entries_set_of_lt (addr + bytes)
      (makeFree (f.size - bytes, addr + bytes) (f.size - bytes))
      (show (fm.set addr (f.take bytes)).entries = (P ++ [(addr, f.take bytes)]) ++ S by
        simp [htake]) hbefore hafter
    rw [List.append_assoc, List.singleton_append] at hput
    have hbl := OrderedMap.entries_set_of_entries ((fm.set addr (f.take bytes)).set (addr + bytes)
      (makeFree (f.size - bytes, addr + bytes) (f.size - bytes))) he
    have hblock := (hfe ▸ hb).split hfree hdisc hpos hlt
      (g := makeFree (f.size - bytes, addr + bytes) (f.size - bytes)) rfl rfl
      (by simp [makeFree, hrest]) rfl
    refine ⟨{ h with
        free_list := insertFree (h.free_list.erase (f.size, addr)) (f.size - bytes, addr + bytes)
        block_list := h.block_list.set b ((fm.set addr (f.take bytes)).set (addr + bytes)
          (makeFree (f.size - bytes, addr + bytes) (f.size - bytes))) }, A, b, fm, _, B, ?_,
      hi.replaceBlock he hbl (hput ▸ hblock) ?_ rfl rfl rfl ?_ ?_ (hi.stale_frame he hnd hbl),
        he, hbl, hflag, ?_, hbd.1, by omega⟩
    · simp [SimpleHeap.allocFragment, assert_of_true, hfloor, hfind, hsize, Fragment.take, hlt,
        hle, haddr]
    · rw [hput, hfe]
      simp [Fragment.take, makeFree, hrest]
      omega
    · rw [hput, freeFrags_append, freeFrags_cons_used rfl, freeFrags_cons_free rfl rfl]
      refine (insertFree_perm _ _).trans ((herase.cons _).trans ?_)
      simp only [makeFree, hrest]
      simpa only [List.append_assoc, List.cons_append] using (@List.perm_middle _ _
        (freeAll A ++ freeFrags P) (freeFrags S ++ freeAll B)).symm
    · rw [hput, usedFrags_append, usedFrags_cons_used rfl, usedFrags_cons_free rfl]
      exact hused
    · rw [hfe] at hflag
      simp only [List.forall_mem_append, List.forall_mem_cons] at hflag
      rw [hput]
      simp only [List.forall_mem_append, List.forall_mem_cons]
      exact ⟨hflag.1, hflag.2.1, rfl, hflag.2.2⟩

/-- The order of the blocks held does not matter. -/
theorem HeapInv.congr_held {held' : List (ℕ × ℕ)} (hi : HeapInv max_alloc h live stale held)
    (hp : held'.Perm held) : HeapInv max_alloc h live stale held' :=
  ⟨hi.blocks, hi.free_list, hi.used, hi.stale_mem, hp.trans hi.held_perm,
    fun b hb => hi.ok b (hp.mem_iff.1 hb),
    (hp.pairwise_iff fun {_ _} h => h.symm).2 hi.separate, hi.in_use_size, hi.cache_size⟩

/-- The fragments of a block cut for the first time. -/
theorem blockInv_new {base bytes size : ℕ} {g : Fragment} (hpos : 0 < bytes) (hlt : bytes < size)
    (hg : g.free = true) (hgd : g.discard = false) (hgs : g.size = size - bytes)
    (hge : g.free_list_entry = some (size - bytes, base + bytes)) :
    BlockInv base [(base, { size := bytes, free := false }), (base + bytes, g)] := by
  have ht : bytes + (size - bytes) = size := by omega
  constructor
  case tiles => simp [span, hgs, Nat.add_assoc]
  case pos => simp only [List.forall_mem_cons]; exact ⟨hpos, by omega, by simp⟩
  case coalesced => simp
  case entry => simp [hg, hgd, hgs, hge]
  case used => simp
  case flag => simp [hgd]

/-- A block that is one used fragment. -/
theorem blockInv_whole {base bytes : ℕ} (hpos : 0 < bytes) :
    BlockInv base [(base, { size := bytes, free := false })] := by
  constructor
  case tiles => simp [span]
  case pos => simp [hpos]
  case coalesced => simp
  case entry => simp
  case used => simp
  case flag => simp

/-- **A block joins the blocks in use**, cut into one used fragment and a rest. -/
theorem HeapInv.addBlock (hi : HeapInv max_alloc h live stale held) {size bytes : ℕ}
    (he : h.block_list.entries = A ++ B)
    (hsep : ((base, size) :: held).Pairwise Separate)
    (hok : ∀ b ∈ (base, size) :: held, BlockOk max_alloc b)
    (hbl : h'.block_list.entries = A ++ (base, fm) :: B) (hb : BlockInv base fm.entries)
    (ht : total fm.entries = size) (hu : usedFrags fm.entries = [(base, bytes)])
    (hf : h'.free_list.Perm (freeFrags fm.entries ++ h.free_list))
    (hc : h'.block_cache = h.block_cache) (hs : h'.in_use_size = h.in_use_size + size)
    (hcs : h'.cache_size = h.cache_size) :
    HeapInv max_alloc h' ((base, bytes) :: live) stale ((base, size) :: held) := by
  refine ⟨fun e hm => ?_, ?_, ?_, fun s hs => ?_, ?_, hok, hsep, ?_,
    by rw [hcs, hc]; exact hi.cache_size⟩
  · simp only [hbl, List.mem_append, List.mem_cons] at hm
    rcases hm with hm | rfl | hm
    · exact hi.blocks e (he ▸ List.mem_append_left _ hm)
    · exact hb
    · exact hi.blocks e (he ▸ List.mem_append_right _ hm)
  · have hfl := hi.free_list
    rw [he, freeAll_append] at hfl
    simp only [hbl, freeAll_append, freeAll_cons]
    refine hf.trans ((hfl.append_left _).trans ?_)
    rw [← List.append_assoc, ← List.append_assoc]
    exact List.perm_append_comm.append_right _
  · have hus := hi.used
    rw [he, usedAll_append] at hus
    simp only [hbl, usedAll_append, usedAll_cons, hu]
    exact (hus.cons _).trans List.perm_middle.symm
  · obtain ⟨e, hm, hse, hall⟩ := hi.stale_mem s hs
    exact ⟨e, hbl ▸ mem_around (he ▸ hm), hse, hall⟩
  · have hh := hi.held_perm
    rw [he, inUse_append] at hh
    simp only [hbl, hc, inUse_append, inUse_cons, ht, List.append_assoc, List.cons_append]
    refine (hh.cons _).trans ?_
    rw [List.append_assoc]
    exact List.perm_middle.symm
  · have hsum := hi.in_use_size
    rw [he, inUse_append, List.map_append, List.sum_append] at hsum
    simp only [hs, hbl, inUse_append, inUse_cons, ht, List.map_append, List.map_cons,
      List.sum_append, List.sum_cons]
    omega

/-- A block that is not held is not in the block list. -/
theorem HeapInv.find?_eq_none (hi : HeapInv max_alloc h live stale held) {size : ℕ}
    (hpos : 0 < size) (hsep : ∀ b ∈ held, Separate (base, size) b) :
    h.block_list.find? base = none := by
  by_contra hne
  obtain ⟨fm, hfm⟩ := Option.ne_none_iff_exists'.1 hne
  have hm := OrderedMap.mem_of_find? hfm
  have hok := (hi.blockOk hm).2.2.2.1
  rcases hsep _ (hi.mem_held hm) with hs | hs <;> simp only at hs hok <;> omega

/-- **`alloc` from a block of its own**, taken from the cache or from the block allocator. -/
theorem HeapInv.allocBlock (ndebug : Bool) {bytes size : ℕ}
    (hi : HeapInv max_alloc h live stale held) (hok : BlockOk max_alloc (base, size))
    (hsep : ∀ b ∈ held, Separate (base, size) b) (hpos : 0 < bytes) (hle : bytes ≤ max_alloc) :
    ∃ h' A B fm, h.allocBlock ndebug bytes base size = some h' ∧
      HeapInv max_alloc h' ((base, bytes) :: live) stale ((base, size) :: held) ∧
      h.block_list.entries = A ++ B ∧ h'.block_list.entries = A ++ (base, fm) :: B ∧
      total fm.entries = size ∧ ∀ f ∈ fm.entries, f.2.discard = false := by
  obtain ⟨hok₁, hok₂, hok₃, hok₄, hok₅⟩ := hok
  simp only at hok₁ hok₂ hok₃ hok₄ hok₅
  have hnone := hi.find?_eq_none hok₄ hsep
  obtain ⟨A, B, he, hA, hB⟩ := OrderedMap.exists_entries_of_find?_none hnone
  have hsep' : ((base, size) :: held).Pairwise Separate :=
    List.pairwise_cons.2 ⟨hsep, hi.separate⟩
  have hok' : ∀ b ∈ (base, size) :: held, BlockOk max_alloc b := fun b hb => by
    rcases List.mem_cons.1 hb with rfl | hb
    · exact ⟨hok₁, hok₂, hok₃, hok₄, hok₅⟩
    · exact hi.ok b hb
  -- the counter takes the new block without overflow
  have hin : u64 (h.in_use_size + size) = h.in_use_size + size := by
    have hsum := @sum_le_of_separate 1 (2 ^ 64) _ hsep' fun b hb =>
      ⟨(hok' b hb).1, (hok' b hb).2.1.le⟩
    rw [List.map_cons, List.sum_cons, ← hi.sizes] at hsum
    exact u64_of_lt (by omega)
  have hsize : size62 bytes = bytes := wrap_of_lt (by omega)
  rcases (hle.trans hok₃).eq_or_lt with rfl | hlt
  · -- one used fragment
    have hput : putFragment h.block_list base base (makeUsed bytes) =
        h.block_list.set base (OrderedMap.empty.set base (makeUsed bytes)) := by
      rw [putFragment, hnone, Option.getD_none]
    have hbl := OrderedMap.entries_set_of_lt base
      (OrderedMap.empty.set base (makeUsed bytes)) he hA hB
    have hfm : (OrderedMap.empty.set base (makeUsed bytes)).entries =
        [(base, { size := bytes, free := false })] := by
      rw [OrderedMap.entries_set, OrderedMap.entries_empty, OrderedMap.insertEntry, makeUsed, hsize]
    refine ⟨{ h with
        block_list := h.block_list.set base (OrderedMap.empty.set base (makeUsed bytes))
        in_use_size := h.in_use_size + bytes }, A, B, _, ?_,
      hi.addBlock he hsep' hok' hbl (hfm ▸ blockInv_whole hpos) ?_ ?_ ?_ rfl rfl rfl, he, hbl,
        ?_, ?_⟩
    · simp [SimpleHeap.allocBlock, assert_of_true, hput, hin]
    all_goals simp [hfm, usedFrags, freeFrags, span]
  · -- a used fragment, and the rest
    have haddr : u64 (base + bytes) = base + bytes := u64_of_lt (by omega)
    have hrest : size62 (size - bytes) = size - bytes := wrap_of_lt (by omega)
    obtain ⟨g, hg⟩ : ∃ g, g = makeFree (size - bytes, base + bytes) (size - bytes) := ⟨_, rfl⟩
    have hgs : g.size = size - bytes := by rw [hg, makeFree, hrest]
    have hput : putFragment h.block_list base (base + bytes) g =
        h.block_list.set base (OrderedMap.empty.set (base + bytes) g) := by
      rw [putFragment, hnone, Option.getD_none]
    have hbl₁ := OrderedMap.entries_set_of_lt base
      (OrderedMap.empty.set (base + bytes) g) he hA hB
    have hput₂ : putFragment (h.block_list.set base (OrderedMap.empty.set (base + bytes) g)) base
        base (makeUsed bytes) = (h.block_list.set base (OrderedMap.empty.set (base + bytes) g)).set
          base ((OrderedMap.empty.set (base + bytes) g).set base (makeUsed bytes)) := by
      rw [putFragment, OrderedMap.find?_of_entries hbl₁, Option.getD_some]
    have hbl := OrderedMap.entries_set_of_entries
      ((OrderedMap.empty.set (base + bytes) g).set base (makeUsed bytes)) hbl₁
    have hfm : ((OrderedMap.empty.set (base + bytes) g).set base (makeUsed bytes)).entries =
        [(base, { size := bytes, free := false }), (base + bytes, g)] := by
      rw [OrderedMap.entries_set, OrderedMap.entries_set, OrderedMap.entries_empty,
        OrderedMap.insertEntry, OrderedMap.insertEntry, if_pos (by simp only; omega), makeUsed,
        hsize]
    have hgf : g.free = true := by rw [hg]; rfl
    have hgd : g.discard = false := by rw [hg]; rfl
    have hge : g.free_list_entry = some (size - bytes, base + bytes) := by rw [hg]; rfl
    refine ⟨{ h with
        free_list := insertFree h.free_list (size - bytes, base + bytes)
        block_list := (h.block_list.set base (OrderedMap.empty.set (base + bytes) g)).set base
          ((OrderedMap.empty.set (base + bytes) g).set base (makeUsed bytes))
        in_use_size := h.in_use_size + size }, A, B, _, ?_,
      hi.addBlock he hsep' hok' hbl (hfm ▸ blockInv_new hpos hlt hgf hgd hgs hge) ?_ ?_ ?_ rfl rfl
        rfl, he, hbl, ?_, ?_⟩
    · simp [SimpleHeap.allocBlock, assert_of_true, hin, hlt, hlt.le, haddr, ← hg, hput, hput₂]
    · rw [hfm]
      simp [hgs]
      omega
    · simp [hfm, usedFrags, span, hgf]
    · rw [hfm, freeFrags_cons_used rfl, freeFrags_cons_free hgf hgd, hgs]
      exact insertFree_perm _ _
    · rw [hfm]
      simp [hgs]
      omega
    · simp [hfm, hgd]

/-- The invariant with the newest cached block set aside. -/
theorem HeapInv.popCache (hi : HeapInv max_alloc h live stale held) {b : ℕ × ℕ}
    {cache : List (ℕ × ℕ)} (hc : h.block_cache = cache ++ [b]) :
    HeapInv max_alloc { h with
        block_cache := cache, cache_size := sub64 h.cache_size b.2 } live stale
      (inUse h.block_list.entries ++ cache) ∧
      held.Perm (b :: (inUse h.block_list.entries ++ cache)) := by
  have hp : held.Perm (b :: (inUse h.block_list.entries ++ cache)) := by
    refine hi.held_perm.trans ?_
    rw [hc, ← List.append_assoc]
    exact List.perm_append_singleton _ _
  have hsub : (inUse h.block_list.entries ++ cache).Sublist
      (inUse h.block_list.entries ++ h.block_cache) := by
    rw [hc, ← List.append_assoc]
    exact List.sublist_append_left _ _
  refine ⟨⟨hi.blocks, hi.free_list, hi.used, hi.stale_mem, List.Perm.refl _, fun c hm => ?_,
    hi.pairwise.sublist hsub, hi.in_use_size, ?_⟩, hp⟩
  · exact hi.ok c (hp.mem_iff.2 (List.mem_cons_of_mem _ hm))
  · have hsize := hi.cache_size
    have hlt := hi.sizes_lt
    rw [hc, List.map_append, List.sum_append] at hsize
    simp only [List.map_cons, List.map_nil, List.sum_cons, List.sum_nil, Nat.add_zero] at hsize
    simp only
    rw [sub64_of_le (by omega) (by omega)]
    omega

/-- A new block is not discarded. -/
theorem discardedBlocks_new {bl : List (ℕ × FragMap)} (hi : HeapInv max_alloc h live stale held)
    (he : bl = A ++ B) (he' : h.block_list.entries = A ++ (base, fm) :: B)
    (hd : ∀ f ∈ fm.entries, f.2.discard = false) :
    discardedBlocks h.block_list.entries = discardedBlocks bl := by
  obtain ⟨f, hf⟩ := List.exists_mem_of_ne_nil _ (hi.blocks (base, fm) (he' ▸ by simp)).ne_nil
  rw [he, he', discardedBlocks_append, discardedBlocks_append,
    discardedBlocks_cons_of_not ⟨f, hf, hd f hf⟩]

/-- **What `alloc` does**: nothing, when the block allocator throws; else it makes bytes
live, none of them in a discarded block. -/
theorem HeapInv.alloc (ndebug : Bool) {bytes : ℕ} {block? : Option (ℕ × ℕ)}
    (hi : HeapInv max_alloc h live stale held) (hpos : 0 < bytes) (hle : bytes ≤ max_alloc)
    (hblock : ∀ b, block? = some b → BlockOk max_alloc b ∧ ∀ c ∈ held, Separate b c) :
    h.alloc ndebug max_alloc bytes block? = some (none, h, []) ∨
      ∃ p h' taken, h.alloc ndebug max_alloc bytes block? = some (some p, h', taken) ∧
        HeapInv max_alloc h' ((p, bytes) :: live) stale (taken ++ held) ∧
        discardedBlocks h'.block_list.entries = discardedBlocks h.block_list.entries ∧
        ∀ d ∈ discardedBlocks h.block_list.entries, Separate d (p, bytes) := by
  have hmax : ¬ bytes > max_alloc := by omega
  cases hlb : lowerBound h.free_list bytes with
  | some e =>
    obtain ⟨size, addr⟩ := e
    obtain ⟨h', A, b, fm, fm', B, hr, hi', he, he', hd, hd', hlo, hhi⟩ :=
      hi.allocFragment ndebug hpos hlb
    obtain ⟨f, hf⟩ := List.exists_mem_of_ne_nil _ (hi.blocks (b, fm) (he ▸ by simp)).ne_nil
    obtain ⟨f', hf'⟩ := List.exists_mem_of_ne_nil _ (hi'.blocks (b, fm') (he' ▸ by simp)).ne_nil
    refine .inr ⟨addr, h', [], by simp [SimpleHeap.alloc, hmax, hlb, hr], hi', ?_, fun d hm => ?_⟩
    · rw [he, he', discardedBlocks_append, discardedBlocks_append,
        discardedBlocks_cons_of_not ⟨f, hf, hd f hf⟩,
        discardedBlocks_cons_of_not ⟨f', hf', hd' f' hf'⟩]
    · exact (hi.separate_discarded he hd d hm).part hlo hhi
  | none =>
    cases hc : h.block_cache.getLast? with
    | some e =>
      obtain ⟨base, size⟩ := e
      obtain ⟨cache, hcache⟩ : ∃ cache, h.block_cache = cache ++ [(base, size)] :=
        List.getLast?_eq_some_iff.1 hc
      obtain ⟨hi₁, hp⟩ := hi.popCache hcache
      have hsep := (hp.pairwise_iff fun {_ _} h => h.symm).1 hi.separate
      obtain ⟨h', A, B, fm, hr, hi', he, he', ht, hd⟩ := hi₁.allocBlock ndebug
        (show BlockOk max_alloc (base, size) from hi.ok _ (hp.mem_iff.2 (List.mem_cons_self ..)))
        (List.pairwise_cons.1 hsep).1 hpos hle
      have hdisc := discardedBlocks_new hi' he he' hd
      refine .inr ⟨base, h', [], by simp [SimpleHeap.alloc, hmax, hlb, hcache, hr],
        hi'.congr_held hp, hdisc, fun d hm => ?_⟩
      have hok := hi.ok _ (hp.mem_iff.2 (List.mem_cons_self ..))
      have hs := (List.pairwise_cons.1 hsep).1 d
        (List.mem_append_left _ (discardedBlocks_sublist.subset hm))
      exact hs.symm.part le_rfl (by have := hle.trans hok.2.2.1; simp only at this ⊢; omega)
    | none =>
      cases block? with
      | none => exact .inl (by simp [SimpleHeap.alloc, hmax, hlb, hc])
      | some e =>
        obtain ⟨base, size⟩ := e
        obtain ⟨hok, hsep⟩ := hblock _ rfl
        obtain ⟨h', A, B, fm, hr, hi', he, he', ht, hd⟩ :=
          hi.allocBlock ndebug hok hsep hpos hle
        have hdisc := discardedBlocks_new hi' he he' hd
        have hbase : base ≠ 0 := hok.1.ne'
        refine .inr ⟨base, h', [(base, size)],
          by simp [SimpleHeap.alloc, hmax, hlb, hc, assert_of_true, hbase, hr], hi', hdisc,
          fun d hm => ?_⟩
        have hs := hsep d (hi.held_perm.mem_iff.2
          (List.mem_append_left _ (discardedBlocks_sublist.subset hm)))
        exact hs.symm.part le_rfl (by have := hle.trans hok.2.2.1; simp only at this ⊢; omega)

end Heaps

end Codrive.Heap
