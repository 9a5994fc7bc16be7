/-
# `SimpleHeap::free`, `trim` and `discardBlock` keep the invariant

`free` merges a fragment with its free neighbours.  A block that becomes one fragment leaves
the block list; a fragment of a discarded block that does not stays marked used, and is
stale from then on.
-/

import Codrive.Heap.SimpleHeapAlloc

namespace Codrive.Heap

open Codrive.Basis

section Merges

variable {base k : ℕ} {f : Fragment} {fm : FragMap} {fl : List (ℕ × ℕ)}
  {P S : List (ℕ × Fragment)}

/-- What a merge of the fragment at `k` keeps: `(addr, g)` is the fragment that holds its
bytes afterwards. -/
structure Merged (f : Fragment) (P S : List (ℕ × Fragment)) (k : ℕ) (Q T : List (ℕ × Fragment))
    (addr : ℕ) (g : Fragment) : Prop where
  /-- The other fragments are as they were. -/
  subset : ∀ e ∈ Q ++ T, e ∈ P ++ S
  /-- Only free fragments were merged. -/
  used : usedFrags Q ++ usedFrags T = usedFrags P ++ usedFrags S
  /-- The bytes are the same. -/
  tiles : ∀ lo hi, Tiles lo hi ((P ++ (k, f) :: S).map span) →
    Tiles lo hi ((Q ++ (addr, g) :: T).map span)
  /-- So is their number. -/
  bytes : total (Q ++ (addr, g) :: T) = total (P ++ (k, f) :: S)
  /-- The discard mark is the block's. -/
  discard : g.discard = f.discard
  /-- The fragment is off the free list. -/
  entry : g.free_list_entry = none
  /-- It did not shrink. -/
  size : f.size ≤ g.size

/-- Taking a free fragment's entry off the free list. -/
theorem removeFreeListEntry_perm {e : ℕ × Fragment} {R R' : List (ℕ × ℕ)}
    (hf : e.2.free = true)
    (he : e.2.free_list_entry = if e.2.free && !e.2.discard then some (e.2.size, e.1) else none)
    (hp : fl.Perm (R ++ freeFrags [e] ++ R')) :
    (removeFreeListEntry fl e.2).Perm (R ++ R') := by
  cases hd : e.2.discard with
  | true =>
    rw [freeFrags_cons_discard hd, freeFrags_nil, List.append_nil] at hp
    rw [removeFreeListEntry, he, hd]
    simpa [hf] using hp
  | false =>
    rw [freeFrags_cons_free hf hd, freeFrags_nil, List.append_assoc, List.singleton_append] at hp
    have hp' := (hp.trans List.perm_middle).erase (e.2.size, e.1)
    rw [List.erase_cons_head] at hp'
    rw [removeFreeListEntry, he, hd]
    simpa [hf] using hp'

/-- **"Merge lower"**, on a fragment of a block. -/
theorem mergeLower_spec (fl : List (ℕ × ℕ)) (hb : BlockInv base fm.entries)
    (hfm : fm.entries = P ++ (k, f) :: S)
    (hsmall : total fm.entries < 2 ^ 62) (hf : f.free_list_entry = none) :
    ∃ fl' fm' Q addr g, mergeLower fl fm k f = (fl', fm', addr, g) ∧
      fm'.entries = Q ++ (addr, g) :: S ∧ Merged f P S k Q S addr g ∧
      Q.IsChain (fun x y => ¬ (x.2.free = true ∧ y.2.free = true)) ∧
      (∀ e ∈ Q.getLast?, e.2.free = false) ∧
      ∀ R R', fl.Perm (R ++ freeFrags P ++ R') → fl'.Perm (R ++ freeFrags Q ++ R') := by
  have hc := hb.coalesced
  rw [hfm, List.isChain_append] at hc
  rcases P.eq_nil_or_concat with rfl | ⟨Q, ⟨lo, l⟩, rfl⟩
  · refine ⟨fl, fm, [], k, f, ?_, hfm, ⟨by simp, rfl, fun _ _ h => h, rfl, rfl, hf, le_rfl⟩,
      .nil,
      by simp, fun _ _ h => h⟩
    simp [mergeLower, OrderedMap.below_of_entries hfm]
  rw [List.concat_eq_append] at hfm hc ⊢
  have hhead : (fm.below k).head? = some (lo, l) := by
    rw [OrderedMap.below_of_entries hfm]
    simp
  cases hl : l.free with
  | false =>
    refine ⟨fl, fm, Q ++ [(lo, l)], k, f, ?_, hfm, ⟨fun _ h => h, rfl, fun _ _ h => h, rfl, rfl,
      hf, le_rfl⟩, hc.1, by simp [hl], fun _ _ h => h⟩
    simp [mergeLower, hhead, hl]
  | true =>
    have hm : (lo, l) ∈ fm.entries := hfm ▸ by simp
    have hsize : size62 (l.size + f.size) = l.size + f.size := by
      refine wrap_of_lt ?_
      rw [hfm] at hsmall
      simp only [total_append, total_cons, total_nil] at hsmall
      omega
    have hset := OrderedMap.entries_set_of_entries
      ({ l with free_list_entry := none, size := l.size + f.size } : Fragment)
      (show fm.entries = Q ++ (lo, l) :: (k, f) :: S by simp [hfm])
    have herase := OrderedMap.entries_erase_of_entries (show (fm.set lo
      { l with free_list_entry := none, size := l.size + f.size }).entries =
        (Q ++ [(lo, { l with free_list_entry := none, size := l.size + f.size })]) ++
          (k, f) :: S by simp [hset])
    -- the low fragment ends where this one starts
    have hk : k = lo + l.size := by
      have ht := hb.tiles
      rw [hfm, List.append_assoc, List.singleton_append, List.map_append, List.map_cons,
        List.map_cons, tiles_append_cons, tiles_cons] at ht
      exact ht.2.1
    refine ⟨removeFreeListEntry fl l, (fm.set lo
      { l with free_list_entry := none, size := l.size + f.size }).erase k, Q, lo,
      { l with free_list_entry := none, size := l.size + f.size }, ?_, by simp [herase],
      ⟨fun e he => ?_, ?_, fun a b ht => ?_, ?_, ?_, rfl, Nat.le_add_left ..⟩,
      (List.isChain_append.1 hc.1).1,
      fun e he => ?_, fun R R' hp => ?_⟩
    · simp [mergeLower, hhead, hl, hsize]
    · rw [List.append_assoc, List.singleton_append]
      exact mem_around he
    · rw [usedFrags_append, usedFrags_cons_free hl]
      simp
    · rw [List.append_assoc, List.singleton_append, List.map_append, List.map_cons, List.map_cons,
        span, span, hk] at ht
      rw [List.map_append, List.map_cons, span]
      exact tiles_split.1 ht
    · simp [Nat.add_assoc]
    · exact hb.flag _ hm (k, f) (hfm ▸ by simp)
    · have hcc := (List.isChain_append.1 hc.1).2.2 e he (lo, l) (by simp)
      simpa [hl] using hcc
    · rw [freeFrags_append, ← List.append_assoc] at hp
      exact removeFreeListEntry_perm hl (hb.entry _ hm) hp

/-- **"Merge upper"**, on a fragment of a block. -/
theorem mergeUpper_spec (fl : List (ℕ × ℕ)) {g : Fragment} {addr : ℕ} {Q : List (ℕ × Fragment)}
    (hfm : fm.entries = Q ++ (addr, g) :: S)
    (hentry : ∀ e ∈ S, e.2.free_list_entry =
      if e.2.free && !e.2.discard then some (e.2.size, e.1) else none)
    (ht : Tiles base (base + total fm.entries) (fm.entries.map span))
    (hc : S.IsChain fun x y => ¬ (x.2.free = true ∧ y.2.free = true))
    (hsmall : total fm.entries < 2 ^ 62) (hg : g.free_list_entry = none) :
    ∃ fl' fm' T g', mergeUpper fl fm addr g = (fl', fm', g') ∧
      fm'.entries = Q ++ (addr, g') :: T ∧ Merged g Q S addr Q T addr g' ∧ g'.free = g.free ∧
      T.IsChain (fun x y => ¬ (x.2.free = true ∧ y.2.free = true)) ∧
      (∀ e ∈ T.head?, e.2.free = false) ∧
      ∀ R R', fl.Perm (R ++ freeFrags S ++ R') → fl'.Perm (R ++ freeFrags T ++ R') := by
  have habove := OrderedMap.above?_of_entries hfm
  cases S with
  | nil =>
    refine ⟨fl, fm, [], g, ?_, hfm, ⟨fun _ h => h, rfl, fun _ _ h => h, rfl, rfl, hg, le_rfl⟩,
      rfl, .nil, by simp, fun _ _ h => h⟩
    simp [mergeUpper, habove]
  | cons u T =>
    obtain ⟨up, u⟩ := u
    cases hu : u.free with
    | false =>
      refine ⟨fl, fm, (up, u) :: T, g, ?_, hfm, ⟨fun _ h => h, rfl, fun _ _ h => h, rfl, rfl, hg,
        le_rfl⟩, rfl, hc, by simp [hu], fun _ _ h => h⟩
      simp [mergeUpper, habove, hu]
    | true =>
      have hsize : size62 (g.size + u.size) = g.size + u.size := by
        refine wrap_of_lt ?_
        rw [hfm] at hsmall
        simp only [total_append, total_cons] at hsmall
        omega
      have hset := OrderedMap.entries_set_of_entries
        ({ g with size := g.size + u.size } : Fragment) hfm
      have herase := OrderedMap.entries_erase_of_entries (show (fm.set addr
        { g with size := g.size + u.size }).entries =
          (Q ++ [(addr, { g with size := g.size + u.size })]) ++ (up, u) :: T by simp [hset])
      -- this fragment ends where the upper one starts
      have hup : up = addr + g.size := by
        rw [hfm, List.map_append, List.map_cons, List.map_cons, tiles_append_cons, tiles_cons] at ht
        exact ht.2.1
      refine ⟨removeFreeListEntry fl u, (fm.set addr { g with size := g.size + u.size }).erase up,
        T, { g with size := g.size + u.size }, ?_, by simp [herase],
        ⟨fun e he => ?_, ?_, fun a b ht => ?_, ?_, rfl, hg, Nat.le_add_right ..⟩, rfl,
        (List.isChain_cons.1 hc).2, fun e he => ?_, fun R R' hp => ?_⟩
      · simp [mergeUpper, habove, hu, hsize]
      · exact mem_around he
      · rw [usedFrags_cons_free hu]
      · rw [List.map_append, List.map_cons, List.map_cons, span, span, hup] at ht
        rw [List.map_append, List.map_cons, span]
        exact tiles_split.1 ht
      · simp [Nat.add_assoc]
      · have hcc := (List.isChain_cons.1 hc).1 e he
        simpa [hu] using hcc
      · rw [show (up, u) :: T = [(up, u)] ++ T from rfl, freeFrags_append, ← List.append_assoc,
          List.append_assoc] at hp
        have := removeFreeListEntry_perm hu
          (hentry (up, u) (List.mem_cons_self ..)) hp
        rwa [← List.append_assoc] at this

/-- **Both merges of `free`** around a used fragment: its bytes end up in one fragment
between used neighbours. -/
theorem merges_spec (fl : List (ℕ × ℕ)) (hb : BlockInv base fm.entries)
    (hfm : fm.entries = P ++ (k, f) :: S)
    (hsmall : total fm.entries < 2 ^ 62) (hf : f.free = false) :
    ∃ fl₁ fm₁ addr g fl₂ fm₂ g' Q T, mergeLower fl fm k f = (fl₁, fm₁, addr, g) ∧
      mergeUpper fl₁ fm₁ addr g = (fl₂, fm₂, g') ∧ fm₂.entries = Q ++ (addr, g') :: T ∧
      Merged f P S k Q T addr g' ∧
      Q.IsChain (fun x y => ¬ (x.2.free = true ∧ y.2.free = true)) ∧
      T.IsChain (fun x y => ¬ (x.2.free = true ∧ y.2.free = true)) ∧
      (∀ e ∈ Q.getLast?, e.2.free = false) ∧ (∀ e ∈ T.head?, e.2.free = false) ∧
      ∀ R R', fl.Perm (R ++ (freeFrags P ++ freeFrags S) ++ R') →
        fl₂.Perm (R ++ (freeFrags Q ++ freeFrags T) ++ R') := by
  have hentry := hb.entry
  have hc := hb.coalesced
  rw [hfm] at hentry hc
  simp only [List.forall_mem_append, List.forall_mem_cons] at hentry
  obtain ⟨fl₁, fm₁, Q, addr, g, hlow, he₁, hm₁, hQ, hQl, hp₁⟩ :=
    mergeLower_spec fl hb hfm hsmall (by simpa [hf] using hentry.2.1)
  have htot : total fm₁.entries = total fm.entries := by rw [he₁, hm₁.bytes, hfm]
  obtain ⟨fl₂, fm₂, T, g', hup, he₂, hm₂, -, hT, hTh, hp₂⟩ :=
    mergeUpper_spec fl₁ he₁ hentry.2.2
      (by
        rw [htot, he₁]
        refine hm₁.tiles base _ ?_
        rw [← hfm]
        exact hb.tiles)
      (List.isChain_cons.1 (List.isChain_append.1 hc).2.1).2 (htot ▸ hsmall) hm₁.entry
  refine ⟨fl₁, fm₁, addr, g, fl₂, fm₂, g', Q, T, hlow, hup, he₂, ⟨fun e he => ?_, ?_,
    fun a b h => hm₂.tiles a b (hm₁.tiles a b h), hm₂.bytes.trans hm₁.bytes,
    hm₂.discard.trans hm₁.discard, hm₂.entry, hm₁.size.trans hm₂.size⟩, hQ, hT, hQl, hTh,
    fun R R' hp => ?_⟩
  · exact hm₁.subset e (hm₂.subset e he)
  · exact hm₂.used.trans hm₁.used
  · have h₁ := hp₁ R (freeFrags S ++ R') (by simpa [List.append_assoc] using hp)
    have h₂ := hp₂ (R ++ freeFrags Q) R' (by simpa [List.append_assoc] using h₁)
    simpa [List.append_assoc] using h₂

/-- **What is left of a block after the merges is a block**, with the freed fragment
recorded as its mark says. -/
theorem Merged.blockInv {Q T : List (ℕ × Fragment)} {addr : ℕ} {g g' : Fragment}
    (hm : Merged f P S k Q T addr g) (hb : BlockInv base (P ++ (k, f) :: S))
    (hQ : Q.IsChain fun x y => ¬ (x.2.free = true ∧ y.2.free = true))
    (hT : T.IsChain fun x y => ¬ (x.2.free = true ∧ y.2.free = true))
    (hQl : ∀ e ∈ Q.getLast?, e.2.free = false) (hTh : ∀ e ∈ T.head?, e.2.free = false)
    (hne : Q ≠ [] ∨ T ≠ []) (hs : g'.size = g.size) (hd : g'.discard = g.discard)
    (he : g'.free_list_entry = if g'.free && !g'.discard then some (g'.size, addr) else none) :
    BlockInv base (Q ++ (addr, g') :: T) := by
  have hsub : ∀ e ∈ Q ++ T, e ∈ P ++ (k, f) :: S := fun e h => mem_around (hm.subset e h)
  have htot : total (Q ++ (addr, g') :: T) = total (P ++ (k, f) :: S) := by
    rw [← hm.bytes]
    simp [hs]
  have hsubQ : ∀ e ∈ Q, e ∈ P ++ (k, f) :: S := fun e h => hsub e (List.mem_append_left _ h)
  have hsubT : ∀ e ∈ T, e ∈ P ++ (k, f) :: S := fun e h => hsub e (List.mem_append_right _ h)
  have hflag : ∀ e ∈ Q ++ (addr, g') :: T, e.2.discard = f.discard := by
    have hmid : (k, f) ∈ P ++ (k, f) :: S := by simp
    simp only [List.forall_mem_append, List.forall_mem_cons]
    exact ⟨fun e h => hb.flag e (hsubQ e h) _ hmid, hd.trans hm.discard,
      fun e h => hb.flag e (hsubT e h) _ hmid⟩
  constructor
  case tiles =>
    rw [htot]
    have := hm.tiles _ _ hb.tiles
    simpa [span, hs] using this
  case pos =>
    have hpos := hb.pos (k, f) (by simp)
    simp only [List.forall_mem_append, List.forall_mem_cons]
    exact ⟨fun e h => hb.pos e (hsubQ e h), by have := hm.size; simp only at hpos; omega,
      fun e h => hb.pos e (hsubT e h)⟩
  case coalesced =>
    refine List.isChain_append.2 ⟨hQ, hT.cons fun y hy hxy => ?_, fun x hx y _ hxy => ?_⟩
    · simp [hTh y hy] at hxy
    · simp [hQl x hx] at hxy
  case entry =>
    simp only [List.forall_mem_append, List.forall_mem_cons]
    exact ⟨fun e h => hb.entry e (hsubQ e h), he, fun e h => hb.entry e (hsubT e h)⟩
  case used =>
    rcases hne with hne | hne
    · exact ⟨Q.getLast hne, List.mem_append_left _ (List.getLast_mem hne),
        hQl _ (List.getLast?_eq_some_getLast hne ▸ rfl)⟩
    · obtain ⟨e, T', rfl⟩ := List.exists_cons_of_ne_nil hne
      exact ⟨e, by simp, hTh e rfl⟩
  case flag => exact fun e h e' h' => (hflag e h).trans (hflag e' h').symm

end Merges

section Live

variable {max_alloc : ℕ} {h : SimpleHeap} {live stale held : List (ℕ × ℕ)}

/-- A used fragment is a part of a block in use. -/
theorem HeapInv.exists_block (hi : HeapInv max_alloc h live stale held) {p : ℕ × ℕ}
    (hp : p ∈ usedAll h.block_list.entries) :
    0 < p.2 ∧ ∃ e ∈ h.block_list.entries, e.1 ≤ p.1 ∧ p.1 + p.2 ≤ e.1 + total e.2.entries := by
  obtain ⟨e, he, hpe⟩ := List.mem_flatMap.1 hp
  obtain ⟨f, hf, -, hs⟩ := mem_usedFrags.1 hpe
  have hb := hi.blocks e he
  have hbd := hb.bounds hf
  have hpos := hb.pos _ hf
  simp only at hbd hpos
  exact ⟨by omega, e, he, by omega, by omega⟩

/-- **The used fragments are disjoint.** -/
theorem HeapInv.used_separate (hi : HeapInv max_alloc h live stale held) :
    (usedAll h.block_list.entries).Pairwise Separate := by
  refine List.pairwise_flatMap.2 ⟨fun e he => ?_, ?_⟩
  · exact (hi.blocks e he).tiles.pairwise_separate.sublist (List.filter_sublist.map _)
  · have hsep := (List.pairwise_append.1 hi.pairwise).1
    rw [inUse, List.pairwise_map] at hsep
    refine (hsep.imp_of_mem fun {a b} ha hb hab x hx y hy => ?_)
    obtain ⟨f, hf, -, hs⟩ := mem_usedFrags.1 hx
    obtain ⟨g, hg, -, ht⟩ := mem_usedFrags.1 hy
    have h₁ := (hi.blocks a ha).bounds hf
    have h₂ := (hi.blocks b hb).bounds hg
    simp only at h₁ h₂
    rcases hab with hab | hab <;> simp only at hab
    · exact .inl (by omega)
    · exact .inr (by omega)

/-- A used fragment is a part of one block. -/
theorem HeapInv.block_inj (hi : HeapInv max_alloc h live stale held) {e e' : ℕ × FragMap}
    {p : ℕ × ℕ} (he : e ∈ h.block_list.entries) (he' : e' ∈ h.block_list.entries)
    (hp : p ∈ usedFrags e.2.entries) (hp' : p ∈ usedFrags e'.2.entries) : e = e' := by
  have hsep := (List.pairwise_append.1 hi.pairwise).1
  rw [inUse, List.pairwise_map] at hsep
  have : Std.Symm fun a b : ℕ × FragMap =>
      Separate (a.1, total a.2.entries) (b.1, total b.2.entries) := ⟨fun _ _ h => h.symm⟩
  by_contra hne
  have hs := hsep.forall he he' hne
  obtain ⟨f, hf, -, hsz⟩ := mem_usedFrags.1 hp
  obtain ⟨g, hg, -, hsz'⟩ := mem_usedFrags.1 hp'
  have h₁ := (hi.blocks e he).bounds hf
  have h₂ := (hi.blocks e' he').bounds hg
  have hpos := (hi.blocks e he).pos _ hf
  simp only at h₁ h₂ hpos
  rcases hs with hs | hs <;> simp only at hs <;> omega

/-- Two used fragments at one address are one. -/
theorem HeapInv.used_inj (hi : HeapInv max_alloc h live stale held) {p q : ℕ × ℕ}
    (hp : p ∈ usedAll h.block_list.entries) (hq : q ∈ usedAll h.block_list.entries)
    (heq : p.1 = q.1) : p = q := by
  by_contra hne
  have hs := hi.used_separate.forall hp hq hne
  have h₁ := (hi.exists_block hp).1
  have h₂ := (hi.exists_block hq).1
  rcases hs with hs | hs <;> omega

/-- Erasing by key is erasing the one pair of that key. -/
theorem eraseP_fst_eq {l : List (ℕ × ℕ)} {x : ℕ × ℕ} (h : ∀ y ∈ l, y.1 = x.1 → y = x) :
    l.eraseP (fun p => decide (p.1 = x.1)) = l.erase x := by
  induction l with
  | nil => rfl
  | cons y l ih =>
    by_cases hy : y.1 = x.1
    · obtain rfl : y = x := h y (List.mem_cons_self ..) hy
      rw [List.eraseP_cons_of_pos (by simp), List.erase_cons_head]
    · have hne : y ≠ x := fun hxy => hy (hxy ▸ rfl)
      rw [List.eraseP_cons_of_neg (by simpa using hy), List.erase_cons_tail (by simpa using hne),
        ih fun z hz => h z (List.mem_cons_of_mem _ hz)]

/-- The fragment freed is dropped from the live allocations, or was stale. -/
theorem HeapInv.drop_live (hi : HeapInv max_alloc h live stale held) {x : ℕ × ℕ}
    (hx : x ∈ usedAll h.block_list.entries) :
    ∃ stale', (live.eraseP (fun p => decide (p.1 = x.1)) ++ stale').Perm
      ((usedAll h.block_list.entries).erase x) ∧ ∀ s ∈ stale', s ∈ stale := by
  have huniq : ∀ y ∈ live, y.1 = x.1 → y = x := fun y hy heq =>
    hi.used_inj (hi.used.mem_iff.1 (List.mem_append_left _ hy)) hx heq
  rw [eraseP_fst_eq huniq]
  by_cases hl : x ∈ live
  · exact ⟨stale, (List.erase_append_left _ hl) ▸ hi.used.erase x, fun _ h => h⟩
  · refine ⟨stale.erase x, ?_, fun s hs => List.mem_of_mem_erase hs⟩
    rw [List.erase_of_not_mem hl, ← List.erase_append_right _ hl]
    exact hi.used.erase x

end Live

section Cache

variable {max_alloc : ℕ} {h : SimpleHeap} {live stale held : List (ℕ × ℕ)}

/-- The loop over the cache gives back its oldest blocks, and keeps the count. -/
theorem releaseOld_spec (in_use : ℕ) :
    ∀ (cache : List (ℕ × ℕ)) (size : ℕ), size = (cache.map Prod.snd).sum → size < 2 ^ 64 →
      (releaseOld in_use cache size).2.2 ++ (releaseOld in_use cache size).1 = cache ∧
        (releaseOld in_use cache size).2.1 =
          (((releaseOld in_use cache size).1).map Prod.snd).sum
  | [], size, hs, _ => ⟨rfl, hs⟩
  | [b], size, hs, _ => ⟨rfl, hs⟩
  | b :: c :: cache, size, hs, hlt => by
    rw [List.map_cons, List.sum_cons] at hs
    have hsub : sub64 size b.2 = ((c :: cache).map Prod.snd).sum := by
      rw [sub64_of_le (by omega) hlt]
      omega
    have ih := releaseOld_spec in_use (c :: cache) (sub64 size b.2) hsub (by omega)
    rw [releaseOld]
    split_ifs with hc
    · exact ⟨by rw [List.cons_append, ih.1], ih.2⟩
    · exact ⟨rfl, by rw [List.map_cons, List.sum_cons]; exact hs⟩

/-- Giving back cached blocks. -/
theorem HeapInv.keepCache (hi : HeapInv max_alloc h live stale held) {given cache : List (ℕ × ℕ)}
    (hc : h.block_cache = given ++ cache) :
    HeapInv max_alloc { h with
        block_cache := cache, cache_size := (cache.map Prod.snd).sum } live stale
      (inUse h.block_list.entries ++ cache) ∧
      held.Perm (given ++ (inUse h.block_list.entries ++ cache)) := by
  have hp : held.Perm (given ++ (inUse h.block_list.entries ++ cache)) := by
    refine hi.held_perm.trans ?_
    rw [hc, ← List.append_assoc, ← List.append_assoc]
    exact List.perm_append_comm.append_right _
  have hsub : (inUse h.block_list.entries ++ cache).Sublist
      (inUse h.block_list.entries ++ h.block_cache) := by
    rw [hc]
    exact (List.sublist_append_right ..).append_left _
  exact ⟨⟨hi.blocks, hi.free_list, hi.used, hi.stale_mem, List.Perm.refl _,
    fun c hm => hi.ok c (hp.mem_iff.2 (List.mem_append_right _ hm)), hi.pairwise.sublist hsub,
    hi.in_use_size, rfl⟩, hp⟩

/-- A block goes to the end of the cache. -/
theorem HeapInv.pushCache (hi : HeapInv max_alloc h live stale held) {b : ℕ × ℕ}
    (hok : BlockOk max_alloc b) (hsep : ∀ c ∈ held, Separate b c) :
    HeapInv max_alloc { h with
      block_cache := h.block_cache ++ [b], cache_size := h.cache_size + b.2 } live stale
      (b :: held) := by
  refine ⟨hi.blocks, hi.free_list, hi.used, hi.stale_mem, ?_, fun c hc => ?_,
    List.pairwise_cons.2 ⟨hsep, hi.separate⟩, hi.in_use_size, ?_⟩
  · simp only
    rw [← List.append_assoc]
    exact (hi.held_perm.cons b).trans (List.perm_append_singleton _ _).symm
  · rcases List.mem_cons.1 hc with rfl | hc
    · exact hok
    · exact hi.ok c hc
  · simp only
    rw [List.map_append, List.sum_append, hi.cache_size]
    simp

/-- **A block leaves the blocks in use.** -/
theorem HeapInv.dropBlock (hi : HeapInv max_alloc h live stale held) {h₁ : SimpleHeap}
    {live' stale' : List (ℕ × ℕ)} {A B : List (ℕ × FragMap)} {b : ℕ × FragMap}
    (he : h.block_list.entries = A ++ b :: B) (hbl : h₁.block_list.entries = A ++ B)
    (hfl : h₁.free_list.Perm (freeAll A ++ freeAll B))
    (hused : (live' ++ stale').Perm (usedAll A ++ usedAll B)) (hst : ∀ s ∈ stale', s ∈ stale)
    (hc : h₁.block_cache = h.block_cache) (hcs : h₁.cache_size = h.cache_size)
    (hs : h₁.in_use_size = h.in_use_size - total b.2.entries) :
    HeapInv max_alloc h₁ live' stale' (inUse (A ++ B) ++ h.block_cache) ∧
      held.Perm ((b.1, total b.2.entries) :: (inUse (A ++ B) ++ h.block_cache)) := by
  have hsubm : ∀ e ∈ A ++ B, e ∈ h.block_list.entries := fun e hm => he ▸ mem_around hm
  have hp : held.Perm ((b.1, total b.2.entries) :: (inUse (A ++ B) ++ h.block_cache)) := by
    refine hi.held_perm.trans ?_
    rw [he, inUse_append, inUse_cons, inUse_append, List.append_assoc, List.append_assoc]
    exact List.perm_middle
  have hsep := (hp.pairwise_iff fun {_ _} h => h.symm).1 hi.separate
  refine ⟨⟨fun e hm => hi.blocks e (hsubm e (hbl ▸ hm)), ?_, ?_, fun s hm => ?_, ?_,
    fun c hm => hi.ok c (hp.mem_iff.2 (List.mem_cons_of_mem _ hm)),
    (List.pairwise_cons.1 hsep).2, ?_, by rw [hcs, hc]; exact hi.cache_size⟩, hp⟩
  · rw [hbl, freeAll_append]
    exact hfl
  · rw [hbl, usedAll_append]
    exact hused
  · -- a stale fragment that is left is in a block that is left
    obtain ⟨e, hem, hse, hall⟩ := hi.stale_mem s (hst s hm)
    have hmu := hused.mem_iff.1 (List.mem_append_right live' hm)
    rw [← usedAll_append] at hmu
    obtain ⟨e', hem', hse'⟩ := List.mem_flatMap.1 hmu
    obtain rfl := hi.block_inj hem (hsubm e' hem') hse hse'
    exact ⟨e, hbl ▸ hem', hse, hall⟩
  · rw [hbl, hc]
  · have hsum := hi.in_use_size
    rw [he, inUse_append, inUse_cons, List.map_append, List.map_cons, List.sum_append,
      List.sum_cons] at hsum
    rw [hs, hbl, inUse_append, List.map_append, List.sum_append]
    omega

end Cache

section Free

variable {max_alloc ptr base : ℕ} {h : SimpleHeap} {live stale held : List (ℕ × ℕ)}
  {A B : List (ℕ × FragMap)} {fm : FragMap} {f : Fragment} {P S : List (ℕ × Fragment)}

/-- **What `free` does to a fragment that is marked used.** -/
theorem HeapInv.free_used (hi : HeapInv max_alloc h live stale held)
    (he : h.block_list.entries = A ++ (base, fm) :: B) (hfm : fm.entries = P ++ (ptr, f) :: S)
    (hf : f.free = false) :
    ∃ h' given held' stale', h.free ptr = (true, h', given) ∧
      HeapInv max_alloc h' (live.eraseP fun p => decide (p.1 = ptr)) stale' held' ∧
      held.Perm (given ++ held') ∧
      (h'.block_list.entries = A ++ B ∧ (∀ s ∈ stale', s ∈ stale) ∧
          (f.discard = true → (base, total fm.entries) ∈ given) ∨
        ∃ fm', h'.block_list.entries = A ++ (base, fm') :: B ∧
          total fm'.entries = total fm.entries ∧ (∀ e ∈ fm'.entries, e.2.discard = f.discard) ∧
          given = [] ∧ (f.discard = false → ∀ s ∈ stale', s ∈ stale) ∧
          ∃ e ∈ P ++ S, e.2.free = false) := by
  have hbm : (base, fm) ∈ h.block_list.entries := he ▸ by simp
  have hfmem : (ptr, f) ∈ fm.entries := hfm ▸ by simp
  have hb := hi.blocks _ hbm
  obtain ⟨hok₁, hok₂, hok₃, hok₄, hok₅⟩ := hi.blockOk hbm
  simp only at hb hok₁ hok₂ hok₃ hok₄ hok₅
  have hbd := hb.bounds hfmem
  have hpos := hb.pos _ hfmem
  simp only at hbd hpos
  have hfloor := hi.floor? he hbd.1 (by omega)
  have hfind := OrderedMap.find?_of_entries hfm
  have hptr : ptr ≠ 0 := by omega
  obtain ⟨fl₁, fm₁, addr, g, fl₂, fm₂, g', Q, T, hlow, hup, he₂, hm, hQ, hT, hQl, hTh, hfree⟩ :=
    merges_spec h.free_list hb hfm hok₅ hf
  -- the free list without the entries of the merged fragments
  have hfl : fl₂.Perm (freeAll A ++ (freeFrags Q ++ freeFrags T) ++ freeAll B) := by
    refine hfree _ _ ?_
    have hp := hi.free_list
    rwa [he, freeAll_append, freeAll_cons, hfm, freeFrags_append, freeFrags_cons_used hf,
      ← List.append_assoc] at hp
  -- the used fragments without the one freed
  have hx : (ptr, f.size) ∈ usedAll h.block_list.entries :=
    List.mem_flatMap.2 ⟨_, hbm, mem_usedFrags.2 ⟨f, hfmem, hf, rfl⟩⟩
  obtain ⟨stale', hdrop, hst⟩ := hi.drop_live hx
  have hused : (live.eraseP (fun p => decide (p.1 = ptr)) ++ stale').Perm
      (usedAll A ++ (usedFrags Q ++ usedFrags T) ++ usedAll B) := by
    refine hdrop.trans ?_
    rw [hm.used, he, usedAll_append, usedAll_cons, hfm, usedFrags_append, usedFrags_cons_used hf]
    have hp := (@List.perm_middle _ (ptr, f.size) (usedAll A ++ usedFrags P)
      (usedFrags S ++ usedAll B)).erase (ptr, f.size)
    rw [List.erase_cons_head] at hp
    simpa only [List.append_assoc, List.cons_append] using hp
  have htot : total (Q ++ (addr, g') :: T) = total fm.entries := by rw [hm.bytes, hfm]
  have hlt := hi.sizes_lt
  by_cases hone : Q = [] ∧ T = []
  · -- one fragment is left: the whole block
    obtain ⟨rfl, rfl⟩ := hone
    have hwhole : addr = base ∧ g'.size = total fm.entries := by
      have ht := hm.tiles base _ (hfm ▸ hb.tiles)
      rw [← hfm] at ht
      simp only [List.nil_append, List.map_cons, List.map_nil, tiles_cons, tiles_nil, span] at ht
      omega
    obtain ⟨rfl, hsize⟩ := hwhole
    have hin : sub64 h.in_use_size g'.size = h.in_use_size - total fm.entries := by
      have hle : total fm.entries ≤ h.in_use_size := by
        rw [hi.in_use_size, he, inUse_append, inUse_cons]
        simp only [List.map_append, List.map_cons, List.sum_append, List.sum_cons]
        omega
      rw [hsize, sub64_of_le hle (by omega)]
    have herase := OrderedMap.entries_erase_of_entries he
    obtain ⟨hi₁, hp⟩ : HeapInv max_alloc { h with
          free_list := fl₂, block_list := h.block_list.erase addr
          in_use_size := sub64 h.in_use_size g'.size } (live.eraseP fun p => decide (p.1 = ptr))
          stale' (inUse (A ++ B) ++ h.block_cache) ∧
        held.Perm ((addr, total fm.entries) :: (inUse (A ++ B) ++ h.block_cache)) :=
      hi.dropBlock he herase (by simpa using hfl) (by simpa using hused) hst rfl rfl hin
    have hsep := (hp.pairwise_iff fun {_ _} h => h.symm).1 hi.separate
    cases hd : f.discard with
    | true =>
      obtain ⟨hr₁, hr₂⟩ := releaseOld_spec (sub64 h.in_use_size g'.size) h.block_cache h.cache_size
        hi.cache_size (by omega)
      obtain ⟨hi₂, hp₂⟩ := hi₁.keepCache hr₁.symm
      rw [← hr₂] at hi₂
      refine ⟨_, (addr, total fm.entries) ::
        (releaseOld (sub64 h.in_use_size g'.size) h.block_cache h.cache_size).2.2, _, stale', ?_,
        hi₂, ?_, .inl ⟨herase, hst, fun _ => List.mem_cons_self ..⟩⟩
      · simp [SimpleHeap.free, hptr, hfloor, hfind, hf, hlow, hup, he₂, hd, hsize]
      · exact hp.trans (hp₂.cons _)
    | false =>
      have hi₂ := hi₁.pushCache (hi.blockOk hbm) (List.pairwise_cons.1 hsep).1
      have hcs : u64 (h.cache_size + g'.size) = h.cache_size + total fm.entries := by
        have h₂ := hi₂.sizes_lt
        simp only at h₂
        rw [hsize]
        exact u64_of_lt (by omega)
      obtain ⟨hr₁, hr₂⟩ := releaseOld_spec (sub64 h.in_use_size g'.size)
        (h.block_cache ++ [(addr, total fm.entries)]) (h.cache_size + total fm.entries)
        hi₂.cache_size (by have := hi₂.sizes_lt; simp only at this; omega)
      obtain ⟨hi₃, hp₃⟩ := hi₂.keepCache hr₁.symm
      rw [← hr₂] at hi₃
      refine ⟨_, (releaseOld (sub64 h.in_use_size g'.size)
        (h.block_cache ++ [(addr, total fm.entries)]) (h.cache_size + total fm.entries)).2.2, _,
        stale', ?_, hi₃, ?_, .inl ⟨herase, hst, fun h => absurd h (by simp)⟩⟩
      · rw [hsize] at hcs
        simp [SimpleHeap.free, hptr, hfloor, hfind, hf, hlow, hup, he₂, hd, hsize, hcs]
      · exact hp.trans hp₃
  · -- other fragments are left, a neighbour of this one among them used
    have hne : Q ≠ [] ∨ T ≠ [] := by rwa [← not_and_or]
    have hlen : ¬ (fm₂.entries.length = 1) := by
      rw [he₂, List.length_append, List.length_cons]
      rcases hne with hne | hne <;> have := List.length_pos_iff.2 hne <;> omega
    have hother : ∃ e ∈ P ++ S, e.2.free = false := by
      rcases hne with hne | hne
      · exact ⟨Q.getLast hne, hm.subset _ (List.mem_append_left _ (List.getLast_mem hne)),
          hQl _ (List.getLast?_eq_some_getLast hne ▸ rfl)⟩
      · obtain ⟨e, T', rfl⟩ := List.exists_cons_of_ne_nil hne
        exact ⟨e, hm.subset _ (by simp), hTh e rfl⟩
    have hmark {g'' : Fragment} (hd : g''.discard = g'.discard) :
        ∀ e ∈ Q ++ (addr, g'') :: T, e.2.discard = f.discard := by
      have hsub : ∀ e ∈ P ++ S, e ∈ fm.entries := fun e h => hfm ▸ mem_around h
      simp only [List.forall_mem_append, List.forall_mem_cons]
      exact ⟨fun e h => hb.flag e (hsub e (hm.subset e (List.mem_append_left _ h))) _ hfmem,
        hd.trans hm.discard,
        fun e h => hb.flag e (hsub e (hm.subset e (List.mem_append_right _ h))) _ hfmem⟩
    cases hd : f.discard with
    | true =>
      have hbl := OrderedMap.entries_set_of_entries fm₂ he
      have hgd : g'.discard = true := hm.discard.trans hd
      have hblock : BlockInv base fm₂.entries :=
        he₂ ▸ hm.blockInv (hfm ▸ hb) hQ hT hQl hTh hne rfl rfl (by simp [hm.entry, hgd])
      have hall : ∀ e ∈ fm₂.entries, e.2.discard = true := by
        rw [he₂, ← hd]
        exact hmark rfl
      have hfrags : usedFrags fm₂.entries =
          usedFrags Q ++ (usedFrags [(addr, g')] ++ usedFrags T) := by
        rw [he₂, usedFrags_append, ← List.singleton_append, usedFrags_append]
      refine ⟨{ h with free_list := fl₂, block_list := h.block_list.set base fm₂ }, [], held,
        usedFrags [(addr, g')] ++ stale', ?_, hi.replaceBlock he hbl hblock (he₂ ▸ htot) rfl rfl rfl
          ?_ ?_ fun s hs => ?_, List.Perm.refl _,
        .inr ⟨fm₂, hbl, he₂ ▸ htot, fun e h => hall e h, rfl, fun h => absurd h (by simp),
          hother⟩⟩
      · simp only [SimpleHeap.free, hptr, if_false, hfloor, hfind, hf, Bool.false_eq_true, hlow,
          hup, hlen, hd, if_true]
      · rw [he₂, freeFrags_append, freeFrags_cons_discard hgd]
        exact hfl
      · rw [hfrags]
        refine List.perm_iff_count.2 fun x => ?_
        have hc := List.perm_iff_count.1 hused x
        simp only [List.count_append] at hc ⊢
        omega
      · -- what is stale afterwards: the fragment itself, or what was stale before
        rcases List.mem_append.1 hs with hs | hs
        · refine ⟨(base, fm₂), hbl ▸ by simp, ?_, hall⟩
          simp only [hfrags, List.mem_append]
          exact .inr (.inl hs)
        · obtain ⟨e, hem, hse, hed⟩ := hi.stale_mem s (hst s hs)
          have hmu := hused.mem_iff.1 (List.mem_append_right _ hs)
          simp only [List.mem_append, usedAll, List.mem_flatMap] at hmu
          have hin (e' : ℕ × FragMap) (hA : e' ∈ A ∨ e' ∈ B) : e' ∈ h.block_list.entries :=
            he ▸ mem_around (List.mem_append.2 hA)
          rcases hmu with (⟨e', hA, hse'⟩ | hQT) | ⟨e', hB, hse'⟩
          · obtain rfl := hi.block_inj hem (hin e' (.inl hA)) hse hse'
            exact ⟨e, hbl ▸ List.mem_append_left _ hA, hse, hed⟩
          · refine ⟨(base, fm₂), hbl ▸ by simp, ?_, hall⟩
            simp only [hfrags, List.mem_append]
            exact hQT.imp_right .inr
          · obtain rfl := hi.block_inj hem (hin e' (.inr hB)) hse hse'
            exact ⟨e, hbl ▸ List.mem_append_right _ (List.mem_cons_of_mem _ hB), hse, hed⟩
    | false =>
      have hgd : g'.discard = false := hm.discard.trans hd
      have hput := OrderedMap.entries_set_of_entries
        ({ g' with free := true, free_list_entry := some (g'.size, addr) } : Fragment) he₂
      have hbl := OrderedMap.entries_set_of_entries (fm₂.set addr
        { g' with free := true, free_list_entry := some (g'.size, addr) }) he
      have hblock : BlockInv base (Q ++ (addr, { g' with
          free := true, free_list_entry := some (g'.size, addr) }) :: T) :=
        hm.blockInv (hfm ▸ hb) hQ hT hQl hTh hne rfl rfl (by simp [hgd])
      refine ⟨{ h with
          free_list := insertFree fl₂ (g'.size, addr)
          block_list := h.block_list.set base (fm₂.set addr
            { g' with free := true, free_list_entry := some (g'.size, addr) }) }, [], held, stale',
        ?_, hi.replaceBlock he hbl (hput ▸ hblock) (by rw [hput, ← htot]; simp) rfl rfl rfl ?_ ?_
          fun s hs => hi.stale_frame he ⟨_, hfmem, hd⟩ hbl s (hst s hs), List.Perm.refl _,
        .inr ⟨_, hbl, by rw [hput, ← htot]; simp, ?_, rfl, fun _ => hst, hother⟩⟩
      · simp only [SimpleHeap.free, hptr, if_false, hfloor, hfind, hf, Bool.false_eq_true, hlow,
          hup, hlen, hd]
      · rw [hput, freeFrags_append, freeFrags_cons_free rfl hgd]
        refine (insertFree_perm _ _).trans ((hfl.cons _).trans ?_)
        simpa only [List.append_assoc, List.cons_append] using (@List.perm_middle _ _
          (freeAll A ++ freeFrags Q) (freeFrags T ++ freeAll B)).symm
      · rw [hput, usedFrags_append, usedFrags_cons_free rfl]
        exact hused
      · rw [hput, ← hd]
        exact hmark rfl

end Free

end Codrive.Heap
