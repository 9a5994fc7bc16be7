/-
# When a unified buffer is mapped as it should be

A call of `opu_update_dev_page_table` returns, passes every page with its address and leaves the
memory as it was if and only if (`updated_iff`) it does not get so far as to make the copy, or

* no check fails, for a call that a check ends keeps what it has made;
* the object is `Backed`: the table of the copy can be made, and each of its entries has a chunk;
* the range is `Mapped`: the nodes of device memory that it is in adjoin and the device has no
  offset, for only the start of the first one is passed, or the copy has an entry for each page.

The tables of `opu_pages_dma_map` have a chunk for every page if and only if there are fewer than
2^32 pages, in whole chunks (`covers_opuPagesDmaMap_iff`).
-/

import Codrive.Vm.DevPageTable

namespace Codrive.Vm

open Codrive.Basis

variable {env : Env} {s s' l : Memory} {obo : OpuBo} {mo p i n : ℕ} {m t : OpuMo}
variable {entries : List DmaAddr}

/-! ### Blocks behind those of the caller -/

theorem Memory.lt_of_object (h : s.object p = some m) : p < s.length := by
  unfold Memory.object at h
  split at h
  · next hp => exact Blocks.lt_of_read hp
  · cases h

theorem Memory.lt_of_table (h : s.table p = some entries) : p < s.length := by
  unfold Memory.table at h
  split at h
  · next hp => exact Blocks.lt_of_read hp
  · cases h

theorem Memory.object_append (h : s.object p = some m) : Memory.object (s ++ l) p = some m := by
  rw [Memory.object, Blocks.read_append_left (Memory.lt_of_object h)]
  exact h

theorem Memory.table_append (h : s.table p = some entries) :
    Memory.table (s ++ l) p = some entries := by
  rw [Memory.table, Blocks.read_append_left (Memory.lt_of_table h)]
  exact h

@[simp] theorem Memory.object_append_length :
    Memory.object (s ++ some (.object t) :: l) s.length = some t := by
  rw [Memory.object, Blocks.read_append_length]

@[simp] theorem Memory.table_append_length_succ (o : Option Block) :
    Memory.table (s ++ o :: some (.table entries) :: l) (s.length + 1) = some entries := by
  rw [Memory.table, Blocks.read_append_length_succ]

/-- The object of the caller, and the table it points to. -/
structure Memory.Holds (s : Memory) (mo : ℕ) (m : OpuMo) : Prop where
  object : s.object mo = some m
  table : ∀ p, m.dma_addr = some p → ∃ chunks, s.table p = some chunks

/-! ### The table of the copy -/

/-- The memory with a copy and its table. -/
def Memory.expanded (s : Memory) (t : OpuMo) (entries : List DmaAddr) : Memory :=
  s ++ [some (.object t), some (.table entries)]

/-- What an iteration of the loop does. -/
theorem fillEntry_iff (hs : s.Holds mo m) (ht : t.dma_addr = some (s.length + 1)) :
    fillEntry mo s.length m.pages.order (s.expanded t entries) i = some s' ↔
      m.pages.order < 31 ∧ i < entries.length ∧
        ∃ a, m.chunkAddr s i = some a ∧ s' = s.expanded t (entries.set i a) := by
  unfold fillEntry OpuMo.chunkAddr Memory.expanded
  rw [Memory.object_append hs.object, Memory.object_append_length]
  cases hsrc : m.dma_addr with
  | none => simp [hsrc]
  | some src =>
    obtain ⟨chunks, hchunks⟩ := hs.table src hsrc
    simp only [Option.bind_eq_bind, Option.bind_some, hsrc, hchunks, Memory.table_append hchunks,
      ht, Memory.table_append_length_succ, Nat.shiftRight_eq_div_pow, Nat.one_shiftLeft]
    cases chunks[i / 2 ^ m.pages.order]? with
    | none => simp
    | some base =>
      simp only [Option.bind_some, Option.some.injEq, exists_eq_left',
        Blocks.write_append_length_succ]
      split
      · next h => simp [h, eq_comm]
      · next h =>
        constructor
        · intro hno
          cases hno
        · rintro ⟨horder, hi, -⟩
          exact absurd ⟨horder, hi⟩ h

/-- **What the loop leaves**: entries that are the addresses of the pages. -/
theorem fill_of_some (hs : s.Holds mo m) (ht : t.dma_addr = some (s.length + 1))
    (h : (List.range n).foldlM (fillEntry mo s.length m.pages.order) (s.expanded t entries) =
      some s') :
    n ≤ entries.length ∧ ∃ entries', s' = s.expanded t entries' ∧
      entries'.length = entries.length ∧
      ∀ i < n, m.pages.order < 31 ∧ ∃ a, m.chunkAddr s i = some a ∧ entries'[i]? = some a := by
  induction n generalizing s' with
  | zero =>
    cases h
    exact ⟨Nat.zero_le _, entries, rfl, rfl, fun i hi => absurd hi (Nat.not_lt_zero i)⟩
  | succ n ih =>
    rw [List.range_succ, List.foldlM_append] at h
    obtain ⟨s₁, hs₁, h⟩ := Option.bind_eq_some_iff.1 h
    obtain ⟨hn, entries₁, rfl, hlen, hentries⟩ := ih hs₁
    simp only [List.foldlM_cons, List.foldlM_nil, bind_pure] at h
    obtain ⟨horder, hlt, a, ha, rfl⟩ := (fillEntry_iff hs ht).1 h
    refine ⟨by omega, entries₁.set n a, rfl, by rw [List.length_set, hlen], ?_⟩
    intro i hi
    by_cases hin : i = n
    · subst hin
      exact ⟨horder, a, ha, List.getElem?_set_self hlt⟩
    · obtain ⟨-, b, hb, hbi⟩ := hentries i (by omega)
      refine ⟨horder, b, hb, ?_⟩
      rw [List.getElem?_set_ne (Ne.symm hin), hbi]

/-- The loop ends if there is room, and each page has a chunk. -/
theorem exists_fill (hs : s.Holds mo m) (ht : t.dma_addr = some (s.length + 1))
    (hn : n ≤ entries.length)
    (hchunk : ∀ i < n, m.pages.order < 31 ∧ (m.chunkAddr s i).isSome) :
    ∃ s', (List.range n).foldlM (fillEntry mo s.length m.pages.order) (s.expanded t entries) =
      some s' := by
  induction n with
  | zero => exact ⟨_, rfl⟩
  | succ n ih =>
    obtain ⟨s₁, hs₁⟩ := ih (by omega) fun i hi => hchunk i (by omega)
    obtain ⟨-, entries₁, rfl, hlen, -⟩ := fill_of_some hs ht hs₁
    obtain ⟨horder, hsome⟩ := hchunk n (Nat.lt_succ_self n)
    obtain ⟨a, ha⟩ := Option.isSome_iff_exists.1 hsome
    have hstep : fillEntry mo s.length m.pages.order (s.expanded t entries₁) n =
        some (s.expanded t (entries₁.set n a)) :=
      (fillEntry_iff hs ht).2 ⟨horder, by omega, a, ha, rfl⟩
    refine ⟨s.expanded t (entries₁.set n a), ?_⟩
    rw [List.range_succ, List.foldlM_append, hs₁]
    refine Option.bind_eq_some_iff.2 ⟨_, rfl, ?_⟩
    simpa only [List.foldlM_cons, List.foldlM_nil, bind_pure] using hstep

/-! ### Tables of chunk addresses -/

section

variable {map : ℕ → DmaAddr} {failed : DmaAddr → Bool} {order : ℕ} {apages : Pages}
variable {kvzalloc : Bool} {chunks : List DmaAddr}

theorem length_mapChunks : (mapChunks map failed order n i entries).2.length = entries.length := by
  induction n generalizing i entries with
  | zero => rfl
  | succ n ih =>
    rw [mapChunks]
    split
    · exact List.length_set ..
    · rw [ih, List.length_set]

/-- The table has an entry for each whole chunk, of a number of pages that is cut to 32 bits. -/
theorem length_opuPagesDmaMap (h : (opuPagesDmaMap kvzalloc map failed apages).2 = some chunks) :
    chunks.length = apages.npages % 2 ^ 32 / 2 ^ apages.order := by
  unfold opuPagesDmaMap at h
  cases kvzalloc with
  | false => cases h
  | true =>
    rw [← Option.some.inj h, length_mapChunks, List.length_replicate, Nat.shiftRight_eq_div_pow]
    rfl

/-- The pages that have a chunk. -/
theorem isSome_chunkAddr (hp : m.dma_addr = some p) (htable : s.table p = some chunks) :
    (m.chunkAddr s i).isSome = true ↔ i / 2 ^ m.pages.order < chunks.length := by
  unfold OpuMo.chunkAddr
  rw [hp]
  simp only [Option.bind_eq_bind, Option.bind_some, htable]
  cases hbase : chunks[i / 2 ^ m.pages.order]? with
  | none => simpa using List.getElem?_eq_none_iff.1 hbase
  | some base => simpa using (List.getElem?_eq_some_iff.1 hbase).1

/-- **The tables of `opu_pages_dma_map` have a chunk for every page** if and only if the pages are
fewer than 2^32 and fill their chunks. -/
theorem covers_opuPagesDmaMap_iff (hp : m.dma_addr = some p) (htable : s.table p = some chunks)
    (h : (opuPagesDmaMap kvzalloc map failed m.pages).2 = some chunks) :
    (∀ i < m.pages.npages, (m.chunkAddr s i).isSome = true) ↔
      m.pages.npages = 0 ∨ m.pages.npages < 2 ^ 32 ∧ 2 ^ m.pages.order ∣ m.pages.npages := by
  have hpos : 0 < 2 ^ m.pages.order := Nat.two_pow_pos _
  simp only [isSome_chunkAddr hp htable, length_opuPagesDmaMap h]
  constructor
  · intro hcovers
    by_cases hzero : m.pages.npages = 0
    · exact .inl hzero
    · -- the chunk of the last page
      have hlast := hcovers (m.pages.npages - 1) (by omega)
      have hlt : m.pages.npages < 2 ^ 32 := by
        by_contra hge
        have hmod : m.pages.npages % 2 ^ 32 ≤ m.pages.npages - 1 := by omega
        have hle := @Nat.div_le_div_right _ _ (2 ^ m.pages.order) hmod
        omega
      rw [Nat.mod_eq_of_lt hlt] at hlast
      refine .inr ⟨hlt, ?_⟩
      have hmul := (Nat.div_lt_iff_lt_mul hpos).1 hlast
      have hdiv := Nat.div_mul_le_self m.pages.npages (2 ^ m.pages.order)
      exact ⟨m.pages.npages / 2 ^ m.pages.order, by rw [Nat.mul_comm]; omega⟩
  · rintro (hzero | ⟨hlt, hdvd⟩) i hi
    · omega
    · rw [Nat.mod_eq_of_lt hlt]
      exact Nat.div_lt_div_of_lt_of_dvd hdvd hi

end

/-- The copy, with a table of its own. -/
def OpuMo.copied (m : OpuMo) (p : Option ℕ) : OpuMo :=
  OpuMo.setDmaAddr { m with pages.order := 0 } p

@[simp] theorem OpuMo.size_copied (p : Option ℕ) : (m.copied p).size = m.size := rfl

@[simp] theorem OpuMo.dma_addr_copied (p : Option ℕ) : (m.copied p).dma_addr = p := rfl

@[simp] theorem OpuMo.order_copied (p : Option ℕ) : (m.copied p).pages.order = 0 := rfl

/-- The size of the table is a word, and room for each page only if it does not wrap. -/
theorem room_for_entries (n : ℕ) : u64 (n * 8) / 8 ≤ n ∧ (n ≤ u64 (n * 8) / 8 ↔ n < 2 ^ 61) := by
  unfold u64 wrap
  omega

/-- The copy is given its table before the loop. -/
theorem expand_of_kvzalloc (h : env.kvzalloc = true) :
    expand env (s ++ [some (.object m)]) mo s.length =
      (List.range m.pages.npages).foldlM (fillEntry mo s.length m.pages.order)
        (s.expanded (m.copied (some (s.length + 1)))
          (List.replicate (u64 (m.pages.npages * 8) / 8) 0)) := by
  unfold expand
  rw [Memory.object_append_length]
  simp only [Option.bind_eq_bind, Option.bind_some, Blocks.write_append_length, h, if_true,
    Blocks.alloc, List.append_assoc, List.cons_append, List.nil_append, List.length_append,
    List.length_cons, List.length_nil]
  rfl

/-- Without a table, there is none to fill. -/
theorem expand_of_not_kvzalloc (h : env.kvzalloc = false)
    (hexpand : expand env (s ++ [some (.object m)]) mo s.length = some s') :
    s' = s ++ [some (.object (m.copied none))] := by
  unfold expand at hexpand
  rw [Memory.object_append_length] at hexpand
  simp only [Option.bind_eq_bind, Option.bind_some, Blocks.write_append_length, h,
    Bool.false_eq_true, if_false] at hexpand
  cases hr : List.range m.pages.npages with
  | nil =>
    rw [hr] at hexpand
    cases hexpand
    rfl
  | cons i is =>
    rw [hr, List.foldlM_cons] at hexpand
    obtain ⟨s₁, hs₁, -⟩ := Option.bind_eq_some_iff.1 hexpand
    unfold fillEntry at hs₁
    simp only [Option.bind_eq_bind, Option.bind_eq_some_iff] at hs₁
    obtain ⟨m', -, src, -, chunks, -, base, -, t, ht, dst, hdst, -⟩ := hs₁
    rw [Memory.object_append_length] at ht
    cases ht
    cases hdst

/-! ### The rest of the call -/

section

variable {vram va : ℕ} {clear : Bool} {mapping : Mapping} {call : Call} {o : Outcome}

/-- What the update is handed. -/
theorem updateCall_eq_some (h : updateCall s va t mapping clear = some call) :
    call.start = va >>> PAGE_SHIFT ∧
      call.last = sub64 (va >>> PAGE_SHIFT + t.size >>> PAGE_SHIFT) 1 ∧
      startAddr t = some call.addr ∧ tableOf s t = some call.pages_addr ∧
      call.page_order = t.pages.order := by
  unfold updateCall at h
  simp only [Option.bind_eq_bind, Option.bind_eq_some_iff] at h
  obtain ⟨addr, haddr, pages_addr, htable, h⟩ := h
  cases h
  exact ⟨rfl, rfl, haddr, htable, rfl⟩

/-- The address that the update has for a page of the range. -/
theorem passed_page (hva : va < 2 ^ 64) (h : updateCall s va t mapping clear = some call)
    (hi : i < t.size / PAGE_SIZE) :
    call.passed (va / PAGE_SIZE + i) =
      match call.pages_addr with
      | none => some (.ofNat 64 (u64 (call.addr + i * PAGE_SIZE)))
      | some entries =>
        entries[u64 (call.addr + i * PAGE_SIZE) >>> (if call.page_order ≠ 0 then 16 else 12)]? := by
  obtain ⟨hstart, hlast, -⟩ := updateCall_eq_some h
  have hsize := t.size_lt
  have hpage : va >>> PAGE_SHIFT = va / 4096 := Nat.shiftRight_eq_div_pow ..
  have hpages : t.size >>> PAGE_SHIFT = t.size / 4096 := Nat.shiftRight_eq_div_pow ..
  change i < t.size / 4096 at hi
  rw [hpage] at hstart
  rw [hpage, hpages, sub64_of_le (by omega) (by omega)] at hlast
  have hrange : call.start ≤ va / 4096 + i ∧ va / 4096 + i ≤ call.last := by omega
  unfold Call.passed
  rewrite [if_pos hrange, hstart, Nat.add_sub_cancel_left]
  cases call.pages_addr <;> rfl

/-- A call that a check ends. -/
theorem updateThrough_of_none (ht : s.object p = some t) (h : mappingOf obo t = none) :
    updateThrough env s obo va mo p clear = some (⟨some .einval, none⟩, s) := by
  unfold updateThrough
  rw [ht, Option.bind_eq_bind, Option.bind_some, h]

/-- The mapping, where no check fails. -/
theorem mappingOf_eq_some : mappingOf obo t = some mapping ↔
    obo.is_unified = true ∧ (∃ bo_va rest, obo.bo_va = bo_va :: rest ∧
      bo_va.bo_va_mapping = mapping) ∧ mapping.offset = 0 ∧
      (t.is_dev_mem = true ∨ t.dma_addr ≠ none) := by
  unfold mappingOf
  constructor
  · intro h
    split at h
    · cases h
    · next hunified =>
      split at h
      · cases h
      · next bo_va rest hbo_va =>
        dsimp only at h
        split at h
        · cases h
        · next hoffset =>
          split at h
          · cases h
          · next hdma =>
            cases h
            refine ⟨by simpa using hunified, ⟨bo_va, rest, hbo_va, rfl⟩, not_not.1 hoffset, ?_⟩
            cases hdev : t.is_dev_mem with
            | true => exact .inl rfl
            | false => exact .inr (by simpa [hdev] using hdma)
  · rintro ⟨hunified, ⟨bo_va, rest, hbo_va, rfl⟩, hoffset, hdma⟩
    have hcheck : (!t.is_dev_mem && t.dma_addr.isNone) = false := by
      rcases hdma with hdev | hdma
      · rw [hdev]
        rfl
      · rw [Option.isNone_eq_false_iff.2 (Option.isSome_iff_ne_none.2 hdma), Bool.and_false]
    rw [hunified, hbo_va]
    dsimp only
    rw [if_neg (not_not.2 hoffset), hcheck]
    rfl

/-- The cleanup gives the copy back, where it has the table of the caller or none. -/
theorem updateThrough_plain (hs : s.object mo = some m)
    (hplain : (!m.is_dev_mem && m.pages.order != 0) = false)
    (hmap : mappingOf obo m = some mapping) :
    updateThrough env (s ++ [some (.object m)]) obo va mo s.length clear =
      (updateCall (s ++ [some (.object m)]) va m mapping clear).map fun call =>
        (⟨env.update call, some call⟩, s ++ [none]) := by
  unfold updateThrough
  rw [Memory.object_append_length, Memory.object_append hs]
  simp only [Option.bind_eq_bind, Option.bind_some, hmap, hplain, Bool.false_eq_true, if_false,
    Blocks.free_append_length]
  cases updateCall (s ++ [some (.object m)]) va m mapping clear <;> rfl

/-- The cleanup gives the table of the copy back, and then the copy. -/
theorem updateThrough_expanded (hs : s.object mo = some m)
    (hexpand : (!m.is_dev_mem && m.pages.order != 0) = true)
    (ht : t.dma_addr = some (s.length + 1)) (hmap : mappingOf obo t = some mapping) :
    updateThrough env (s.expanded t entries) obo va mo s.length clear =
      (updateCall (s.expanded t entries) va t mapping clear).map fun call =>
        (⟨env.update call, some call⟩, s ++ [none, none]) := by
  unfold updateThrough Memory.expanded
  rw [Memory.object_append_length, Memory.object_append hs]
  simp only [Option.bind_eq_bind, Option.bind_some, hmap, hexpand, if_true, ht, Memory.kvfree,
    Blocks.free_append_length_succ, Blocks.free_append_length]
  cases updateCall (s ++ [some (.object t), some (.table entries)]) va t mapping clear <;> rfl

/-- What is left of a copy that is not given back. -/
theorem not_updated_of_read {c : Block} (h : s'.read s.length = some c) :
    ¬ Updated vram s va m o s' := by
  intro hright
  rw [hright.released s.length (Nat.le_refl _)] at h
  cases h

end

/-! ### When the pages are passed with their addresses -/

/-- Nodes from an address on, each where the one before it ends, for this many pages. -/
def Adjoining : ℕ → List MmNode → ℕ → Prop
  | _, [], pages => pages = 0
  | start, node :: nodes, pages =>
    pages = 0 ∨ node.start = start ∧
      Adjoining (u64 (start + node.pages * PAGE_SIZE)) nodes (pages - node.pages)

/-- **The start of the first node says where the pages are** if the nodes adjoin. -/
theorem adjoining_iff {nodes : List MmNode} {start pages : ℕ} (hstart : start < 2 ^ 64) :
    Adjoining start nodes pages ↔
      ∀ i < pages, pageAddr 0 nodes i = some (u64 (start + i * PAGE_SIZE)) := by
  induction nodes generalizing start pages with
  | nil =>
    constructor
    · rintro rfl i hi
      exact absurd hi (Nat.not_lt_zero i)
    · intro h
      by_contra hne
      cases h 0 (Nat.pos_of_ne_zero hne)
  | cons node nodes ih =>
    have hpos := node.pages_pos
    rw [Adjoining, ih (u64_lt _)]
    constructor
    · rintro (rfl | ⟨rfl, hrest⟩) i hi
      · exact absurd hi (Nat.not_lt_zero i)
      · by_cases hnode : i < node.pages
        · rw [pageAddr, if_pos hnode, Nat.add_zero]
        · rw [pageAddr, if_neg hnode, hrest _ (by omega)]
          have hsum : node.start + i * 4096 =
              node.start + node.pages * 4096 + (i - node.pages) * 4096 := by omega
          simp [u64, wrap, hsum]
    · intro h
      by_cases hzero : pages = 0
      · exact .inl hzero
      · refine .inr ⟨?_, ?_⟩
        · have hfirst := h 0 (by omega)
          rw [pageAddr, if_pos hpos, Option.some.injEq, Nat.zero_mul, Nat.add_zero, Nat.add_zero,
            u64_of_lt node.start_lt, u64_of_lt hstart] at hfirst
          exact hfirst
        · intro i hi
          have hnext := h (i + node.pages) (by omega)
          rw [pageAddr, if_neg (by omega), Nat.add_sub_cancel] at hnext
          rw [hnext]
          have hsum : start + (i + node.pages) * 4096 =
              start + node.pages * 4096 + i * 4096 := by omega
          simp [u64, wrap, hsum]

/-- An offset of the device that wraps to nothing. -/
theorem pageAddr_of_u64 {nodes : List MmNode} {vram : ℕ} (h : u64 vram = 0) (i : ℕ) :
    pageAddr vram nodes i = pageAddr 0 nodes i := by
  induction nodes generalizing i with
  | nil => rfl
  | cons node nodes ih =>
    have hword : u64 (node.start + vram + i * 4096) = u64 (node.start + 0 + i * 4096) := by
      unfold u64 wrap at h ⊢
      omega
    rw [pageAddr, pageAddr, ih, hword]

/-- The addresses of device memory are words. -/
theorem pageAddr_lt {nodes : List MmNode} {vram a : ℕ} (h : pageAddr vram nodes i = some a) :
    a < 2 ^ 64 := by
  induction nodes generalizing i with
  | nil => cases h
  | cons node nodes ih =>
    rw [pageAddr] at h
    split at h
    · cases h
      exact u64_lt _
    · exact ih h

/-- What a word is as an address. -/
theorem ofNat_inj {a b : ℕ} (ha : a < 2 ^ 64) (hb : b < 2 ^ 64) :
    BitVec.ofNat 64 a = BitVec.ofNat 64 b ↔ a = b := by
  rw [← BitVec.toNat_inj, BitVec.toNat_ofNat, BitVec.toNat_ofNat, Nat.mod_eq_of_lt ha,
    Nat.mod_eq_of_lt hb]

/-- Where the pages of the object are is known, and the table of the copy can be made: each page of
the table has a chunk. -/
def OpuMo.Backed (env : Env) (s : Memory) (m : OpuMo) : Prop :=
  match m.backing with
  | .dev_mem nodes => nodes ≠ []
  | .sys_mem p =>
    if m.pages.order = 0 then p ≠ none
    else env.kvzalloc = true ∧ m.pages.npages < 2 ^ 61 ∧
      ∀ i < m.pages.npages, m.pages.order < 31 ∧ (m.chunkAddr s i).isSome = true

/-- The pages of the range are where the update looks for them. -/
def OpuMo.Mapped (vram_base_offset : ℕ) (s : Memory) (m : OpuMo) : Prop :=
  let pages := m.size / PAGE_SIZE
  match m.backing with
  | .dev_mem nodes =>
    pages = 0 ∨ u64 vram_base_offset = 0 ∧
      ∃ node rest, nodes = node :: rest ∧ Adjoining node.start nodes pages
  | .sys_mem _ =>
    if m.pages.order = 0 then ∀ i < pages, (m.chunkAddr s i).isSome = true
    else pages ≤ m.pages.npages

/-- What a call has to find. -/
structure OpuMo.Updatable (env : Env) (vram_base_offset : ℕ) (s : Memory) (obo : OpuBo)
    (m : OpuMo) : Prop where
  unified : obo.is_unified = true
  bo_va : ∃ bo_va rest, obo.bo_va = bo_va :: rest ∧ bo_va.bo_va_mapping.offset = 0
  backed : m.Backed env s
  mapped : m.Mapped vram_base_offset s

section

variable {vram va : ℕ} {clear : Bool} {mapping : Mapping} {call : Call} {o : Outcome}
variable {nodes : List MmNode}

/-- The pages of device memory, through the start of the first node. -/
theorem passed_dev_iff (hva : va < 2 ^ 64) (hm : m.backing = .dev_mem nodes)
    (hcall : updateCall s' va m mapping clear = some call) :
    (∀ i < m.size / PAGE_SIZE, ∃ a, m.pageAddr vram s i = some a ∧
      call.passed (va / PAGE_SIZE + i) = some a) ↔ m.Mapped vram s := by
  obtain ⟨-, -, haddr, htable, -⟩ := updateCall_eq_some hcall
  have hpages : call.pages_addr = none := by
    have hdma : m.dma_addr = none := by rw [OpuMo.dma_addr, hm]
    rw [tableOf, hdma] at htable
    exact (Option.some.inj htable).symm
  obtain ⟨node, rest, rfl, hstart⟩ :
      ∃ node rest, nodes = node :: rest ∧ node.start = call.addr := by
    rw [startAddr, hm] at haddr
    cases nodes with
    | nil => cases haddr
    | cons node rest => exact ⟨node, rest, rfl, Option.some.inj haddr⟩
  have hpassed : ∀ i < m.size / PAGE_SIZE, call.passed (va / PAGE_SIZE + i) =
      some (.ofNat 64 (u64 (node.start + i * PAGE_SIZE))) := by
    intro i hi
    rw [passed_page hva hcall hi, hpages, hstart]
  have hpage : ∀ i < m.size / PAGE_SIZE, (∃ a, m.pageAddr vram s i = some a ∧
      call.passed (va / PAGE_SIZE + i) = some a) ↔
      pageAddr vram (node :: rest) i = some (u64 (node.start + i * PAGE_SIZE)) := by
    intro i hi
    rw [hpassed i hi, OpuMo.pageAddr, hm]
    dsimp only
    cases haddr : pageAddr vram (node :: rest) i with
    | none => simp
    | some a =>
      simp only [Option.map_some, Option.some.injEq, exists_eq_left']
      rw [eq_comm, ofNat_inj (pageAddr_lt haddr) (u64_lt _)]
  unfold OpuMo.Mapped
  rw [hm]
  dsimp only
  constructor
  · intro h
    by_cases hzero : m.size / PAGE_SIZE = 0
    · exact .inl hzero
    · have hvram : u64 vram = 0 := by
        have hfirst := (hpage 0 (Nat.pos_of_ne_zero hzero)).1 (h 0 (Nat.pos_of_ne_zero hzero))
        have hlt := node.start_lt
        rw [Vm.pageAddr, if_pos node.pages_pos, Option.some.injEq] at hfirst
        unfold u64 wrap at hfirst ⊢
        omega
      refine .inr ⟨hvram, node, rest, rfl, (adjoining_iff node.start_lt).2 fun i hi => ?_⟩
      rw [← pageAddr_of_u64 hvram]
      exact (hpage i hi).1 (h i hi)
  · rintro (hzero | ⟨hvram, node', rest', heq, hadjoin⟩) i hi
    · omega
    · cases heq
      rw [hpage i hi, pageAddr_of_u64 hvram]
      exact (adjoining_iff node.start_lt).1 hadjoin i hi

/-- The pages of system memory, through a table with an entry for each page. -/
theorem passed_table (hva : va < 2 ^ 64) (hsize : t.size = m.size) (horder : t.pages.order = 0)
    (hdma : t.dma_addr = some p) (htable : s'.table p = some entries)
    (hcall : updateCall s' va t mapping clear = some call) (hi : i < m.size / PAGE_SIZE) :
    call.passed (va / PAGE_SIZE + i) = entries[i]? := by
  obtain ⟨-, -, haddr, hpages, hpage_order⟩ := updateCall_eq_some hcall
  have hzero : call.addr = 0 := by
    cases hb : t.backing with
    | dev_mem nodes =>
      rw [OpuMo.dma_addr, hb] at hdma
      cases hdma
    | sys_mem q =>
      rw [startAddr, hb] at haddr
      exact (Option.some.inj haddr).symm
  have hentries : call.pages_addr = some entries := by
    rw [tableOf, hdma] at hpages
    simp only [htable, Option.map_some, Option.some.injEq] at hpages
    exact hpages.symm
  have hlt := t.size_lt
  have hindex : u64 (0 + i * PAGE_SIZE) >>> 12 = i := by
    change i < m.size / 4096 at hi
    change u64 (0 + i * 4096) >>> 12 = i
    rw [Nat.shiftRight_eq_div_pow, u64_of_lt (by omega)]
    omega
  rw [passed_page hva hcall (hsize ▸ hi), hentries, hzero, hpage_order, horder]
  simp only [ne_eq, not_true_eq_false, if_false, hindex]

/-- What is left to say when everything that was made is given back. -/
theorem updated_restored_iff {err : Option Errno} (h : ∀ b ∈ l, b = none) :
    Updated vram s va m ⟨err, some call⟩ (s ++ l) ↔ ∀ i < m.size / PAGE_SIZE,
      ∃ a, m.pageAddr vram s i = some a ∧ call.passed (va / PAGE_SIZE + i) = some a := by
  constructor
  · intro hright
    exact hright.passed call rfl
  · intro hpassed
    refine ⟨?_, fun p hp => Blocks.read_append_left hp, fun p hp => Blocks.read_append_none h hp⟩
    rintro call' hcall'
    cases hcall'
    exact hpassed

/-- The copy of an object that is backed passes the checks of its table. -/
theorem OpuMo.Updatable.mappingOf (h : m.Updatable env vram s obo)
    (ht : t.is_dev_mem = true ∨ t.dma_addr ≠ none) :
    ∃ mapping, Vm.mappingOf obo t = some mapping := by
  obtain ⟨bo_va, rest, hbo_va, hoffset⟩ := h.bo_va
  exact ⟨_, mappingOf_eq_some.2 ⟨h.unified, ⟨bo_va, rest, hbo_va, rfl⟩, hoffset, ht⟩⟩

/-- A call is made where the first node and the table are there. -/
theorem exists_updateCall_iff : (∃ call, updateCall s va t mapping clear = some call) ↔
    (startAddr t).isSome = true ∧ (tableOf s t).isSome = true := by
  unfold updateCall
  cases startAddr t <;> cases tableOf s t <;> simp

/-- Where every page is a chunk. -/
theorem chunkAddr_of_order_zero (horder : m.pages.order = 0) (hdma : m.dma_addr = some p)
    (htable : s.table p = some entries) (i : ℕ) : m.chunkAddr s i = entries[i]? := by
  unfold OpuMo.chunkAddr
  rw [hdma, horder]
  simp only [Option.bind_eq_bind, Option.bind_some, htable, Nat.pow_zero, Nat.div_one, Nat.mod_one,
    Nat.zero_mul, BitVec.add_zero]
  cases entries[i]? <;> rfl

/-- The call for an object whose table the copy shares, or that has none. -/
theorem exists_call_plain_iff (hs : s.Holds mo m) (hva : va < 2 ^ 64)
    (hplain : (!m.is_dev_mem && m.pages.order != 0) = false)
    (hdma : m.is_dev_mem = true ∨ m.dma_addr ≠ none) :
    (∃ call, updateCall (s ++ l) va m mapping clear = some call ∧
      ∀ i < m.size / PAGE_SIZE, ∃ a, m.pageAddr vram s i = some a ∧
        call.passed (va / PAGE_SIZE + i) = some a) ↔ m.Backed env s ∧ m.Mapped vram s := by
  cases hb : m.backing with
  | dev_mem nodes =>
    have hbacked : m.Backed env s ↔ nodes ≠ [] := by
      unfold OpuMo.Backed
      rw [hb]
    have hcall : (∃ call, updateCall (s ++ l) va m mapping clear = some call) ↔ nodes ≠ [] := by
      rw [exists_updateCall_iff, startAddr, tableOf, OpuMo.dma_addr, hb]
      cases nodes <;> simp
    rw [hbacked, ← hcall]
    constructor
    · rintro ⟨call, hcall, hpassed⟩
      exact ⟨⟨call, hcall⟩, (passed_dev_iff hva hb hcall).1 hpassed⟩
    · rintro ⟨⟨call, hcall⟩, hmapped⟩
      exact ⟨call, hcall, (passed_dev_iff hva hb hcall).2 hmapped⟩
  | sys_mem q =>
    have horder : m.pages.order = 0 := by simpa [OpuMo.is_dev_mem, hb] using hplain
    obtain ⟨p, hp⟩ : ∃ p, m.dma_addr = some p := by
      refine Option.ne_none_iff_exists'.1 (hdma.resolve_left ?_)
      rw [OpuMo.is_dev_mem, hb]
      simp
    have hq : q = some p := by rwa [OpuMo.dma_addr, hb] at hp
    obtain ⟨entries, hentries⟩ := hs.table p hp
    have hbacked : m.Backed env s := by
      unfold OpuMo.Backed
      rw [hb]
      dsimp only
      rw [if_pos horder, hq]
      exact Option.some_ne_none p
    have hmapped : m.Mapped vram s ↔ ∀ i < m.size / PAGE_SIZE, (m.chunkAddr s i).isSome = true := by
      unfold OpuMo.Mapped
      rw [hb]
      dsimp only
      rw [if_pos horder]
    obtain ⟨call, hcall⟩ : ∃ call, updateCall (s ++ l) va m mapping clear = some call := by
      rw [exists_updateCall_iff, startAddr, tableOf, hp, hb]
      simp [Memory.table_append hentries]
    have hpassed : ∀ i < m.size / PAGE_SIZE, m.pageAddr vram s i = m.chunkAddr s i ∧
        call.passed (va / PAGE_SIZE + i) = m.chunkAddr s i := by
      intro i hi
      rw [passed_table hva rfl horder hp (Memory.table_append hentries) hcall hi,
        chunkAddr_of_order_zero horder hp hentries]
      refine ⟨?_, rfl⟩
      rw [OpuMo.pageAddr, hb]
      exact chunkAddr_of_order_zero horder hp hentries i
    rw [hmapped]
    constructor
    · rintro ⟨call', hcall', h⟩
      refine ⟨hbacked, fun i hi => ?_⟩
      obtain ⟨a, ha, -⟩ := h i hi
      rw [← (hpassed i hi).1, ha]
      rfl
    · rintro ⟨-, h⟩
      refine ⟨call, hcall, fun i hi => ?_⟩
      obtain ⟨a, ha⟩ := Option.isSome_iff_exists.1 (h i hi)
      exact ⟨a, (hpassed i hi).1.trans ha, (hpassed i hi).2.trans ha⟩

/-- **An object whose table the copy shares**, or that has none. -/
theorem updated_plain_iff (hs : s.Holds mo m) (hva : va < 2 ^ 64)
    (hplain : (!m.is_dev_mem && m.pages.order != 0) = false) :
    (∃ o s', updateThrough env (s ++ [some (.object m)]) obo va mo s.length clear = some (o, s') ∧
      Updated vram s va m o s') ↔ m.Updatable env vram s obo := by
  cases hmap : mappingOf obo m with
  | none =>
    rw [updateThrough_of_none Memory.object_append_length hmap]
    constructor
    · rintro ⟨o, s', heq, hright⟩
      cases heq
      exact absurd hright (not_updated_of_read (Blocks.read_append_length _))
    · intro h
      have hdma : m.is_dev_mem = true ∨ m.dma_addr ≠ none := by
        have hbacked := h.backed
        unfold OpuMo.Backed at hbacked
        cases hb : m.backing with
        | dev_mem nodes => exact .inl (by rw [OpuMo.is_dev_mem, hb])
        | sys_mem p =>
          have horder : m.pages.order = 0 := by simpa [OpuMo.is_dev_mem, hb] using hplain
          rw [hb] at hbacked
          dsimp only at hbacked
          rw [if_pos horder] at hbacked
          exact .inr (by rwa [OpuMo.dma_addr, hb])
      obtain ⟨mapping, hmapping⟩ := h.mappingOf hdma
      rw [hmap] at hmapping
      cases hmapping
  | some mapping =>
    obtain ⟨hunified, ⟨bo_va, rest, hbo_va, rfl⟩, hoffset, hdma⟩ := mappingOf_eq_some.1 hmap
    rw [updateThrough_plain hs.object hplain hmap]
    have hiff : (∃ o s', ((updateCall (s ++ [some (.object m)]) va m bo_va.bo_va_mapping clear).map
        fun call => ((⟨env.update call, some call⟩ : Outcome), s ++ [none])) = some (o, s') ∧
        Updated vram s va m o s') ↔
        ∃ call, updateCall (s ++ [some (.object m)]) va m bo_va.bo_va_mapping clear = some call ∧
          ∀ i < m.size / PAGE_SIZE, ∃ a, m.pageAddr vram s i = some a ∧
            call.passed (va / PAGE_SIZE + i) = some a := by
      constructor
      · rintro ⟨o, s', heq, hright⟩
        obtain ⟨call, hcall, heq⟩ := Option.map_eq_some_iff.1 heq
        cases heq
        exact ⟨call, hcall, (updated_restored_iff (by simp)).1 hright⟩
      · rintro ⟨call, hcall, hpassed⟩
        exact ⟨_, _, Option.map_eq_some_iff.2 ⟨call, hcall, rfl⟩,
          (updated_restored_iff (by simp)).2 hpassed⟩
    rw [hiff]
    have hrest : m.Updatable env vram s obo ↔ m.Backed env s ∧ m.Mapped vram s :=
      ⟨fun h => ⟨h.backed, h.mapped⟩, fun h => ⟨hunified, ⟨bo_va, rest, hbo_va, hoffset⟩, h.1, h.2⟩⟩
    rw [hrest]
    exact exists_call_plain_iff hs hva hplain hdma

/-- **An object whose copy gets a table of its own.** -/
theorem updated_expanded_iff (hs : s.Holds mo m) (hva : va < 2 ^ 64)
    (hexpand : (!m.is_dev_mem && m.pages.order != 0) = true) :
    (∃ o s', (expand env (s ++ [some (.object m)]) mo s.length).bind (fun s₁ =>
        updateThrough env s₁ obo va mo s.length clear) = some (o, s') ∧
      Updated vram s va m o s') ↔ m.Updatable env vram s obo := by
  obtain ⟨q, hb⟩ : ∃ q, m.backing = .sys_mem q := by
    cases hb : m.backing with
    | dev_mem nodes => simp [OpuMo.is_dev_mem, hb] at hexpand
    | sys_mem q => exact ⟨q, rfl⟩
  have horder : m.pages.order ≠ 0 := by simpa [OpuMo.is_dev_mem, hb] using hexpand
  have hbacked : m.Backed env s ↔ env.kvzalloc = true ∧ m.pages.npages < 2 ^ 61 ∧
      ∀ i < m.pages.npages, m.pages.order < 31 ∧ (m.chunkAddr s i).isSome = true := by
    unfold OpuMo.Backed
    rw [hb]
    dsimp only
    rw [if_neg horder]
  have hmapped : m.Mapped vram s ↔ m.size / PAGE_SIZE ≤ m.pages.npages := by
    unfold OpuMo.Mapped
    rw [hb]
    dsimp only
    rw [if_neg horder]
  have hpage : ∀ i, m.pageAddr vram s i = m.chunkAddr s i := by
    intro i
    rw [OpuMo.pageAddr, hb]
  cases hkv : env.kvzalloc with
  | false =>
    constructor
    · rintro ⟨o, s', h, hright⟩
      obtain ⟨s₁, hs₁, h⟩ := Option.bind_eq_some_iff.1 h
      rw [expand_of_not_kvzalloc hkv hs₁, updateThrough_of_none Memory.object_append_length] at h
      · cases h
        exact absurd hright (not_updated_of_read (Blocks.read_append_length _))
      · by_contra hne
        obtain ⟨mapping, hmapping⟩ := Option.ne_none_iff_exists'.1 hne
        obtain ⟨-, -, -, hdma⟩ := mappingOf_eq_some.1 hmapping
        exact hdma.elim (by simp [OpuMo.copied, OpuMo.setDmaAddr, OpuMo.is_dev_mem]) fun h => h rfl
    · intro h
      have := (hbacked.1 h.backed).1
      rw [hkv] at this
      cases this
  | true =>
    rw [expand_of_kvzalloc hkv]
    -- the copy, and what its table has room for
    obtain ⟨t, ht⟩ : ∃ t, t = m.copied (some (s.length + 1)) := ⟨_, rfl⟩
    have hdma : t.dma_addr = some (s.length + 1) := by rw [ht, OpuMo.dma_addr_copied]
    obtain ⟨hroom, hwhole⟩ := room_for_entries m.pages.npages
    rw [← ht]
    have hpassed : ∀ {entries' : List DmaAddr} {mapping : Mapping} {call : Call},
        updateCall (s.expanded t entries') va t mapping clear = some call →
        ∀ i < m.size / PAGE_SIZE, call.passed (va / PAGE_SIZE + i) = entries'[i]? := by
      intro entries' mapping call hcall i hi
      refine passed_table hva ?_ ?_ hdma (Memory.table_append_length_succ _) hcall hi
      · rw [ht, OpuMo.size_copied]
      · rw [ht, OpuMo.order_copied]
    constructor
    · rintro ⟨o, s', h, hright⟩
      obtain ⟨s₁, hs₁, h⟩ := Option.bind_eq_some_iff.1 h
      obtain ⟨hn, entries', rfl, hlen, hentries⟩ := fill_of_some hs hdma hs₁
      rw [List.length_replicate] at hn hlen
      have hcopy : (s.expanded t entries').object s.length = some t := Memory.object_append_length
      cases hmap : mappingOf obo t with
      | none =>
        rw [updateThrough_of_none hcopy hmap] at h
        cases h
        exact absurd hright (not_updated_of_read (Blocks.read_append_length _))
      | some mapping =>
        obtain ⟨hunified, ⟨bo_va, rest, hbo_va, rfl⟩, hoffset, -⟩ := mappingOf_eq_some.1 hmap
        rw [updateThrough_expanded hs.object hexpand hdma hmap] at h
        obtain ⟨call, hcall, h⟩ := Option.map_eq_some_iff.1 h
        cases h
        have hpages := (updated_restored_iff (by simp)).1 hright
        refine ⟨hunified, ⟨bo_va, rest, hbo_va, hoffset⟩,
          hbacked.2 ⟨hkv, hwhole.1 hn, fun i hi => ?_⟩, hmapped.2 ?_⟩
        · obtain ⟨hlt, a, ha, -⟩ := hentries i hi
          exact ⟨hlt, Option.isSome_iff_exists.2 ⟨a, ha⟩⟩
        · -- the last page of the range has an entry
          by_contra hlt
          obtain ⟨a, -, ha⟩ := hpages m.pages.npages (Nat.not_le.1 hlt)
          rw [hpassed hcall _ (Nat.not_le.1 hlt), List.getElem?_eq_none (by omega)] at ha
          cases ha
    · intro h
      obtain ⟨-, hn, hchunk⟩ := hbacked.1 h.backed
      have hfits := hmapped.1 h.mapped
      obtain ⟨s₁, hs₁⟩ : ∃ s₁, (List.range m.pages.npages).foldlM
          (fillEntry mo s.length m.pages.order)
          (s.expanded t (List.replicate (u64 (m.pages.npages * 8) / 8) 0)) = some s₁ :=
        exists_fill hs hdma (by rw [List.length_replicate]; exact hwhole.2 hn) hchunk
      obtain ⟨-, entries', rfl, -, hentries⟩ := fill_of_some hs hdma hs₁
      obtain ⟨mapping, hmap⟩ := h.mappingOf (.inr (by rw [hdma]; exact Option.some_ne_none _))
      obtain ⟨call, hcall⟩ : ∃ call, updateCall (s.expanded t entries') va t mapping clear =
          some call := by
        rw [exists_updateCall_iff, startAddr, tableOf, hdma, ht]
        simp [OpuMo.copied, OpuMo.setDmaAddr, Memory.expanded]
      rw [hs₁, Option.bind_some, updateThrough_expanded hs.object hexpand hdma hmap, hcall,
        Option.map_some]
      refine ⟨_, _, rfl, (updated_restored_iff (by simp)).2 fun i hi => ?_⟩
      obtain ⟨-, a, ha, hentry⟩ := hentries i (by omega)
      exact ⟨a, (hpage i).trans ha, (hpassed hcall i hi).trans hentry⟩

/-- **When a unified buffer is mapped as it should be.**  A call passes each page of the range with
its address, and leaves no block changed or behind, if and only if it makes no copy or finds all
that it takes. -/
theorem updated_iff (hs : s.Holds mo m) (hva : va < 2 ^ 64) :
    (∃ o s', opuUpdateDevPageTable env s obo va mo clear = some (o, s') ∧
      Updated vram s va m o s') ↔ env.kzalloc = false ∨ m.Updatable env vram s obo := by
  unfold opuUpdateDevPageTable
  cases hk : env.kzalloc with
  | false =>
    simp only [Bool.not_false, if_true, true_or, iff_true]
    refine ⟨_, _, rfl, ⟨fun call h => (Option.some_ne_none call h.symm).elim, fun p _ => rfl, ?_⟩⟩
    intro p hp
    rw [Blocks.read, List.getElem?_eq_none hp]
    rfl
  | true =>
    simp only [Bool.not_true, Bool.false_eq_true, if_false, hs.object, Option.bind_eq_bind,
      Option.bind_some, Blocks.alloc, Bool.true_eq_false, false_or]
    cases hexpand : !m.is_dev_mem && m.pages.order != 0 with
    | false => exact updated_plain_iff hs hva hexpand
    | true => exact updated_expanded_iff hs hva hexpand

/-- Four system pages in two chunks. -/
def twoChunks : OpuMo := ⟨false, 0x4000, ⟨1, 4⟩, .sys_mem (some 1), by decide⟩

/-- The object, and the addresses of its chunks. -/
def twoChunksMemory : Memory := [some (.object twoChunks), some (.table [0x10000, 0x40000])]

theorem covers_opuPagesDmaMap_iff_twoChunks :
    (twoChunks.chunkAddr twoChunksMemory 3).isSome = true :=
  have h : (opuPagesDmaMap true (fun i => if i = 0 then 0x10000 else 0x40000) (fun _ => false)
      twoChunks.pages).2 = some [0x10000, 0x40000] := rfl
  (covers_opuPagesDmaMap_iff rfl rfl h).2 (.inr (by decide)) 3 (by decide)

theorem holds_twoChunks : Memory.Holds twoChunksMemory 0 twoChunks where
  object := rfl
  table p h := by
    cases h
    exact ⟨_, rfl⟩

theorem updated_iff_twoChunks :
    ∃ o s', opuUpdateDevPageTable ⟨true, true, fun _ => none⟩ twoChunksMemory
        ⟨true, [⟨0, true, { start := 16, last := 19 }⟩]⟩ 0x10000 0 false = some (o, s') ∧
      Updated 0 twoChunksMemory 0x10000 twoChunks o s' :=
  (updated_iff holds_twoChunks (by decide)).2 <| .inr
    { unified := rfl
      bo_va := ⟨_, _, rfl, rfl⟩
      backed := ⟨rfl, by decide, by decide⟩
      mapped := Nat.le_refl 4 }

/-- **A buffer that is not mapped**: the check that finds this keeps the copy, and its table. -/
theorem not_updated_unmapped : ¬ ∃ o s',
    opuUpdateDevPageTable ⟨true, true, fun _ => none⟩ twoChunksMemory ⟨true, []⟩ 0x10000 0 false =
      some (o, s') ∧ Updated 0 twoChunksMemory 0x10000 twoChunks o s' := by
  rintro ⟨o, s', h, hright⟩
  have hkept : ∃ t entries, s' = twoChunksMemory.expanded t entries := by
    have hcall : opuUpdateDevPageTable ⟨true, true, fun _ => none⟩ twoChunksMemory ⟨true, []⟩
        0x10000 0 false = some (⟨some .einval, none⟩, twoChunksMemory.expanded
          (twoChunks.copied (some 3)) [0x10000, 0x11000, 0x40000, 0x41000]) := rfl
    rw [hcall] at h
    cases h
    exact ⟨_, _, rfl⟩
  obtain ⟨t, entries, rfl⟩ := hkept
  exact not_updated_of_read (Blocks.read_append_length _) hright

end

end Codrive.Vm
