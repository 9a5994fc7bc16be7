/-
# DMA mappings, over every run

`covered_of_run` says that in every state of a run of maps and unmaps of one object the table covers
every page by one mapping and every other mapping was unmapped once, as long as each call meets
`StepOk`:

- A map finds no table, and no chunk of it fails: after a failure the table is handed out, freed by
  the first pair and with unmapped entries by the second, and an unmap takes it for mapped.
- The chunks of `2^order` pages are whole, and their places fit into an `int`.
- An unmap is one for the number of chunks that were mapped.
-/

import Codrive.Basis.Run
import Codrive.Dma.Chunks

namespace Codrive.Dma

open Codrive.Basis

/-- The mapping of the entry has the page at this place. -/
def State.HasPage (s : State) (e : Entry) (j : ℕ) : Prop :=
  ∃ id, e = .mapping id ∧ (s.chunk id).first ≤ j ∧
    (j + 1 - (s.chunk id).first) * PAGE_SIZE ≤ (s.chunk id).bytes

/-- Maps the object. -/
def State.Call.maps : Call → Bool
  | .mapContinue .. => true
  | .map .. => true
  | _ => false

namespace State

variable {a : Pages} {s : State}

/-- The mapping is in the table. -/
def Live (s : State) (id : ℕ) : Prop := ∃ table ∈ s.dma_addr, .mapping id ∈ table.entries

/-- **Every page is covered, and every mapping is accounted for.** -/
structure Right (a : Pages) (s : State) : Prop where
  table : ∀ table ∈ s.dma_addr, table.freed = false ∧
    ∀ j < a.npages, ∃! i : ℕ, ∃ e, table.entries[i]? = some e ∧ s.HasPage e j
  live : ∀ id, s.Live id → id < s.mapped ∧ s.unmaps id = 0
  unmapped : ∀ id < s.mapped, ¬s.Live id → s.unmaps id = 1
  stray : s.stray = false

/-- **The condition on a call.** -/
def StepOk (a : Pages) (s : State) : Call → Prop
  | .mapContinue memory fails => s.dma_addr = none ∧
      (memory = false ∨ fails = false ∧ 0 < a.npages ∧ a.npages < 2 ^ 52)
  | .unmapContinue => ∀ table ∈ s.dma_addr, table.entries.length = 1
  | .map memory fails => s.dma_addr = none ∧ a.order < 32 ∧
      (memory = false ∨ 2 ^ a.order ∣ a.npages ∧ a.npages < 2 ^ 31 + 2 ^ a.order ∧
        ∀ i < a.npages / 2 ^ a.order, fails i = false)
  | .unmap => ∀ table ∈ s.dma_addr, a.order < 32 ∧ a.npages < 2 ^ 32 ∧
      2 ^ a.order ∣ a.npages ∧ table.entries.length = a.npages / 2 ^ a.order

/-! ### Tables -/

/-- The entries of `n` mappings from this one on. -/
def mappings (base n : ℕ) : List Entry := (List.range n).map fun i => .mapping (base + i)

theorem mappings_succ (base n : ℕ) :
    mappings base (n + 1) = .mapping base :: mappings (base + 1) n := by
  unfold mappings
  rw [List.range_succ_eq_map, List.map_cons, List.map_map]
  refine congrArg₂ _ rfl (List.map_congr_left fun i _ => ?_)
  exact congrArg Entry.mapping (by omega)

theorem length_mappings (base n : ℕ) : (mappings base n).length = n := by
  rw [mappings, List.length_map, List.length_range]

theorem mem_mappings {base n id : ℕ} :
    Entry.mapping id ∈ mappings base n ↔ base ≤ id ∧ id < base + n := by
  unfold mappings
  rw [List.mem_map]
  constructor
  · rintro ⟨i, hi, heq⟩
    have hlt := List.mem_range.1 hi
    have := Entry.mapping.inj heq
    omega
  · rintro ⟨hle, hlt⟩
    exact ⟨id - base, List.mem_range.2 (by omega), congrArg Entry.mapping (by omega)⟩

theorem getElem?_mappings {base n i : ℕ} {e : Entry} :
    (mappings base n)[i]? = some e ↔ i < n ∧ e = .mapping (base + i) := by
  unfold mappings
  rw [List.getElem?_map]
  by_cases hi : i < n
  · rw [List.getElem?_range hi]
    exact ⟨fun h => ⟨hi, (Option.some.inj h).symm⟩, fun h => by rw [h.2]; rfl⟩
  · rw [List.getElem?_eq_none (by rw [List.length_range]; omega)]
    exact ⟨fun h => (nomatch h), fun h => absurd h.1 hi⟩

/-- The table has the last `n` mappings, each of `size` pages, one behind the other. -/
structure Shape (a : Pages) (s : State) (base n size : ℕ) : Prop where
  addr : s.dma_addr = some ⟨mappings base n, false⟩
  total : n * size = a.npages
  top : base + n = s.mapped
  chunk : ∀ i < n, s.chunk (base + i) = ⟨i * size, size * PAGE_SIZE⟩
  bound : a.npages < 2 ^ 52

/-- The mappings from `base` on are those of the table, and the others were unmapped. -/
structure Inv (a : Pages) (s : State) (base : ℕ) : Prop where
  addr : s.dma_addr = none ∧ base = s.mapped ∨ ∃ n size, Shape a s base n size
  unmaps : ∀ id, s.unmaps id = if id < base then 1 else 0
  stray : s.stray = false

/-- One chunk has the page. -/
theorem Shape.covers {base n size : ℕ} (h : Shape a s base n size) {j : ℕ} (hj : j < a.npages) :
    ∃! i : ℕ, ∃ e, (mappings base n)[i]? = some e ∧ s.HasPage e j := by
  have htotal := h.total
  have hsize : 0 < size := by
    refine Nat.pos_of_ne_zero fun h0 => ?_
    rw [h0, Nat.mul_zero] at htotal
    omega
  have hpage : ∀ i < n, (s.HasPage (.mapping (base + i)) j ↔ j / size = i) := by
    intro i hi
    have hmul : (i + 1) * size = i * size + size := Nat.succ_mul i size
    have hiff : (j + 1 - i * size) * PAGE_SIZE ≤ size * PAGE_SIZE ↔ j + 1 - i * size ≤ size :=
      Nat.mul_le_mul_right_iff (by decide)
    rw [Nat.div_eq_iff hsize]
    constructor
    · rintro ⟨id, heq, hfirst, hbytes⟩
      obtain rfl := Entry.mapping.inj heq
      rw [h.chunk i hi] at hfirst hbytes
      dsimp only at hfirst hbytes
      rw [hiff] at hbytes
      omega
    · intro hbounds
      refine ⟨base + i, rfl, ?_⟩
      rw [h.chunk i hi]
      dsimp only
      rw [hiff]
      omega
  have hlt : j / size < n := by
    rw [Nat.div_lt_iff_lt_mul hsize, htotal]
    exact hj
  refine ⟨j / size, ⟨_, getElem?_mappings.2 ⟨hlt, rfl⟩, (hpage _ hlt).2 rfl⟩, ?_⟩
  rintro i ⟨e, he, hhas⟩
  obtain ⟨hi, rfl⟩ := getElem?_mappings.1 he
  exact ((hpage i hi).1 hhas).symm

/-- The public reading. -/
theorem Inv.right {base : ℕ} (h : Inv a s base) : Right a s := by
  rcases h.addr with ⟨hnone, hbase⟩ | ⟨n, size, hshape⟩
  · have hlive : ∀ id, ¬s.Live id := by
      rintro id ⟨table, htable, -⟩
      rw [hnone] at htable
      exact nomatch htable
    refine ⟨fun table htable => ?_, fun id hid => absurd hid (hlive id), fun id hid _ => ?_,
      h.stray⟩
    · rw [hnone] at htable
      exact nomatch htable
    · rw [h.unmaps, if_pos (hbase ▸ hid)]
  · have hlive : ∀ id, s.Live id ↔ base ≤ id ∧ id < s.mapped := by
      intro id
      unfold Live
      rw [hshape.addr, ← hshape.top, ← mem_mappings]
      simp only [Option.mem_some_iff, exists_eq_left']
    refine ⟨fun table htable => ?_, fun id hid => ?_, fun id hid hno => ?_, h.stray⟩
    · rw [hshape.addr] at htable
      obtain rfl := Option.mem_some_iff.1 htable
      exact ⟨rfl, fun j hj => hshape.covers hj⟩
    · obtain ⟨hle, hlt⟩ := (hlive id).1 hid
      exact ⟨hlt, by rw [h.unmaps, if_neg (by omega)]⟩
    · rw [hlive] at hno
      rw [h.unmaps, if_pos (by omega)]

/-! ### Unmapping -/

/-- What unmapping these mappings does. -/
theorem foldl_dmaUnmap {bytes : ℕ} (n base : ℕ) (s : State)
    (hchunk : ∀ i < n, (s.chunk (base + i)).bytes = bytes) :
    (mappings base n).foldl (fun s e => s.dmaUnmap e bytes) s =
      { s with unmaps := fun id =>
          if base ≤ id ∧ id < base + n then s.unmaps id + 1 else s.unmaps id } := by
  induction n generalizing base s with
  | zero =>
    have hno : ∀ id, ¬(base ≤ id ∧ id < base + 0) := fun id => by omega
    simp only [hno, if_false]
    rfl
  | succ n ih =>
    have hfirst : s.dmaUnmap (.mapping base) bytes =
        { s with unmaps := Function.update s.unmaps base (s.unmaps base + 1) } :=
      if_pos (hchunk 0 (Nat.succ_pos n))
    have hrest : ∀ i < n, (s.chunk (base + 1 + i)).bytes = bytes := fun i hi => by
      rw [Nat.add_assoc, Nat.add_comm 1 i]
      exact hchunk (i + 1) (by omega)
    rw [mappings_succ, List.foldl_cons, hfirst, ih (base + 1)
      { s with unmaps := Function.update s.unmaps base (s.unmaps base + 1) } hrest]
    refine congrArg (fun unmaps => { s with unmaps }) (funext fun id => ?_)
    dsimp only
    by_cases hid : id = base
    · subst hid
      rw [if_neg (by omega), if_pos (by omega), Function.update_self]
    · rw [Function.update_of_ne hid]
      by_cases hin : base + 1 ≤ id ∧ id < base + 1 + n
      · rw [if_pos hin, if_pos (by omega)]
      · rw [if_neg hin, if_neg (by omega)]

/-- **The table is unmapped and freed.** -/
theorem Inv.unmapAll {base n size : ℕ} (h : Inv a s base) (hshape : Shape a s base n size) :
    Inv a { (mappings base n).foldl (fun s e => s.dmaUnmap e (size * PAGE_SIZE)) s with
      dma_addr := none } s.mapped := by
  have htop := hshape.top
  rw [foldl_dmaUnmap n base s fun i hi => by rw [hshape.chunk i hi]]
  refine ⟨.inl ⟨rfl, rfl⟩, fun id => ?_, h.stray⟩
  have hid := h.unmaps id
  dsimp only
  rw [hid]
  by_cases hbase : id < base
  · rw [if_neg (by omega), if_pos hbase, if_pos (by omega)]
  · by_cases hmapped : id < s.mapped
    · rw [if_pos (by omega), if_neg hbase, if_pos hmapped]
    · rw [if_neg (by omega), if_neg hbase, if_neg hmapped]

/-! ### Mapping chunk by chunk -/

/-- The loop maps all chunks. -/
theorem mapChunks_ok {fails : ℕ → Bool} (n i : ℕ) (entries : List Entry) (s : State)
    (hok : ∀ k < i + n, fails k = false)
    (hindex : ∀ k < i + n, k <<< a.order < 2 ^ 31 ∧ k <<< a.order < a.npages) :
    ∃ t, mapChunks a fails n i entries s = some (none, entries ++ mappings s.mapped n, t) ∧
      t.mapped = s.mapped + n ∧ t.unmaps = s.unmaps ∧ t.stray = s.stray ∧
      (∀ id < s.mapped, t.chunk id = s.chunk id) ∧
      ∀ k < n, t.chunk (s.mapped + k) = ⟨(i + k) <<< a.order, chunkBytes a⟩ := by
  induction n generalizing i entries s with
  | zero =>
    refine ⟨s, ?_, rfl, rfl, rfl, fun _ _ => rfl, nofun⟩
    rw [show mappings s.mapped 0 = [] from rfl, List.append_nil]
    rfl
  | succ n ih =>
    obtain ⟨hint, hlist⟩ := hindex i (by omega)
    obtain ⟨t, ht, hmapped, hunmaps, hstray, hold, hnew⟩ :=
      ih (i + 1) (entries ++ [.mapping s.mapped]) (s.dmaMap ⟨i <<< a.order, chunkBytes a⟩)
        (fun k hk => hok k (by omega)) (fun k hk => hindex k (by omega))
    dsimp only [dmaMap] at ht hmapped hunmaps hstray hold hnew
    refine ⟨t, ?_, by omega, hunmaps, hstray, fun id hid => ?_, fun k hk => ?_⟩
    · unfold mapChunks
      rw [if_neg (by omega), List.getElem?_eq_getElem hlist]
      dsimp only
      rw [hok i (by omega), if_neg Bool.false_ne_true, mappings_succ]
      rw [List.append_assoc, List.singleton_append] at ht
      exact ht
    · rw [hold id (by omega), Function.update_of_ne (by omega)]
    · cases k with
      | zero => rw [Nat.add_zero, hold s.mapped (by omega), Function.update_self, Nat.add_zero]
      | succ k =>
        have hk' := hnew k (by omega)
        rw [Nat.add_assoc, Nat.add_comm 1 k, Nat.add_assoc, Nat.add_comm 1 k] at hk'
        exact hk'

/-- A chunk of up to `2^31` pages has that many bytes. -/
theorem chunkBytes_eq (horder : a.order < 32) : chunkBytes a = 2 ^ a.order * PAGE_SIZE := by
  have hle : 2 ^ a.order ≤ 2 ^ 31 := Nat.pow_le_pow_right (by decide) (by omega)
  unfold chunkBytes
  rw [Nat.shiftLeft_eq, Nat.mul_comm]
  exact u64_of_lt (Nat.lt_of_le_of_lt (Nat.mul_le_mul_right PAGE_SIZE hle) (by decide))

theorem nallocs_eq (horder : a.order < 32) (hpages : a.npages < 2 ^ 32) :
    nallocs a = some (a.npages / 2 ^ a.order) := by
  unfold nallocs
  rw [if_pos horder, wrap_of_lt hpages, Nat.shiftRight_eq_div_pow]

/-- **The map that succeeds**, with the mappings it makes. -/
theorem Inv.mapAll {base : ℕ} {fails : ℕ → Bool} (h : Inv a s base) (hnone : s.dma_addr = none)
    (horder : a.order < 32) (hdvd : 2 ^ a.order ∣ a.npages)
    (hpages : a.npages < 2 ^ 31 + 2 ^ a.order)
    (hok : ∀ i < a.npages / 2 ^ a.order, fails i = false) :
    ∃ t, s.opuPagesDmaMap a true fails = some (none, t) ∧ t.dma_addr.isSome = true ∧
      Inv a t s.mapped := by
  have hle : 2 ^ a.order ≤ 2 ^ 31 := Nat.pow_le_pow_right (by decide) (by omega)
  have hpos : 0 < 2 ^ a.order := Nat.two_pow_pos _
  obtain ⟨n, hn⟩ := hdvd
  have hdiv : a.npages / 2 ^ a.order = n := by
    rw [hn, Nat.mul_div_cancel_left n hpos]
  rw [hdiv] at hok
  have hindex : ∀ k < 0 + n, k <<< a.order < 2 ^ 31 ∧ k <<< a.order < a.npages := by
    intro k hk
    have hmul : 2 ^ a.order * (k + 1) ≤ 2 ^ a.order * n := Nat.mul_le_mul_left _ (by omega)
    rw [Nat.mul_add, Nat.mul_one] at hmul
    rw [Nat.shiftLeft_eq, Nat.mul_comm]
    omega
  obtain ⟨t, ht, hmapped, hunmaps, hstray, -, hchunk⟩ :=
    mapChunks_ok n 0 [] s (fun k hk => hok k (by omega)) hindex
  have hbase : base = s.mapped := by
    rcases h.addr with ⟨-, hbase⟩ | ⟨n, size, hshape⟩
    · exact hbase
    · rw [hshape.addr] at hnone
      exact nomatch hnone
  refine ⟨{ t with dma_addr := some ⟨mappings s.mapped n, false⟩ }, ?_, rfl,
    .inr ⟨n, 2 ^ a.order, rfl, ?_, hmapped.symm, ?_, by omega⟩, fun id => ?_,
    hstray.trans h.stray⟩
  · unfold opuPagesDmaMap
    rw [nallocs_eq horder (by omega), hdiv]
    dsimp only [Option.bind_eq_bind, Option.bind_some]
    rw [if_neg (by decide), ht]
    rfl
  · rw [hn, Nat.mul_comm]
  · intro i hi
    dsimp only
    rw [hchunk i hi, Nat.zero_add, Nat.shiftLeft_eq, chunkBytes_eq horder]
  · dsimp only
    rw [hunmaps, h.unmaps, hbase]

/-- The bytes of all pages. -/
theorem allBytes_eq (h : a.npages < 2 ^ 52) :
    u64 (a.npages <<< PAGE_SHIFT) = a.npages * PAGE_SIZE := by
  rw [Nat.shiftLeft_eq]
  exact u64_of_lt (Nat.lt_of_lt_of_le (Nat.mul_lt_mul_of_pos_right h (by decide)) (by decide))

/-- **One mapping for everything.** -/
theorem Inv.mapContinue {base : ℕ} (h : Inv a s base) (hnone : s.dma_addr = none)
    (hpos : 0 < a.npages) (hlt : a.npages < 2 ^ 52) :
    ∃ t, s.opuPagesDmaMapContinue a true false = some (none, t) ∧ t.dma_addr.isSome = true ∧
      Inv a t s.mapped := by
  have hbase : base = s.mapped := by
    rcases h.addr with ⟨-, hbase⟩ | ⟨n, size, hshape⟩
    · exact hbase
    · rw [hshape.addr] at hnone
      exact nomatch hnone
  refine ⟨{ s.dmaMap ⟨0, u64 (a.npages <<< PAGE_SHIFT)⟩ with
    dma_addr := some ⟨[.mapping s.mapped], false⟩ }, ?_, rfl,
    .inr ⟨1, a.npages, rfl, Nat.one_mul _, rfl, fun i hi => ?_, hlt⟩, fun id => ?_, h.stray⟩
  · unfold opuPagesDmaMapContinue
    rw [if_neg (by decide), List.getElem?_eq_getElem hpos]
    rfl
  · obtain rfl : i = 0 := by omega
    dsimp only [dmaMap]
    rw [Nat.add_zero, Function.update_self, allBytes_eq hlt, Nat.zero_mul]
  · dsimp only [dmaMap]
    rw [h.unmaps, hbase]

/-! ### Every run -/

/-- What a call that meets the condition does. -/
theorem Inv.call {base : ℕ} {c : Call} (h : Inv a s base) (hok : StepOk a s c) :
    ∃ err t base', s.call a c = some (err, t) ∧ Inv a t base' ∧
      t.dma_addr.isSome = (c.maps && err.isNone) := by
  cases c with
  | mapContinue memory fails =>
    obtain ⟨hnone, hcase⟩ := hok
    cases memory with
    | false => exact ⟨_, s, base, rfl, h, by rw [hnone]; rfl⟩
    | true =>
      obtain ⟨rfl, hpos, hlt⟩ := hcase.resolve_left (by decide)
      obtain ⟨t, ht, hsome, hinv⟩ := h.mapContinue hnone hpos hlt
      exact ⟨_, t, _, ht, hinv, hsome⟩
  | map memory fails =>
    obtain ⟨hnone, horder, hcase⟩ := hok
    cases memory with
    | false =>
      refine ⟨some .noMem, s, base, ?_, h, by rw [hnone]; rfl⟩
      dsimp only [State.call, opuPagesDmaMap, nallocs]
      rw [if_pos horder]
      rfl
    | true =>
      obtain ⟨hdvd, hpages, hfails⟩ := hcase.resolve_left (by decide)
      obtain ⟨t, ht, hsome, hinv⟩ := h.mapAll hnone horder hdvd hpages hfails
      exact ⟨_, t, _, ht, hinv, hsome⟩
  | unmapContinue =>
    rcases h.addr with ⟨hnone, -⟩ | ⟨n, size, hshape⟩
    · refine ⟨none, s, base, ?_, h, by rw [hnone]; rfl⟩
      dsimp only [State.call, opuPagesDmaUnmapContinue]
      rw [hnone]
      rfl
    · have hlen := hok _ hshape.addr
      dsimp only at hlen
      rw [length_mappings] at hlen
      subst hlen
      refine ⟨none, _, _, ?_, h.unmapAll hshape, rfl⟩
      have htotal := hshape.total
      rw [Nat.one_mul] at htotal
      subst htotal
      dsimp only [State.call, opuPagesDmaUnmapContinue]
      rw [hshape.addr, allBytes_eq hshape.bound]
      rfl
  | unmap =>
    rcases h.addr with ⟨hnone, -⟩ | ⟨n, size, hshape⟩
    · refine ⟨none, s, base, ?_, h, by rw [hnone]; rfl⟩
      dsimp only [State.call, opuPagesDmaUnmap]
      rw [hnone]
      rfl
    · obtain ⟨horder, hpages, hdvd, hlen⟩ := hok _ hshape.addr
      dsimp only at hlen
      rw [length_mappings] at hlen
      have htotal := hshape.total
      have hsize : 0 < n → size * PAGE_SIZE = chunkBytes a := fun hn => by
        obtain ⟨m, hm⟩ := hdvd
        rw [hm, Nat.mul_div_cancel_left m (Nat.two_pow_pos _)] at hlen
        rw [hm, hlen, Nat.mul_comm] at htotal
        rw [chunkBytes_eq horder, Nat.eq_of_mul_eq_mul_right (hlen ▸ hn) htotal]
      have hsame : s.unmapEntries a (mappings base n) =
          (mappings base n).foldl (fun s e => s.dmaUnmap e (size * PAGE_SIZE)) s := by
        rcases Nat.eq_zero_or_pos n with rfl | hn
        · rfl
        · rw [hsize hn]
          rfl
      refine ⟨none, _, _, ?_, h.unmapAll hshape, rfl⟩
      dsimp only [State.call, opuPagesDmaUnmap]
      rw [hshape.addr, nallocs_eq horder hpages, ← hlen]
      dsimp only [Option.bind_eq_bind, Option.bind_some]
      rw [if_neg (by rw [length_mappings]; simp),
        List.take_of_length_le (Nat.le_of_eq (length_mappings _ _)), hsame]
      rfl

/-- **The mappings are right in every state of a run** whose calls meet the condition.  Such a call
does not fault, and the object has a table afterwards exactly if it is a map that succeeded. -/
theorem covered_of_run {calls : List Call} (hrun : Run (Guarded (StepOk a) (Step a)) {} calls s) :
    Right a s ∧ ∀ c, StepOk a s c → ∃ err t, s.call a c = some (err, t) ∧ Right a t ∧
      t.dma_addr.isSome = (c.maps && err.isNone) := by
  have hstart : ∃ base, Inv a {} base :=
    ⟨0, .inl ⟨rfl, rfl⟩, fun id => (if_neg (Nat.not_lt_zero id)).symm, rfl⟩
  obtain ⟨base, h⟩ : ∃ base, Inv a s base := by
    refine hrun.inv (I := fun s => ∃ base, Inv a s base) (fun s c t h hstep => ?_) hstart
    obtain ⟨base, h⟩ := h
    obtain ⟨hok, err, ht⟩ := hstep
    obtain ⟨err', t', base', ht', h', -⟩ := h.call hok
    obtain ⟨-, rfl⟩ := Prod.mk.inj (Option.some.inj (ht.symm.trans ht'))
    exact ⟨base', h'⟩
  refine ⟨h.right, fun c hok => ?_⟩
  obtain ⟨err, t, base', ht, h', hsome⟩ := h.call hok
  exact ⟨err, t, ht, h'.right, hsome⟩

/-- Four pages, in chunks of two. -/
def fourPages : Pages := ⟨[10, 11, 20, 21], 1⟩

/-- Every chunk is mapped. -/
def noFailure : ℕ → Bool := fun _ => false

/-- The object is mapped in two chunks, unmapped, and mapped as one. -/
theorem covered_of_run_again :
    ∃ s, Right fourPages s ∧ s.dma_addr = some ⟨[.mapping 2], false⟩ ∧
      s.unmaps 0 = 1 ∧ s.unmaps 1 = 1 ∧ s.unmaps 2 = 0 := by
  have hrun : ∃ s, Run (Guarded (StepOk fourPages) (Step fourPages)) {}
      [.map true noFailure, .unmap, .mapContinue true false] s ∧
      s.dma_addr = some ⟨[.mapping 2], false⟩ ∧
      s.unmaps 0 = 1 ∧ s.unmaps 1 = 1 ∧ s.unmaps 2 = 0 := by
    refine ⟨_, .cons ⟨?_, none, rfl⟩ (.cons ⟨?_, none, rfl⟩ (.cons ⟨?_, none, rfl⟩ (.nil _))),
      by decide +kernel, by decide +kernel, by decide +kernel, by decide +kernel⟩
    · exact ⟨rfl, by decide, .inr ⟨by decide, by decide, fun _ _ => rfl⟩⟩
    · intro table htable
      obtain rfl := Option.mem_some_iff.1 htable
      exact ⟨by decide, by decide, by decide, by decide +kernel⟩
    · exact ⟨rfl, .inr ⟨rfl, by decide, by decide⟩⟩
  obtain ⟨s, hrun, haddr, h0, h1, h2⟩ := hrun
  exact ⟨s, (covered_of_run hrun).1, haddr, h0, h1, h2⟩

/-- Two pages one by one. -/
def twoPages : Pages := ⟨[10, 20], 0⟩

/-- The second chunk fails: the table of the failed map is handed out, and the unmap unmaps the
first chunk again. -/
theorem failed_map_is_published :
    (∃ s, ({} : State).call twoPages (.map true fun i => i = 1) = some (some .inval, s) ∧
      s.dma_addr = some ⟨[.mapping 0, .error], false⟩ ∧ s.unmaps 0 = 1) ∧
    ∃ s, Run (Step twoPages) {} [.map true fun i => i = 1, .unmap] s ∧ s.unmaps 0 = 2 ∧
      s.stray = true ∧ ¬Right twoPages s := by
  refine ⟨⟨_, rfl, by decide +kernel, by decide +kernel⟩,
    ⟨_, .cons ⟨_, rfl⟩ (.cons ⟨_, rfl⟩ (.nil _)), by decide +kernel, by decide +kernel,
      fun h => ?_⟩⟩
  exact absurd h.stray (by decide +kernel)

end State

end Codrive.Dma
