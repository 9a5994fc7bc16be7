/-
# Which bytes `alloc` and `alloc_high` take

The free space of an `Allocator` (`src/src/device/MemObj.cpp`) is the set of bytes of its free nodes
(`Allocator.freeSpace`).  `alloc` without a fixed address and `alloc_high` return null exactly when
no free node is long enough.  With a fixed address `alloc` looks for the node that the address is
in, but it then takes the low bytes of that node, or goes on to the next free nodes: what it returns
is the address only if the address is where a free node starts and the node is long enough
(`Allocator.alloc_fits_iff`).
-/

import Codrive.Device.AllocatorRuns
import Mathlib.Data.Set.Basic
import Mathlib.Order.Interval.Set.Defs

namespace Codrive.Device

open Codrive.Basis

/-- A free node from `k` on, of `len` bytes. -/
def Allocator.FreeNode (a : Allocator) (k len : ℕ) : Prop :=
  ∃ n, (k, n) ∈ a.memory.entries ∧ isfree a.memory n = true ∧ n.len = len

/-- The bytes of the free nodes. -/
def Allocator.freeSpace (a : Allocator) : Set ℕ :=
  { x | ∃ k len, a.FreeNode k len ∧ k ≤ x ∧ x < k + len }

section Space

variable {a a' : Allocator} {p bytes : ℕ}

/-- An address is in one node only. -/
theorem Shape.eq_of_mem {pool length x : ℕ} {l : List (ℕ × Node)} (hl : Shape pool length l)
    {c d : ℕ × Node} (hc : c ∈ l) (hd : d ∈ l) (hcx : c.1 ≤ x ∧ x < c.1 + c.2.len)
    (hdx : d.1 ≤ x ∧ x < d.1 + d.2.len) : c = d := by
  by_contra hne
  have hsymm : Std.Symm fun c d => Separate (spanOf pool length c) (spanOf pool length d) :=
    ⟨fun _ _ h => h.symm⟩
  have hsep : l.Pairwise fun c d => Separate (spanOf pool length c) (spanOf pool length d) :=
    List.pairwise_map.1 hl.tiles.pairwise_separate
  have hcd := hsep.forall hc hd hne
  have hstart : ∀ e ∈ l, 0 < e.2.len → startOf pool length e = e.1 := fun e he hpos =>
    startOf_node (hl.ne_zero_of_pos he hpos) (hl.ne_guard_of_pos he hpos)
  rw [Separate, spanOf, spanOf, hstart c hc (by omega), hstart d hd (by omega)] at hcd
  simp only at hcd
  omega

/-- The flag of a node, and the list it is read from. -/
theorem Allocator.Inv.freeNode_iff (h : a.Inv) {k len : ℕ} :
    a.FreeNode k len ↔ ∃ n, (k, n) ∈ a.memory.entries ∧ isFreeEntry (k, n) = true ∧
      n.len = len := by
  rw [Allocator.FreeNode]
  simp only [isfree_eq h.shape.first? k]

/-- **The free space is what no used node has.** -/
theorem Allocator.Inv.mem_freeSpace (h : a.Inv) {x : ℕ} :
    x ∈ a.freeSpace ↔ (a.pool ≤ x ∧ x < a.pool + a.length) ∧
      ∀ s ∈ usedNodes a.memory.entries, ¬(s.1 ≤ x ∧ x < s.1 + s.2) := by
  have hl := h.shape
  constructor
  · rintro ⟨k, len, hfree, hlo, hhi⟩
    obtain ⟨n, hk, hf, rfl⟩ := h.freeNode_iff.1 hfree
    have hpos : 0 < n.len := by omega
    obtain ⟨hb₁, hb₂⟩ := hl.bounds hk (hl.ne_zero_of_pos hk hpos) (hl.ne_guard_of_pos hk hpos)
    simp only at hb₁ hb₂
    refine ⟨by omega, fun s hs hsx => ?_⟩
    obtain ⟨n', hk', hu, hlen⟩ := mem_usedNodes.1 hs
    have heq := hl.eq_of_mem hk hk' ⟨hlo, hhi⟩ (by simpa only [hlen] using hsx)
    rw [← heq, hf] at hu
    cases hu
  · rintro ⟨⟨hlo, hhi⟩, hno⟩
    obtain ⟨s, hs, hsx⟩ := hl.tiles.exists_mem hlo hhi
    obtain ⟨⟨k, n⟩, hk, rfl⟩ := List.mem_map.1 hs
    have hpos : 0 < n.len := by
      simp only [spanOf] at hsx
      omega
    rw [spanOf, startOf_node (hl.ne_zero_of_pos hk hpos) (hl.ne_guard_of_pos hk hpos)] at hsx
    refine ⟨k, n.len, h.freeNode_iff.2 ⟨n, hk, ?_, rfl⟩, hsx⟩
    by_contra hf
    exact hno (k, n.len) (mem_usedNodes.2 ⟨n, hk, by simpa using hf, rfl⟩) hsx

/-- The bytes from `p` on are taken, and nothing else changes. -/
structure Allocator.Takes (a a' : Allocator) (p bytes : ℕ) : Prop where
  inv : a'.Inv
  pool : a'.pool = a.pool
  length : a'.length = a.length
  total : a'.total_free = a.total_free - bytes
  free : Set.Ico p (p + bytes) ⊆ a.freeSpace
  space : a'.freeSpace = a.freeSpace \ Set.Ico p (p + bytes)
  used : (usedNodes a'.memory.entries).Perm ((p, bytes) :: usedNodes a.memory.entries)

/-- A new used node takes its bytes out of the free space. -/
theorem Allocator.Inv.takes (h : a.Inv) (h' : a'.Inv) (hpool : a'.pool = a.pool)
    (hlength : a'.length = a.length) (htotal : a'.total_free = a.total_free - bytes)
    (hused : (usedNodes a'.memory.entries).Perm ((p, bytes) :: usedNodes a.memory.entries))
      {k len : ℕ}
    (hfree : a.FreeNode k len) (hlo : k ≤ p) (hhi : p + bytes ≤ k + len) : a.Takes a' p bytes := by
  refine ⟨h', hpool, hlength, htotal, fun x hx => ⟨k, len, hfree, ?_, ?_⟩, ?_, hused⟩
  · exact hlo.trans hx.1
  · exact lt_of_lt_of_le hx.2 hhi
  · ext x
    rw [Set.mem_sdiff, h'.mem_freeSpace, h.mem_freeSpace, hpool, hlength, Set.mem_Ico]
    simp only [hused.mem_iff, List.mem_cons, forall_eq_or_imp]
    tauto

end Space

/-! ### Without a fixed address -/

/-- A call returns null exactly when no free node has `bytes` bytes, and then changes nothing. -/
def Allocator.NullExactly (a : Allocator) (bytes : ℕ) (r : Option (Option ℕ × Allocator)) : Prop :=
  ((∀ k len, a.FreeNode k len → len < bytes) → r = some (none, a)) ∧
    ((∃ k len, a.FreeNode k len ∧ bytes ≤ len) → ∃ p a', r = some (some p, a') ∧ a.Takes a' p bytes)

section Calls

variable (ndebug : Bool) {a : Allocator} {bytes : ℕ}

/-- What a search in address order finds is the lowest. -/
theorem le_of_find? {l : List (ℕ × Node)} {p : ℕ × Node → Bool} {e f : ℕ × Node}
    (hl : l.Pairwise fun x y => x.1 < y.1) (he : l.find? p = some e) (hf : f ∈ l)
    (hp : p f = true) : e.1 ≤ f.1 := by
  obtain ⟨-, A, B, rfl, hA⟩ := List.find?_eq_some_iff_append.1 he
  rw [List.mem_append, List.mem_cons] at hf
  rcases hf with hf | rfl | hf
  · simpa [hp] using hA f hf
  · exact le_rfl
  · rw [List.pairwise_append, List.pairwise_cons] at hl
    exact (hl.2.1.1 f hf).le

/-- **From the free node where it starts** `alloc` takes the low bytes of the lowest free node that
is long enough; it does nothing if there is none. -/
theorem Allocator.Inv.alloc_from (h : a.Inv) (hpos : 0 < bytes) {address c lc : ℕ}
    {fix_address : Bool} (hs : a.allocStart address fix_address = some (some c))
    (hc : a.FreeNode c lc) :
    ((∀ k len, a.FreeNode k len → c ≤ k → len < bytes) ∧
        a.alloc ndebug address bytes fix_address = some (none, a)) ∨
      ∃ k len a', a.FreeNode k len ∧ bytes ≤ len ∧ c ≤ k ∧
        (∀ k' len', a.FreeNode k' len' → c ≤ k' → bytes ≤ len' → k ≤ k') ∧
          a.alloc ndebug address bytes fix_address = some (some k, a') ∧ a.Takes a' k bytes := by
  obtain ⟨nc, hmem, hf, -⟩ := h.freeNode_iff.1 hc
  obtain ⟨X, Y, he⟩ := List.append_of_mem hmem
  have hsorted := h.shape.sorted
  rw [he, List.pairwise_append] at hsorted
  -- the free nodes from the start on are behind it in the list
  have hbehind : ∀ k len, a.FreeNode k len → c ≤ k →
      ∃ n, (k, n) ∈ (c, nc) :: Y ∧ isFreeEntry (k, n) = true ∧ n.len = len := by
    intro k len hk hle
    obtain ⟨n, hmemk, hkf, rfl⟩ := h.freeNode_iff.1 hk
    rw [he, List.mem_append] at hmemk
    refine ⟨n, hmemk.resolve_left fun hX => ?_, hkf, rfl⟩
    have := h.shape.lt_of_before he hX
    simp only at this
    omega
  cases hq : ((c, nc) :: Y).find? fun e => isFreeEntry e && decide (bytes ≤ e.2.len) with
  | none =>
    refine .inl ⟨fun k len hk hle => ?_, Allocator.alloc_from_none ndebug h hpos hs he hf hq⟩
    obtain ⟨n, hn, hkf, rfl⟩ := hbehind k len hk hle
    simpa [hkf] using List.find?_eq_none.1 hq _ hn
  | some e =>
    obtain ⟨k, n⟩ := e
    have hkf := List.find?_some hq
    rw [Bool.and_eq_true, decide_eq_true_eq] at hkf
    simp only at hkf
    have hkY := List.mem_of_find?_eq_some hq
    have hk : (k, n) ∈ a.memory.entries := he ▸ List.mem_append_right _ hkY
    have hkfree : a.FreeNode k n.len := h.freeNode_iff.2 ⟨n, hk, hkf.1, rfl⟩
    have htotal : bytes ≤ a.total_free := hkf.2.trans (h.total ▸ le_freeBytes hk hkf.1)
    obtain ⟨a', hr, hi, hp, hl, ht, hused⟩ :=
      Allocator.alloc_from_some ndebug h hpos htotal hs he hf hq
    have hck : c ≤ k := by
      rcases List.mem_cons.1 hkY with heq | hY
      · cases heq
        exact le_rfl
      · exact (h.shape.lt_of_after he hY).le
    refine .inr ⟨k, n.len, a', hkfree, hkf.2, hck, fun k' len' hk' hle hlen => ?_, hr,
      h.takes hi hp hl ht hused hkfree le_rfl (by omega)⟩
    obtain ⟨n', hn', hkf', rfl⟩ := hbehind k' len' hk' hle
    exact le_of_find? hsorted.2.1 hq hn' (by simp [hkf', hlen])

/-- `firstfree()` is the lowest of the free nodes that have bytes, or below them. -/
theorem Allocator.Inv.exists_first (h : a.Inv) (address : ℕ) :
    ∃ c lc, a.allocStart address false = some (some c) ∧ a.FreeNode c lc ∧
      ∀ k len, a.FreeNode k len → 0 < len → c ≤ k := by
  obtain ⟨⟨_, z⟩, hz, rfl⟩ := List.mem_map.1 h.shape.zero_mem
  obtain ⟨X, Y, he⟩ := List.append_of_mem hz
  obtain ⟨V, ⟨d, nd⟩, S, rfl, hd, hV⟩ := h.shape.exists_free_after he (by simp [guardKey])
  have hn : z.next = some d := (h.shape.link he (h.shape.zero _ hz rfl).2.2 hd hV).1
  refine ⟨d, nd.len, ?_, h.freeNode_iff.2 ⟨nd, he ▸ by simp, hd, rfl⟩, fun k len hk hpos => ?_⟩
  · simp [Allocator.allocStart, h.shape.first?, OrderedMap.find?_of_entries he, hn]
  · obtain ⟨n, hmem, hf, rfl⟩ := h.freeNode_iff.1 hk
    have he' : a.memory.entries = (X ++ (0, z) :: V) ++ (d, nd) :: S := by simp [he]
    by_contra hlt
    rw [he', List.mem_append, List.mem_cons] at hmem
    rcases hmem with hk | heq | hk
    · rw [List.mem_append, List.mem_cons] at hk
      rcases hk with hk | heq | hk
      · have := h.shape.lt_of_before he hk
        simp only at this
        omega
      · cases heq
        exact hpos.ne' (h.shape.zero _ hz rfl).1
      · rw [hV _ hk] at hf
        cases hf
    · cases heq
      omega
    · have := h.shape.lt_of_after he' hk
      simp only at this
      omega

/-- **`alloc` without a fixed address** finds a node if there is one. -/
theorem Allocator.Inv.alloc_null (h : a.Inv) (address : ℕ) (hpos : 0 < bytes) :
    a.NullExactly bytes (a.alloc ndebug address bytes false) := by
  obtain ⟨c, lc, hs, hc, hfirst⟩ := h.exists_first address
  obtain ⟨hshort, hr⟩ | ⟨k, len, a', hk, hle, -, -, hr, htakes⟩ := h.alloc_from ndebug hpos hs hc
  · refine ⟨fun _ => hr, ?_⟩
    rintro ⟨k, len, hk, hle⟩
    have := hshort k len hk (hfirst k len hk (by omega))
    omega
  · refine ⟨fun hno => ?_, fun _ => ⟨k, a', hr, htakes⟩⟩
    have := hno k len hk
    omega

/-- **`alloc_high`** finds a node if there is one. -/
theorem Allocator.Inv.alloc_high_null (h : a.Inv) (hpos : 0 < bytes) :
    a.NullExactly bytes (a.alloc_high ndebug bytes) := by
  obtain ⟨hr, hno⟩ | ⟨k, n, a', hk, hf, hle, hr, hi, hp, hl, ht, hused⟩ :=
    Allocator.alloc_high_cases ndebug h hpos
  · refine ⟨fun _ => hr, ?_⟩
    rintro ⟨k, len, hfree, hle⟩
    obtain ⟨n, hk, hkf, rfl⟩ := h.freeNode_iff.1 hfree
    have := hno _ hk hkf
    simp only at this
    omega
  · have hfree : a.FreeNode k n.len := h.freeNode_iff.2 ⟨n, hk, hf, rfl⟩
    refine ⟨fun hno => ?_, fun _ => ⟨_, a', hr, h.takes hi hp hl ht hused hfree ?_ ?_⟩⟩
    · have := hno k n.len hfree
      omega
    · omega
    · omega

/-! ### With a fixed address -/

/-- What `alloc` with a fixed address should do: take exactly the range if it is free, and otherwise
nothing. -/
def Allocator.FixedOk (ndebug : Bool) (a : Allocator) (address bytes : ℕ) : Prop :=
  ((∃ k len, a.FreeNode k len ∧ k ≤ address ∧ address + bytes ≤ k + len) →
      ∃ a', a.alloc ndebug address bytes true = some (some address, a') ∧
        a.Takes a' address bytes) ∧
    ((¬∃ k len, a.FreeNode k len ∧ k ≤ address ∧ address + bytes ≤ k + len) →
      a.alloc ndebug address bytes true = some (none, a))

/-- If the address is in a free node, it is where the node starts and the node is long enough, or no
free node from this one on is long enough. -/
def Allocator.Fits (a : Allocator) (address bytes : ℕ) : Prop :=
  ∀ k len, a.FreeNode k len → k ≤ address → address < k + len →
    (k = address ∧ bytes ≤ len) ∨ ∀ k' len', a.FreeNode k' len' → k ≤ k' → len' < bytes

/-- The node that the search finds is the one that the address is in. -/
theorem Allocator.Inv.nodeAt_spec (h : a.Inv) (address : ℕ) :
    (nodeAt a.memory address = none ∧
        ∀ e ∈ a.memory.entries, ¬(e.1 ≤ address ∧ address < e.1 + e.2.len)) ∨
      ∃ e, nodeAt a.memory address = some e ∧ e ∈ a.memory.entries ∧ e.1 ≤ address ∧
        address < e.1 + e.2.len := by
  have hend : ∀ e ∈ a.memory.entries, u64 (e.1 + e.2.len) = e.1 + e.2.len := fun e he => by
    have hfits := h.fits
    refine u64_of_lt ?_
    by_cases hpos : 0 < e.2.len
    · have := (h.shape.bounds he (h.shape.ne_zero_of_pos he hpos)
        (h.shape.ne_guard_of_pos he hpos)).2
      unfold guardKey at hfits
      omega
    · have := h.shape.le_guard e he
      unfold guardKey at this
      omega
  cases hq : nodeAt a.memory address with
  | none =>
    refine .inl ⟨rfl, fun e he hx => ?_⟩
    have := List.find?_eq_none.1 hq e he
    simp only [hend e he, Bool.and_eq_true, decide_eq_true_eq, not_and, gt_iff_lt] at this
    exact this hx.1 hx.2
  | some e =>
    have he := List.mem_of_find?_eq_some hq
    have := List.find?_some hq
    simp only [hend e he, Bool.and_eq_true, decide_eq_true_eq, gt_iff_lt] at this
    exact .inr ⟨e, rfl, he, this.1, this.2⟩

/-- **Where the search for a fixed address starts**: at the free node that the address is in, or
nowhere. -/
theorem Allocator.Inv.allocStart_fixed (h : a.Inv) {address : ℕ} (hbase : a.pool < address) :
    (a.allocStart address true = some none ∧
        ∀ k len, a.FreeNode k len → ¬(k ≤ address ∧ address < k + len)) ∨
      ∃ c lc, a.allocStart address true = some (some c) ∧ a.FreeNode c lc ∧ c ≤ address ∧
        address < c + lc ∧
          ∀ k len, a.FreeNode k len → k ≤ address → address < k + len → k = c ∧ len = lc := by
  obtain ⟨hnone, hno⟩ | ⟨⟨c, nc⟩, hsome, hc, hlo, hhi⟩ := h.nodeAt_spec address
  · -- the address is in no node
    refine .inl ⟨by simp [Allocator.allocStart, hbase, hnone], fun k len hfree => ?_⟩
    obtain ⟨n, hk, -, rfl⟩ := h.freeNode_iff.1 hfree
    exact hno _ hk
  have honly : ∀ k len, a.FreeNode k len → k ≤ address → address < k + len →
      k = c ∧ len = nc.len ∧ isFreeEntry (c, nc) = true := fun k len hfree hklo hkhi => by
    obtain ⟨n, hk, hf, rfl⟩ := h.freeNode_iff.1 hfree
    cases h.shape.eq_of_mem hk hc ⟨hklo, hkhi⟩ ⟨hlo, hhi⟩
    exact ⟨rfl, rfl, hf⟩
  have hisfree : isfree a.memory nc = isFreeEntry (c, nc) := isfree_eq h.shape.first? c nc
  cases hf : isFreeEntry (c, nc) with
  | false =>
    -- the address is in a used node
    refine .inl ⟨by simp [Allocator.allocStart, hbase, hsome, hisfree, hf], ?_⟩
    rintro k len hfree ⟨hklo, hkhi⟩
    have := (honly k len hfree hklo hkhi).2.2
    rw [hf] at this
    cases this
  | true =>
    exact .inr ⟨c, nc.len, by simp [Allocator.allocStart, hbase, hsome, hisfree, hf],
      h.freeNode_iff.2 ⟨nc, hc, hf, rfl⟩, hlo, hhi,
      fun k len hk hklo hkhi => (honly k len hk hklo hkhi).imp_right And.left⟩

/-- The nodes that `alloc` looks at: with a fixed address those from the one on that has the
address. -/
def Allocator.SearchFrom (a : Allocator) (address c : ℕ) : Prop :=
  if a.pool < address then ∃ lc, a.FreeNode c lc ∧ c ≤ address ∧ address < c + lc else c = 0

/-- The lowest free node that is long enough, among those that `alloc` looks at for an address, null
if it is not fixed. -/
def Allocator.Picks (a : Allocator) (address bytes k : ℕ) : Prop :=
  ∃ c len, a.SearchFrom address c ∧ a.FreeNode k len ∧ bytes ≤ len ∧ c ≤ k ∧
    ∀ k' len', a.FreeNode k' len' → c ≤ k' → bytes ≤ len' → k ≤ k'

/-- **`alloc` takes the low bytes of the node it picks**, and does nothing if there is none. -/
theorem Allocator.Inv.alloc_picks (h : a.Inv) (hpos : 0 < bytes) (address hint : ℕ)
    (hhint : address ≠ 0 → hint = address) :
    ((∀ k, ¬a.Picks address bytes k) ∧
        a.alloc ndebug hint bytes (decide (address ≠ 0)) = some (none, a)) ∨
      ∃ k a', (∀ k', a.Picks address bytes k' ↔ k' = k) ∧
        a.alloc ndebug hint bytes (decide (address ≠ 0)) = some (some k, a') ∧
          a.Takes a' k bytes := by
  have hpicks : ∀ {c lc}, a.allocStart hint (decide (address ≠ 0)) = some (some c) →
      a.FreeNode c lc → (∀ c', a.SearchFrom address c' → c' ≤ c ∧
        ∀ k len, a.FreeNode k len → 0 < len → c' ≤ k → c ≤ k) → (∃ c', a.SearchFrom address c') →
      ((∀ k, ¬a.Picks address bytes k) ∧
        a.alloc ndebug hint bytes (decide (address ≠ 0)) = some (none, a)) ∨
      ∃ k a', (∀ k', a.Picks address bytes k' ↔ k' = k) ∧
        a.alloc ndebug hint bytes (decide (address ≠ 0)) = some (some k, a') ∧
          a.Takes a' k bytes := by
    intro c lc hs hc hfrom hsome
    obtain ⟨hshort, hr⟩ | ⟨k, len, a', hk, hle, hck, hmin, hr, htakes⟩ :=
      h.alloc_from ndebug hpos hs hc
    · refine .inl ⟨?_, hr⟩
      rintro k ⟨c', len, hc', hk, hle, hck, -⟩
      have := hshort k len hk ((hfrom c' hc').2 k len hk (by omega) hck)
      omega
    · refine .inr ⟨k, a', fun k' => ⟨?_, ?_⟩, hr, htakes⟩
      · rintro ⟨c', len', hc', hk', hle', hck', hmin'⟩
        have hck'' := (hfrom c' hc').2 k' len' hk' (by omega) hck'
        exact le_antisymm (hmin' k len hk ((hfrom c' hc').1.trans hck) hle)
          (hmin k' len' hk' hck'' hle')
      · rintro rfl
        obtain ⟨c', hc'⟩ := hsome
        exact ⟨c', len, hc', hk, hle, (hfrom c' hc').1.trans hck, fun k'' len'' hk'' hck'' hle'' =>
          hmin k'' len'' hk'' ((hfrom c' hc').2 k'' len'' hk'' (by omega) hck'') hle''⟩
  by_cases hbase : a.pool < address
  · have hne : address ≠ 0 := by omega
    obtain rfl := hhint hne
    have hsearch : ∀ c, a.SearchFrom hint c ↔ ∃ lc, a.FreeNode c lc ∧ c ≤ hint ∧ hint < c + lc :=
      fun c => by rw [Allocator.SearchFrom, if_pos hbase]
    rw [decide_eq_true hne] at hpicks ⊢
    obtain ⟨hnone, hno⟩ | ⟨c, lc, hs, hc, hlo, hhi, honly⟩ := h.allocStart_fixed hbase
    · refine .inl ⟨?_, by simp [Allocator.alloc, hnone]⟩
      rintro k ⟨c, -, hfrom, -⟩
      obtain ⟨lc, hc, hin⟩ := (hsearch c).1 hfrom
      exact hno c lc hc hin
    · refine hpicks hs hc (fun c' hc' => ?_) ⟨c, (hsearch c).2 ⟨lc, hc, hlo, hhi⟩⟩
      obtain ⟨lc', hc', hlo', hhi'⟩ := (hsearch c').1 hc'
      obtain ⟨rfl, -⟩ := honly c' lc' hc' hlo' hhi'
      exact ⟨le_rfl, fun _ _ _ _ hle => hle⟩
  · have hsearch : ∀ c, a.SearchFrom address c ↔ c = 0 := fun c => by
      rw [Allocator.SearchFrom, if_neg hbase]
    obtain ⟨c, lc, hs, hc, hfirst⟩ := h.exists_first hint
    have hs' : a.allocStart hint (decide (address ≠ 0)) = some (some c) := by
      by_cases hne : address ≠ 0
      · rw [decide_eq_true hne, ← hs]
        simp [Allocator.allocStart, hhint hne, hbase]
      · rw [decide_eq_false hne, hs]
    refine hpicks hs' hc (fun c' hc' => ?_) ⟨0, (hsearch 0).2 rfl⟩
    obtain rfl := (hsearch c').1 hc'
    exact ⟨Nat.zero_le c, fun k len hk hlen _ => hfirst k len hk hlen⟩

/-- **`alloc` with a fixed address is right** in the states where the address fits. -/
theorem Allocator.Inv.fixedOk_iff (h : a.Inv) {address : ℕ} (hbase : a.pool < address)
    (hpos : 0 < bytes) : a.FixedOk ndebug address bytes ↔ a.Fits address bytes := by
  obtain ⟨hnone, hout⟩ | ⟨c, lc, hstart, hfree, hlo, hhi, honly⟩ := h.allocStart_fixed hbase
  · have hnull : a.alloc ndebug address bytes true = some (none, a) := by
      simp [Allocator.alloc, hnone]
    refine ⟨fun _ k len hk hklo hkhi => absurd ⟨hklo, hkhi⟩ (hout k len hk),
      fun _ => ⟨?_, fun _ => hnull⟩⟩
    rintro ⟨k, len, hk, hklo, hkhi⟩
    exact absurd ⟨hklo, by omega⟩ (hout k len hk)
  have hrange : (∃ k len, a.FreeNode k len ∧ k ≤ address ∧ address + bytes ≤ k + len) ↔
      address + bytes ≤ c + lc := by
    constructor
    · rintro ⟨k, len, hk, hklo, hkhi⟩
      obtain ⟨rfl, rfl⟩ := honly k len hk hklo (by omega)
      exact hkhi
    · exact fun hle => ⟨c, lc, hfree, hlo, hle⟩
  rw [Allocator.FixedOk, hrange]
  obtain ⟨hshort, hr⟩ | ⟨k, len, a', hk, hle, hck, hmin, hr, htakes⟩ :=
    h.alloc_from ndebug hpos hstart hfree
  · -- no free node from this one on is long enough
    have hcshort := hshort c lc hfree le_rfl
    refine ⟨fun _ k len hk hklo hkhi => ?_, fun _ => ⟨fun hle => ?_, fun _ => hr⟩⟩
    · obtain ⟨rfl, -⟩ := honly k len hk hklo hkhi
      exact .inr hshort
    · omega
  · constructor
    · rintro ⟨hin, hout⟩ k' len' hk' hklo hkhi
      obtain ⟨rfl, rfl⟩ := honly k' len' hk' hklo hkhi
      by_cases hend : address + bytes ≤ k' + len'
      · obtain ⟨b, hb, -⟩ := hin hend
        rw [hr] at hb
        cases hb
        -- the node that was taken has the address too
        obtain ⟨rfl, rfl⟩ := honly address len hk le_rfl (by omega)
        exact .inl ⟨rfl, hle⟩
      · have hb := hout hend
        rw [hr] at hb
        cases hb
    · intro hfits
      obtain ⟨rfl, hclen⟩ | hshort := hfits c lc hfree hlo hhi
      · obtain rfl : k = c := le_antisymm (hmin c lc hfree le_rfl hclen) hck
        exact ⟨fun _ => ⟨a', hr, htakes⟩, fun hout => absurd (by omega) hout⟩
      · have := hshort k len hk hck
        omega

/-- **`alloc` and `alloc_high` find room**, in every state: without a fixed address always, with one
exactly where it fits. -/
theorem Allocator.alloc_fits_iff (h : a.Inv) (address : ℕ) (hpos : 0 < bytes) :
    ((a.pool < address → a.FixedOk ndebug address bytes) ∧
        (∀ any, a.NullExactly bytes (a.alloc ndebug any bytes false)) ∧
          a.NullExactly bytes (a.alloc_high ndebug bytes)) ↔
      (a.pool < address → a.Fits address bytes) := by
  constructor
  · rintro ⟨hfixed, -, -⟩ hbase
    exact (h.fixedOk_iff ndebug hbase hpos).1 (hfixed hbase)
  · intro hfits
    exact ⟨fun hbase => (h.fixedOk_iff ndebug hbase hpos).2 (hfits hbase),
      fun any => h.alloc_null ndebug any hpos, h.alloc_high_null ndebug hpos⟩

/-- An arena of two pages, and an address inside its free node. -/
theorem Allocator.alloc_fits_iff_two_pages :
    ((4096 < 8192 → (Allocator.create 4096 8192).FixedOk false 8192 4096) ∧
        (∀ any, (Allocator.create 4096 8192).NullExactly 4096
          ((Allocator.create 4096 8192).alloc false any 4096 false)) ∧
          (Allocator.create 4096 8192).NullExactly 4096
            ((Allocator.create 4096 8192).alloc_high false 4096)) ↔
      (4096 < 8192 → (Allocator.create 4096 8192).Fits 8192 4096) :=
  Allocator.alloc_fits_iff false (Arena.inv_create (by decide) (by decide)).inv 8192 (by decide)

/-- **The fixed address is not what is returned**: of two free pages the second is asked for, and
the first is taken. -/
theorem Allocator.fixed_takes_start : (Allocator.create 4096 8192).Inv ∧
    ¬(Allocator.create 4096 8192).FixedOk false 8192 4096 := by
  refine ⟨(Arena.inv_create (by decide) (by decide)).inv, fun hfixed => ?_⟩
  have hnode : (Allocator.create 4096 8192).FreeNode 4096 8192 :=
    ⟨{ len := 8192, next := some guardKey, prior := some 0 }, by decide, by decide, rfl⟩
  obtain ⟨a', h, -⟩ := hfixed.1 ⟨4096, 8192, hnode, by decide, by decide⟩
  have hstart : ((Allocator.create 4096 8192).alloc false 8192 4096 true).map Prod.fst =
      some (some 4096) := by
    decide
  rw [h] at hstart
  cases hstart

end Calls

end Codrive.Device
