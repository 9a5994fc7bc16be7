/-
# The pools, over every run

The buffers of the pool and the buffers that are not of the pool are parts of blocks of memory that
are not freed (`Layout`).  With the flags of what is held this gives the invariant of the device
(`Kernarg`) and that of the context (`Signals`).  `pools_of_run` puts them together: as long as no
pool grows beyond `2 ^ 31` items, nothing is handed out twice.

A position from `2 ^ 31` on is a negative `int`, and `releaseKernargBuffer` takes the buffer for one
that is not of the pool (`large_pool_is_freed`).
-/

import Codrive.Csq.Pools
import Mathlib.Data.List.Pairwise

namespace Codrive.Csq.Pools

open Codrive.Basis

theorem toInt32_of_lt {x : ℕ} (h : x < 2 ^ 31) : toInt32 x = x := if_pos h

theorem length_buffersOf (base : ℕ) : (buffersOf base).length = KERNARG_POOL_SIZE := by
  simp [buffersOf]

/-! ### Memory -/

/-- **The layout**: the buffers of the pool are disjoint parts of blocks, and a buffer that is not
of the pool is a block that has none of them. -/
structure Layout (items : List ℕ) (memory alone : List (ℕ × ℕ)) : Prop where
  itemsApart : items.Pairwise fun a b => Separate (a, KERNARG_BUFFER_SIZE) (b, KERNARG_BUFFER_SIZE)
  blocksApart : memory.Pairwise Separate
  blocks : ∀ x ∈ memory, 0 < x.1 ∧ 0 < x.2
  inside : ∀ a ∈ items, ∃ x ∈ memory, Within (a, KERNARG_BUFFER_SIZE) x
  block : ∀ x ∈ alone, x ∈ memory
  apart : ∀ x ∈ alone, ∀ a ∈ items, Separate (a, KERNARG_BUFFER_SIZE) x
  aloneApart : alone.Pairwise Separate

namespace Layout

variable {items : List ℕ} {memory alone : List (ℕ × ℕ)} {base n : ℕ} {x y : ℕ × ℕ}

theorem nil : Layout [] [] [] where
  itemsApart := .nil
  blocksApart := .nil
  blocks := nofun
  inside := nofun
  block := nofun
  apart := nofun
  aloneApart := .nil

/-- The buffers of a block are parts of it. -/
theorem within_blockOf {a : ℕ} (ha : a ∈ buffersOf base) :
    Within (a, KERNARG_BUFFER_SIZE) (blockOf base) := by
  obtain ⟨i, hi, rfl⟩ := List.mem_map.1 ha
  have hlt := List.mem_range.1 hi
  unfold Within blockOf
  dsimp only
  unfold KERNARG_POOL_SIZE KERNARG_BUFFER_SIZE at *
  omega

/-- They have no byte in common. -/
theorem pairwise_buffersOf (base : ℕ) : (buffersOf base).Pairwise fun a b =>
    Separate (a, KERNARG_BUFFER_SIZE) (b, KERNARG_BUFFER_SIZE) := by
  unfold buffersOf
  refine List.pairwise_map.2 (List.pairwise_lt_range.imp fun {i j} hij => .inl ?_)
  unfold KERNARG_BUFFER_SIZE
  omega

/-- What is inside a block has no byte in common with another one. -/
theorem separate_of_fresh (h : Layout items memory alone) (hfresh : Fresh memory x) {a : ℕ}
    (ha : a ∈ items) : Separate (a, KERNARG_BUFFER_SIZE) x := by
  obtain ⟨y, hy, hin⟩ := h.inside a ha
  exact ((hfresh.2.2 y hy).symm.part hin.1 hin.2).symm

/-- **The pool grows** by the buffers of a new block. -/
theorem grow (h : Layout items memory alone) (hfresh : Fresh memory (blockOf base)) :
    Layout (items ++ buffersOf base) (blockOf base :: memory) alone where
  itemsApart := by
    refine List.pairwise_append.2 ⟨h.itemsApart, pairwise_buffersOf base, fun a ha b hb => ?_⟩
    have hin := within_blockOf hb
    exact (h.separate_of_fresh hfresh ha).part hin.1 hin.2
  blocksApart := List.pairwise_cons.2 ⟨fun x hx => (hfresh.2.2 x hx).symm, h.blocksApart⟩
  blocks := List.forall_mem_cons.2 ⟨⟨hfresh.1, Nat.mul_pos (by decide) (by decide)⟩, h.blocks⟩
  inside := by
    intro a ha
    rcases List.mem_append.1 ha with ha | ha
    · obtain ⟨x, hx, hin⟩ := h.inside a ha
      exact ⟨x, List.mem_cons_of_mem _ hx, hin⟩
    · exact ⟨_, List.mem_cons_self, within_blockOf ha⟩
  block x hx := List.mem_cons_of_mem _ (h.block x hx)
  apart := by
    intro x hx a ha
    rcases List.mem_append.1 ha with ha | ha
    · exact h.apart x hx a ha
    · have hin := within_blockOf ha
      exact ((hfresh.2.2 x (h.block x hx)).part hin.1 hin.2).symm
  aloneApart := h.aloneApart

/-- A buffer that is not of the pool is a new block. -/
theorem single (h : Layout items memory alone) (hfresh : Fresh memory x) (hx : 0 < x.2) :
    Layout items (x :: memory) (x :: alone) where
  itemsApart := h.itemsApart
  blocksApart := List.pairwise_cons.2 ⟨fun y hy => (hfresh.2.2 y hy).symm, h.blocksApart⟩
  blocks := List.forall_mem_cons.2 ⟨⟨hfresh.1, hx⟩, h.blocks⟩
  inside := by
    intro a ha
    obtain ⟨y, hy, hin⟩ := h.inside a ha
    exact ⟨y, List.mem_cons_of_mem _ hy, hin⟩
  block := List.forall_mem_cons.2
    ⟨List.mem_cons_self, fun y hy => List.mem_cons_of_mem _ (h.block y hy)⟩
  apart := List.forall_mem_cons.2 ⟨fun _ ha => h.separate_of_fresh hfresh ha, h.apart⟩
  aloneApart := List.pairwise_cons.2
    ⟨fun y hy => (hfresh.2.2 y (h.block y hy)).symm, h.aloneApart⟩

/-- Two blocks with the same address are one. -/
theorem eq_of_fst (h : Layout items memory alone) (hx : x ∈ memory) (hy : y ∈ memory)
    (heq : x.1 = y.1) : x = y :=
  eq_of_fst_of_separate h.blocksApart (fun z hz => (h.blocks z hz).2) hx hy heq

theorem nodup_alone (h : Layout items memory alone) : alone.Nodup :=
  nodup_of_separate h.aloneApart fun x hx => (h.blocks x (h.block x hx)).2

/-- **A block is freed** that is a buffer of its own. -/
theorem free (h : Layout items memory alone) (hx : x ∈ alone) :
    Layout items (memory.filter (·.1 ≠ x.1)) (alone.erase x) where
  itemsApart := h.itemsApart
  blocksApart := h.blocksApart.filter _
  blocks y hy := h.blocks y (List.mem_filter.1 hy).1
  inside := by
    intro a ha
    obtain ⟨y, hy, hin⟩ := h.inside a ha
    refine ⟨y, List.mem_filter.2 ⟨hy, decide_eq_true fun heq => ?_⟩, hin⟩
    obtain rfl := h.eq_of_fst hy (h.block x hx) heq
    have hsep := h.apart y hx a ha
    unfold Separate at hsep
    unfold Within at hin
    have hpos : 0 < KERNARG_BUFFER_SIZE := by decide
    dsimp only at hsep hin
    omega
  block := by
    intro y hy
    obtain ⟨hne, hy⟩ := h.nodup_alone.mem_erase_iff.1 hy
    refine List.mem_filter.2 ⟨h.block y hy, decide_eq_true fun heq => hne ?_⟩
    exact h.eq_of_fst (h.block y hy) (h.block x hx) heq
  apart y hy := h.apart y (List.mem_of_mem_erase hy)
  aloneApart := h.aloneApart.sublist List.erase_sublist

theorem nodup_items (h : Layout items memory alone) : items.Nodup := by
  refine h.itemsApart.imp fun {a b} hsep => ?_
  rintro rfl
  have hpos : 0 < KERNARG_BUFFER_SIZE := by decide
  unfold Separate at hsep
  dsimp only at hsep
  omega

theorem ne_zero (h : Layout items memory alone) (hx : x ∈ alone) : x.1 ≠ 0 :=
  Nat.pos_iff_ne_zero.1 (h.blocks x (h.block x hx)).1

end Layout

/-! ### Kernarg buffers -/

/-- **The invariant of the device**. -/
structure Kernarg (d : DlaDevice) (pooled : List (ℕ × ℤ)) (alone : List (ℕ × ℕ)) : Prop where
  inv : d.kernargPool.Inv
  le : d.kernargPool.items.length ≤ 2 ^ 31
  held : d.kernargPool.Held pooled
  layout : Layout d.kernargPool.items d.memory alone

namespace Kernarg

variable {d d' : DlaDevice} {pooled : List (ℕ × ℤ)} {alone : List (ℕ × ℕ)} {ndebug : Bool}
  {allocate : ℕ → Option ℕ} {size : ℤ} {ret : ℕ × ℤ} {a n : ℕ} {x : ℕ × ℤ}

/-- **What is handed out is disjoint.** -/
theorem pairwise (h : Kernarg d pooled alone) :
    (pooled.map (fun x => (x.1, KERNARG_BUFFER_SIZE)) ++ alone).Pairwise Separate := by
  refine List.pairwise_append.2 ⟨?_, h.layout.aloneApart, ?_⟩
  · refine List.pairwise_map.2 ?_
    have hne := List.pairwise_map.1 (h.held.nodup_items h.layout.nodup_items)
    refine List.Pairwise.imp_of_mem (fun {x y} hx hy hne => ?_) hne
    obtain ⟨i, -, hi, -⟩ := h.held.mem x hx
    obtain ⟨j, -, hj, -⟩ := h.held.mem y hy
    exact h.layout.itemsApart.forall (List.mem_of_getElem? hi) (List.mem_of_getElem? hj) hne
  · intro y hy z hz
    obtain ⟨x, hx, rfl⟩ := List.mem_map.1 hy
    obtain ⟨i, -, hi, -⟩ := h.held.mem x hx
    exact h.layout.apart z hz _ (List.mem_of_getElem? hi)

/-- The call looks into the pool. -/
theorem getKernargBuffer_of_le (hsize : size ≤ KERNARG_BUFFER_SIZE)
    (hget : d.getKernargBuffer ndebug allocate size = some (ret, d')) :
    ∃ a i pool, d.kernargPool.get ndebug ((d.growKernargBuffer allocate).map buffersOf) =
        some (a, i, pool) ∧ ret = (a, toInt32 i) ∧
      d' = ⟨pool, ((d.growKernargBuffer allocate).map blockOf).toList ++ d.memory⟩ := by
  unfold DlaDevice.getKernargBuffer at hget
  rw [if_pos ⟨by decide, hsize⟩] at hget
  obtain ⟨⟨a, i, pool⟩, hpool, hget⟩ := Option.bind_eq_some_iff.1 hget
  obtain ⟨rfl, rfl⟩ := Prod.mk.inj (Option.some.inj hget)
  exact ⟨a, i, pool, hpool, rfl, rfl⟩

/-- The call allocates a buffer. -/
theorem getKernargBuffer_of_lt (hsize : ¬size ≤ KERNARG_BUFFER_SIZE)
    (hget : d.getKernargBuffer ndebug allocate size = some (ret, d')) :
    ∃ a, allocate size.toNat = some a ∧ ret = (a, -1) ∧
      d' = { d with memory := (a, size.toNat) :: d.memory } := by
  unfold DlaDevice.getKernargBuffer at hget
  rw [if_neg fun hle => hsize hle.2] at hget
  obtain ⟨a, hallocate, hget⟩ := Option.bind_eq_some_iff.1 hget
  obtain ⟨rfl, rfl⟩ := Prod.mk.inj (Option.some.inj hget)
  exact ⟨a, hallocate, rfl, rfl⟩

/-- A block that the pool grows by is fresh, and the pool was full. -/
theorem growKernargBuffer_eq_some (h : Kernarg d pooled alone)
    (hfresh : ∀ n a, allocate n = some a → Fresh d.memory (a, n))
    (hgrow : d.growKernargBuffer allocate = some a) :
    d.kernargPool.Full ∧ Fresh d.memory (blockOf a) := by
  unfold DlaDevice.growKernargBuffer at hgrow
  by_cases hnone : d.kernargPool.find = none
  · rw [if_pos hnone] at hgrow
    exact ⟨(CursorPool.find_eq_none_iff h.inv).1 hnone, hfresh _ _ hgrow⟩
  · rw [if_neg hnone] at hgrow
    exact nomatch hgrow

/-- **A buffer of the pool is handed out.** -/
theorem get (h : Kernarg d pooled alone)
    (hfresh : ∀ n a, allocate n = some a → Fresh d.memory (a, n))
    (hsmall : d.kernargPool.Full → d.kernargPool.items.length + KERNARG_POOL_SIZE ≤ 2 ^ 31)
    (hsize : size ≤ KERNARG_BUFFER_SIZE)
    (hget : d.getKernargBuffer ndebug allocate size = some (ret, d')) :
    Kernarg d' (ret :: pooled) alone := by
  obtain ⟨a, i, pool, hpool, rfl, rfl⟩ := getKernargBuffer_of_le hsize hget
  have hgot := CursorPool.got_of_get h.inv (fun hfull l hl => by
    obtain ⟨base, -, rfl⟩ := Option.map_eq_some_iff.1 hl
    rw [length_buffersOf]
    have := hsmall hfull
    omega) hpool
  have hlayout : pool.items.length ≤ 2 ^ 31 ∧ Layout pool.items
      (((d.growKernargBuffer allocate).map blockOf).toList ++ d.memory) alone := by
    rcases hgrow : d.growKernargBuffer allocate with _ | base
    · rw [hgrow] at hgot
      rcases hgot.items with ⟨-, hitems⟩ | ⟨-, -, l, hl, -⟩
      · rw [hitems]
        exact ⟨h.le, h.layout⟩
      · exact nomatch hl
    · rw [hgrow] at hgot
      obtain ⟨hfull, hblock⟩ := h.growKernargBuffer_eq_some hfresh hgrow
      rcases hgot.items with ⟨hi, -⟩ | ⟨-, -, l, hl, hitems⟩
      · exact absurd (hfull i hi) hgot.free
      · obtain rfl := Option.some.inj hl
        rw [hitems]
        refine ⟨?_, h.layout.grow hblock⟩
        rw [List.length_append, length_buffersOf]
        exact hsmall hfull
  have hlt := (List.getElem?_eq_some_iff.1 hgot.item).1
  rw [toInt32_of_lt (by omega)]
  exact ⟨hgot.inv, hlayout.1, h.held.got hgot, hlayout.2⟩

/-- **A buffer that is not of the pool is handed out.** -/
theorem getAlone (h : Kernarg d pooled alone)
    (hfresh : ∀ n a, allocate n = some a → Fresh d.memory (a, n))
    (hsize : ¬size ≤ KERNARG_BUFFER_SIZE)
    (hget : d.getKernargBuffer ndebug allocate size = some (ret, d')) :
    Kernarg d' pooled ((ret.1, size.toNat) :: alone) := by
  obtain ⟨a, hallocate, rfl, rfl⟩ := getKernargBuffer_of_lt hsize hget
  have hpos : 0 < size.toNat := by omega
  exact ⟨h.inv, h.le, h.held, h.layout.single (hfresh _ _ hallocate) hpos⟩

/-- **A buffer of the pool is given back.** -/
theorem release (h : Kernarg d pooled alone) (hx : x ∈ pooled)
    (hrelease : d.releaseKernargBuffer x.1 x.2 = some d') : Kernarg d' (pooled.erase x) alone := by
  obtain ⟨i, hi, -, -⟩ := h.held.mem x hx
  unfold DlaDevice.releaseKernargBuffer at hrelease
  rw [hi, if_pos ⟨by decide, Int.natCast_nonneg i⟩, Int.toNat_natCast] at hrelease
  by_cases hlt : i < d.kernargPool.flags.length
  · rw [if_pos hlt] at hrelease
    obtain rfl := Option.some.inj hrelease
    exact ⟨h.inv.release, h.le, h.held.release hx hi, h.layout⟩
  · rw [if_neg hlt] at hrelease
    exact nomatch hrelease

/-- **A buffer that is not of the pool is freed.** -/
theorem releaseAlone (h : Kernarg d pooled alone) (hx : (a, n) ∈ alone)
    (hrelease : d.releaseKernargBuffer a (-1) = some d') :
    Kernarg d' pooled (alone.erase (a, n)) := by
  unfold DlaDevice.releaseKernargBuffer at hrelease
  rw [if_neg fun hle => by omega, if_pos (h.layout.ne_zero hx)] at hrelease
  obtain rfl := Option.some.inj hrelease
  exact ⟨h.inv, h.le, h.held, h.layout.free hx⟩

/-- The device is constructed. -/
theorem init (hfresh : Fresh [] (blockOf a)) : Kernarg (DlaDevice.init a) [] [] where
  inv := CursorPool.inv_init (by rw [length_buffersOf]; decide) (by rw [length_buffersOf]; decide)
  le := by
    simp only [DlaDevice.init, CursorPool.grow, List.nil_append, length_buffersOf]
    decide
  held := CursorPool.held_init
  layout := Layout.nil.grow hfresh

end Kernarg

/-! ### Signals -/

/-- **The invariant of the context**: a signal that is not held has the value 1. -/
structure Signals (c : DlaContext) (signals : List (ℕ × ℤ)) : Prop where
  inv : c.signalPool.Inv
  le : c.signalPool.items.length ≤ 2 ^ 31
  held : c.signalPool.Held signals
  nodup : c.signalPool.items.Nodup
  ne_zero : ∀ h ∈ c.signalPool.items, h ≠ 0
  value : ∀ i h, c.signalPool.items[i]? = some h → ¬c.signalPool.InUse i → c.value h = 1

namespace Signals

variable {c c' : DlaContext} {signals : List (ℕ × ℤ)} {ndebug : Bool}
  {handles : Option (List ℕ)} {ret : ℕ × ℤ} {x : ℕ × ℤ}

/-- What `getSignal` gives, and the signals it creates. -/
theorem getSignal_eq_some (hget : c.getSignal ndebug handles = some (ret, c')) :
    ∃ a i pool, c.signalPool.get ndebug (if c.signalPool.find = none then handles else none) =
        some (a, i, pool) ∧ ret = (a, toInt32 i) ∧
      c' = ⟨pool, DlaContext.create c.value
        ((if c.signalPool.find = none then handles else none).getD [])⟩ := by
  unfold DlaContext.getSignal at hget
  obtain ⟨⟨a, i, pool⟩, hpool, hget⟩ := Option.bind_eq_some_iff.1 hget
  obtain ⟨rfl, rfl⟩ := Prod.mk.inj (Option.some.inj hget)
  exact ⟨a, i, pool, hpool, rfl, rfl⟩

theorem create_of_mem {value : ℕ → ℤ} {l : List ℕ} {h : ℕ} (hmem : h ∈ l) :
    DlaContext.create value l h = 1 := if_pos hmem

theorem create_of_not_mem {value : ℕ → ℤ} {l : List ℕ} {h : ℕ} (hmem : h ∉ l) :
    DlaContext.create value l h = value h := if_neg hmem

/-- The signals that are created are those the pool grows by. -/
theorem created_cases {a i : ℕ} {pool : CursorPool ℕ} (h : Signals c signals)
    (hgot : c.signalPool.Got (if c.signalPool.find = none then handles else none) a i pool) :
    (if c.signalPool.find = none then handles else none) = none ∧
        pool.items = c.signalPool.items ∨
      c.signalPool.Full ∧ i = c.signalPool.items.length ∧ ∃ l, handles = some l ∧
        (if c.signalPool.find = none then handles else none) = some l ∧
        pool.items = c.signalPool.items ++ l := by
  by_cases hfind : c.signalPool.find = none
  · have hfull := (CursorPool.find_eq_none_iff h.inv).1 hfind
    rw [if_pos hfind] at hgot ⊢
    rcases hgot.items with ⟨hi, -⟩ | ⟨-, hi, l, hl, hitems⟩
    · exact absurd (hfull i hi) hgot.free
    · exact .inr ⟨hfull, hi, l, hl, hl, hitems⟩
  · rw [if_neg hfind] at hgot ⊢
    rcases hgot.items with ⟨-, hitems⟩ | ⟨-, -, l, hl, -⟩
    · exact .inl ⟨rfl, hitems⟩
    · exact nomatch hl

/-- The positions remain words. -/
theorem got (h : Signals c signals)
    (hhandles : ∀ l, handles = some l → Handles c.signalPool.items l) {a i : ℕ}
    {pool : CursorPool ℕ} (hpool : c.signalPool.get ndebug
      (if c.signalPool.find = none then handles else none) = some (a, i, pool)) :
    c.signalPool.Got (if c.signalPool.find = none then handles else none) a i pool := by
  refine CursorPool.got_of_get h.inv (fun _ l hl => ?_) hpool
  have hl : handles = some l := by
    by_cases hfind : c.signalPool.find = none
    · rwa [if_pos hfind] at hl
    · rw [if_neg hfind] at hl
      exact nomatch hl
  have hlength : l.length = 512 := (hhandles l hl).1
  have hle := h.le
  omega

/-- **A signal that is handed out has the value 1.** -/
theorem value_of_get (h : Signals c signals)
    (hhandles : ∀ l, handles = some l → Handles c.signalPool.items l)
    (hget : c.getSignal ndebug handles = some (ret, c')) : c'.value ret.1 = 1 := by
  obtain ⟨a, i, pool, hpool, rfl, rfl⟩ := getSignal_eq_some hget
  have hgot := h.got hhandles hpool
  dsimp only
  rcases h.created_cases hgot with ⟨hcreated, hitems⟩ | ⟨-, hi, l, -, hcreated, hitems⟩
  · rw [hcreated]
    have hitem := hgot.item
    rw [hitems] at hitem
    exact (create_of_not_mem List.not_mem_nil).trans (h.value i a hitem hgot.free)
  · rw [hcreated]
    have hitem := hgot.item
    rw [hitems, hi, List.getElem?_append_right (Nat.le_refl _)] at hitem
    exact create_of_mem (List.mem_of_getElem? hitem)

/-- **A signal is handed out.** -/
theorem get (h : Signals c signals)
    (hhandles : ∀ l, handles = some l → Handles c.signalPool.items l)
    (hsmall : c.signalPool.Full → c.signalPool.items.length + HCC_SIGNAL_POOL_SIZE ≤ 2 ^ 31)
    (hget : c.getSignal ndebug handles = some (ret, c')) : Signals c' (ret :: signals) := by
  obtain ⟨a, i, pool, hpool, rfl, rfl⟩ := getSignal_eq_some hget
  have hgot := h.got hhandles hpool
  have hlt := (List.getElem?_eq_some_iff.1 hgot.item).1
  have hfree {j : ℕ} (huse : ¬pool.InUse j) : ¬c.signalPool.InUse j := fun h =>
    huse ((hgot.inUse j).2 (.inl h))
  rcases h.created_cases hgot with ⟨hcreated, hitems⟩ | ⟨hfull, -, l, hl, hcreated, hitems⟩
  · rw [hcreated]
    rw [toInt32_of_lt (by have := h.le; rw [← hitems] at this; omega)]
    refine ⟨hgot.inv, ?_, h.held.got hgot, ?_, ?_, fun j b hb huse => ?_⟩
    · exact hitems ▸ h.le
    · exact hitems ▸ h.nodup
    · exact hitems ▸ h.ne_zero
    · dsimp only at hb
      rw [hitems] at hb
      exact (create_of_not_mem List.not_mem_nil).trans (h.value j b hb (hfree huse))
  · obtain ⟨hlength, hnodup, hnew⟩ := hhandles l hl
    have hle : pool.items.length ≤ 2 ^ 31 := by
      rw [hitems, List.length_append, hlength]
      exact hsmall hfull
    rw [hcreated]
    rw [toInt32_of_lt (by omega)]
    refine ⟨hgot.inv, hle, h.held.got hgot, ?_, ?_, fun j b hb huse => ?_⟩
    · dsimp only
      rw [hitems]
      refine List.nodup_append.2 ⟨h.nodup, hnodup, fun b hb b' hb' heq => ?_⟩
      exact (hnew b' hb').2 (heq ▸ hb)
    · dsimp only
      rw [hitems]
      intro b hb
      exact (List.mem_append.1 hb).elim (h.ne_zero b) fun hb => (hnew b hb).1
    · dsimp only at hb
      rw [hitems] at hb
      by_cases hj : j < c.signalPool.items.length
      · rw [List.getElem?_append_left hj] at hb
        have hmem : b ∉ l := fun hbl => (hnew b hbl).2 (List.mem_of_getElem? hb)
        exact (create_of_not_mem hmem).trans (h.value j b hb (hfree huse))
      · rw [List.getElem?_append_right (Nat.not_lt.1 hj)] at hb
        exact create_of_mem (List.mem_of_getElem? hb)

/-- **A signal is given back** with the value 1. -/
theorem release (h : Signals c signals) (hx : x ∈ signals)
    (hrelease : c.releaseSignal x.1 x.2 = some c') : Signals c' (signals.erase x) := by
  obtain ⟨i, hi, hitem, -⟩ := h.held.mem x hx
  unfold DlaContext.releaseSignal at hrelease
  rw [if_pos (h.ne_zero _ (List.mem_of_getElem? hitem)), hi, Int.toNat_natCast] at hrelease
  by_cases hlt : 0 ≤ (i : ℤ) ∧ i < c.signalPool.flags.length
  · rw [if_pos hlt] at hrelease
    obtain rfl := Option.some.inj hrelease
    refine ⟨h.inv.release, h.le, h.held.release hx hi, h.nodup, h.ne_zero, fun j b hb huse => ?_⟩
    by_cases hbx : b = x.1
    · rw [hbx]
      exact Function.update_self _ _ _
    · refine (Function.update_of_ne hbx _ _).trans (h.value j b hb fun huse' => huse ?_)
      refine CursorPool.inUse_release.2 ⟨huse', ?_⟩
      rintro rfl
      exact hbx (Option.some.inj (hb.symm.trans hitem))
  · rw [if_neg hlt] at hrelease
    exact nomatch hrelease

/-- A signal that is held gets another value. -/
theorem store (h : Signals c signals) {signal : ℕ} {value : ℤ}
    (hmem : signal ∈ signals.map Prod.fst) :
    Signals { c with value := Function.update c.value signal value } signals := by
  refine ⟨h.inv, h.le, h.held, h.nodup, h.ne_zero, fun j b hb huse => ?_⟩
  have hne : b ≠ signal := by
    rintro rfl
    exact huse ((h.held.inUse_iff h.nodup hb).2 hmem)
  exact (Function.update_of_ne hne _ _).trans (h.value j b hb huse)

/-- The context is constructed. -/
theorem init {l : List ℕ} {value : ℕ → ℤ} (hhandles : Handles [] l) :
    Signals (DlaContext.init l value) [] where
  inv := CursorPool.inv_init (by rw [hhandles.1]; decide) (by rw [hhandles.1]; decide)
  le := by
    simp only [DlaContext.init, CursorPool.grow, List.nil_append, hhandles.1]
    decide
  held := CursorPool.held_init
  nodup := hhandles.2.1
  ne_zero h hmem := (hhandles.2.2 h hmem).1
  value _ _ hitem _ := create_of_mem (List.mem_of_getElem? hitem)

end Signals

/-! ### Runs -/

section Runs

variable {ndebug : Bool} {s t : State} {op : Op} {ops : List Op}

/-- The invariant of the device and of the context. -/
def Inv (s : State) : Prop := Kernarg s.device s.pooled s.alone ∧ Signals s.context s.signals

/-- **A step keeps the invariant.** -/
theorem Inv.step (h : Inv s) (hsmall : Small s op) (hstep : Step ndebug s op t) : Inv t := by
  obtain ⟨hk, hs⟩ := h
  cases op with
  | getKernargBuffer size =>
    obtain ⟨allocate, ret, d, hfresh, hget, rfl⟩ := hstep
    by_cases hsize : size ≤ KERNARG_BUFFER_SIZE
    · rw [if_pos hsize]
      exact ⟨hk.get hfresh (hsmall hsize) hsize hget, hs⟩
    · rw [if_neg hsize]
      exact ⟨hk.getAlone hfresh hsize hget, hs⟩
  | releaseKernargBuffer kernargBuffer kernargBufferIndex =>
    obtain ⟨hmem, d, hrelease, rfl⟩ := hstep
    exact ⟨hk.release hmem hrelease, hs⟩
  | releaseAlone kernargBuffer size =>
    obtain ⟨hmem, d, hrelease, rfl⟩ := hstep
    exact ⟨hk.releaseAlone hmem hrelease, hs⟩
  | getSignal =>
    obtain ⟨handles, ret, c, hhandles, hget, rfl⟩ := hstep
    exact ⟨hk, hs.get hhandles hsmall hget⟩
  | releaseSignal signal signalIndex =>
    obtain ⟨hmem, c, hrelease, rfl⟩ := hstep
    exact ⟨hk, hs.release hmem hrelease⟩
  | store signal value =>
    obtain ⟨hmem, rfl⟩ := hstep
    exact ⟨hk, hs.store hmem⟩

theorem Inv.start (h : Start s) : Inv s := by
  obtain ⟨a, l, value, hfresh, hhandles, rfl⟩ := h
  exact ⟨.init hfresh, .init hhandles⟩

/-- A release does not change the pool's buffers. -/
theorem items_of_releaseKernargBuffer {d d' : DlaDevice} {a : ℕ} {i : ℤ}
    (h : d.releaseKernargBuffer a i = some d') :
    d'.kernargPool.items = d.kernargPool.items := by
  unfold DlaDevice.releaseKernargBuffer at h
  split_ifs at h <;> obtain rfl := Option.some.inj h <;> rfl

/-- A release does not change the pool's signals. -/
theorem items_of_releaseSignal {c c' : DlaContext} {a : ℕ} {i : ℤ}
    (h : c.releaseSignal a i = some c') : c'.signalPool.items = c.signalPool.items := by
  unfold DlaContext.releaseSignal at h
  split_ifs at h <;> obtain rfl := Option.some.inj h <;> rfl

/-- **The pool of buffers grows only when all of them are in use.** -/
theorem full_of_kernarg (h : Inv s) (hstep : Step ndebug s op t)
    (hne : t.device.kernargPool.items ≠ s.device.kernargPool.items) :
    s.device.kernargPool.Full := by
  cases op with
  | getKernargBuffer size =>
    obtain ⟨allocate, ret, d, -, hget, rfl⟩ := hstep
    by_cases hsize : size ≤ KERNARG_BUFFER_SIZE
    · rw [if_pos hsize] at hne
      obtain ⟨a, i, pool, hpool, -, rfl⟩ := Kernarg.getKernargBuffer_of_le hsize hget
      exact CursorPool.full_of_items_ne h.1.inv hpool hne
    · rw [if_neg hsize] at hne
      obtain ⟨a, -, -, rfl⟩ := Kernarg.getKernargBuffer_of_lt hsize hget
      exact absurd rfl hne
  | releaseKernargBuffer kernargBuffer kernargBufferIndex =>
    obtain ⟨-, d, hrelease, rfl⟩ := hstep
    exact absurd (items_of_releaseKernargBuffer hrelease) hne
  | releaseAlone kernargBuffer size =>
    obtain ⟨-, d, hrelease, rfl⟩ := hstep
    exact absurd (items_of_releaseKernargBuffer hrelease) hne
  | getSignal =>
    obtain ⟨handles, ret, c, -, -, rfl⟩ := hstep
    exact absurd rfl hne
  | releaseSignal signal signalIndex =>
    obtain ⟨-, c, -, rfl⟩ := hstep
    exact absurd rfl hne
  | store signal value =>
    obtain ⟨-, rfl⟩ := hstep
    exact absurd rfl hne

/-- **The pool of signals grows only when all of them are in use.** -/
theorem full_of_signal (h : Inv s) (hstep : Step ndebug s op t)
    (hne : t.context.signalPool.items ≠ s.context.signalPool.items) :
    s.context.signalPool.Full := by
  cases op with
  | getKernargBuffer size =>
    obtain ⟨allocate, ret, d, -, -, rfl⟩ := hstep
    split_ifs at hne <;> exact absurd rfl hne
  | releaseKernargBuffer kernargBuffer kernargBufferIndex =>
    obtain ⟨-, d, -, rfl⟩ := hstep
    exact absurd rfl hne
  | releaseAlone kernargBuffer size =>
    obtain ⟨-, d, -, rfl⟩ := hstep
    exact absurd rfl hne
  | getSignal =>
    obtain ⟨handles, ret, c, -, hget, rfl⟩ := hstep
    obtain ⟨a, i, pool, hpool, -, rfl⟩ := Signals.getSignal_eq_some hget
    exact CursorPool.full_of_items_ne h.2.inv hpool hne
  | releaseSignal signal signalIndex =>
    obtain ⟨-, c, hrelease, rfl⟩ := hstep
    exact absurd (items_of_releaseSignal hrelease) hne
  | store signal value =>
    obtain ⟨-, rfl⟩ := hstep
    exact absurd rfl hne

/-- **What the invariant says.** -/
theorem Inv.sound (h : Inv s) : Sound ndebug s where
  buffers := h.1.pairwise
  signals := h.2.held.nodup_items h.2.nodup
  kernargCursor := h.1.inv.cursor
  signalCursor := h.2.inv.cursor
  kernargFlags _ _ hitem := h.1.held.inUse_iff h.1.layout.nodup_items hitem
  signalFlags _ _ hitem := h.2.held.inUse_iff h.2.nodup hitem
  kernargGrows _ _ := full_of_kernarg h
  signalGrows _ _ := full_of_signal h
  restored := by
    rintro t ⟨handles, ret, c, hhandles, hget, rfl⟩
    exact ⟨ret, rfl, h.2.value_of_get hhandles hget⟩

/-- **Nothing is handed out twice**, in every run in which no pool grows beyond `2 ^ 31` items: what
is handed out is disjoint, the cursors are in the pools, the flags are those of what was handed out,
a pool grows only when all of it is in use, and every signal is handed out with the value 1. -/
theorem pools_of_run (hs : Start s) (h : Run (Guarded Small (Step ndebug)) s ops t) :
    Sound ndebug t := by
  have hinv : Inv t := h.inv (I := Inv) (fun _ _ _ hinv hstep => hinv.step hstep.1 hstep.2)
    (.start hs)
  exact hinv.sound

end Runs

/-! ### A pool with a position that is no `int` -/

/-- So many buffers of the pool are handed out, in this order, and the memory is used up to here. -/
structure Filled (d : DlaDevice) (n : ℕ) : Prop where
  inv : d.kernargPool.Inv
  le : n ≤ d.kernargPool.items.length
  inUse : ∀ j, d.kernargPool.InUse j ↔ j < n
  cursor : d.kernargPool.cursor = n % d.kernargPool.items.length
  items : ∀ i a, d.kernargPool.items[i]? = some a →
    a = (KERNARG_POOL_SIZE + i) * KERNARG_BUFFER_SIZE
  memory : ∀ x ∈ d.memory,
    x.1 + x.2 ≤ (d.kernargPool.items.length + KERNARG_POOL_SIZE) * KERNARG_BUFFER_SIZE

namespace Filled

variable {d : DlaDevice} {n : ℕ}

theorem items_init (base : ℕ) : (DlaDevice.init base).kernargPool.items = buffersOf base :=
  List.nil_append _

theorem length_init (base : ℕ) :
    (DlaDevice.init base).kernargPool.items.length = KERNARG_POOL_SIZE := by
  rw [items_init, length_buffersOf]

/-- The address of a buffer of a block. -/
theorem address_of_buffersOf {base i a : ℕ} (h : (buffersOf base)[i]? = some a) :
    a = base + i * KERNARG_BUFFER_SIZE := by
  unfold buffersOf at h
  rw [List.getElem?_map] at h
  obtain ⟨j, hj, rfl⟩ := Option.map_eq_some_iff.1 h
  obtain ⟨_, rfl⟩ := List.getElem?_eq_some_iff.1 hj
  rw [List.getElem_range]

theorem init : Filled (DlaDevice.init (KERNARG_POOL_SIZE * KERNARG_BUFFER_SIZE)) 0 where
  inv := CursorPool.inv_init (by rw [length_buffersOf]; decide) (by rw [length_buffersOf]; decide)
  le := Nat.zero_le _
  inUse j := iff_of_false CursorPool.not_inUse_init (Nat.not_lt_zero j)
  cursor := (Nat.zero_mod _).symm
  items i a h := by
    rw [items_init] at h
    rw [Nat.add_mul]
    exact address_of_buffersOf h
  memory := by
    intro x hx
    obtain rfl := List.mem_singleton.1 hx
    rw [length_init]
    decide

/-- The pool has a free buffer: it is the one at the cursor. -/
theorem get_of_lt (ndebug : Bool) (h : Filled d n) (hlt : n < d.kernargPool.items.length) : ∃ a d',
    d.getKernargBuffer ndebug (fun _ => none) 0 = some ((a, toInt32 n), d') ∧
    d'.kernargPool.items[n]? = some a ∧ Filled d' (n + 1) := by
  have hcursor : d.kernargPool.cursor = n := h.cursor.trans (Nat.mod_eq_of_lt hlt)
  have hfind : d.kernargPool.find = some n := by
    have hfree : ¬d.kernargPool.InUse d.kernargPool.cursor := by
      rw [hcursor, h.inUse]
      exact Nat.lt_irrefl n
    rw [CursorPool.find_of_cursor h.inv hfree, hcursor]
  have hgrow : d.growKernargBuffer (fun _ => none) = none := by
    unfold DlaDevice.growKernargBuffer
    split_ifs <;> rfl
  have hitem : d.kernargPool.items[n]? = some (d.kernargPool.items.get ⟨n, hlt⟩) :=
    List.getElem?_eq_getElem hlt
  refine ⟨_, ⟨d.kernargPool.take n, d.memory⟩, ?_, hitem, ?_⟩
  · unfold DlaDevice.getKernargBuffer
    rw [if_pos ⟨by decide, by decide⟩, hgrow]
    dsimp only
    rw [CursorPool.get_of_find hfind, hitem]
    rfl
  · refine ⟨h.inv.take hlt, hlt, fun j => ?_, CursorPool.next_eq hlt h.inv.lt, h.items, h.memory⟩
    rw [CursorPool.inUse_take (by rw [h.inv.length]; exact hlt), h.inUse]
    omega

/-- **The pool is full**: the next buffer is the first one of a new block. -/
theorem get_of_full (ndebug : Bool) (h : Filled d n) (hfull : n = d.kernargPool.items.length)
    (hn : n < 2 ^ 32 - 2048) : ∃ allocate a d',
    (∀ m b, allocate m = some b → Fresh d.memory (b, m)) ∧
    d.getKernargBuffer ndebug allocate 0 = some ((a, toInt32 n), d') ∧
    d'.kernargPool.items[n]? = some a ∧ Filled d' (n + 1) := by
  have hall : d.kernargPool.Full := fun i hi => (h.inUse i).2 (by omega)
  have hnone := (CursorPool.find_eq_none_iff h.inv).2 hall
  obtain ⟨base, hbase⟩ :
      ∃ b, b = (d.kernargPool.items.length + KERNARG_POOL_SIZE) * KERNARG_BUFFER_SIZE := ⟨_, rfl⟩
  let allocate m := if m = KERNARG_POOL_SIZE * KERNARG_BUFFER_SIZE then some base else none
  have hgrow : d.growKernargBuffer allocate = some base := by
    unfold DlaDevice.growKernargBuffer
    rw [if_pos hnone]
    exact if_pos rfl
  have hlength : (d.kernargPool.grow (buffersOf base)).items.length =
      d.kernargPool.items.length + KERNARG_POOL_SIZE := by
    rw [← length_buffersOf base]
    exact List.length_append
  have hroom : d.kernargPool.items.length + (buffersOf base).length < 2 ^ 32 := by
    rw [length_buffersOf]
    unfold KERNARG_POOL_SIZE
    omega
  have hinv := h.inv.grow hroom
  have hitem : (d.kernargPool.grow (buffersOf base)).items[d.kernargPool.items.length]? =
      some base := by
    unfold CursorPool.grow
    rw [List.getElem?_append_right (Nat.le_refl _), Nat.sub_self]
    unfold buffersOf
    rw [List.getElem?_map, List.getElem?_range (by decide)]
    simp
  have hlt : d.kernargPool.items.length <
      (d.kernargPool.grow (buffersOf base)).items.length := by
    rw [hlength]
    exact Nat.lt_add_of_pos_right (by decide)
  refine ⟨allocate, base, ⟨(d.kernargPool.grow (buffersOf base)).take d.kernargPool.items.length,
    blockOf base :: d.memory⟩, fun m b hb => ?_, ?_, ?_, ?_⟩
  · by_cases hm : m = KERNARG_POOL_SIZE * KERNARG_BUFFER_SIZE
    · obtain rfl : base = b := Option.some.inj ((if_pos hm).symm.trans hb)
      refine ⟨?_, ?_, fun x hx => .inl (hbase ▸ h.memory x hx)⟩
      · rw [hbase]
        exact Nat.mul_pos (Nat.add_pos_right _ (by decide)) (by decide)
      · rw [hm, hbase]
        unfold KERNARG_POOL_SIZE KERNARG_BUFFER_SIZE
        omega
    · exact nomatch (if_neg hm).symm.trans hb
  · unfold DlaDevice.getKernargBuffer
    rw [if_pos ⟨by decide, by decide⟩, hgrow]
    dsimp only
    rw [Option.map_some, CursorPool.get_of_full h.inv hall fun l hl => Option.some.inj hl ▸ hroom]
    rw [Option.bind_some, hitem, hfull]
    rfl
  · rw [hfull]
    exact hitem
  · have hbound := h.memory
    refine ⟨hinv.take hlt, ?_, fun j => ?_, ?_, ?_, ?_⟩
    · rw [hfull]
      exact hlt
    · rw [CursorPool.inUse_take (by rw [hinv.length]; exact hlt), CursorPool.inUse_grow, h.inUse]
      omega
    · rw [hfull]
      exact CursorPool.next_eq hlt hinv.lt
    · intro i a hi
      dsimp only at hi
      rw [CursorPool.items_take, CursorPool.items_grow] at hi
      by_cases hold : i < d.kernargPool.items.length
      · rw [List.getElem?_append_left hold] at hi
        exact h.items i a hi
      · rw [List.getElem?_append_right (Nat.not_lt.1 hold)] at hi
        have hsum : d.kernargPool.items.length + KERNARG_POOL_SIZE +
            (i - d.kernargPool.items.length) = KERNARG_POOL_SIZE + i := by omega
        rw [address_of_buffersOf hi, hbase, ← Nat.add_mul, hsum]
    · intro x hx
      have hsum : (d.kernargPool.items.length + KERNARG_POOL_SIZE + KERNARG_POOL_SIZE) *
          KERNARG_BUFFER_SIZE = base + KERNARG_POOL_SIZE * KERNARG_BUFFER_SIZE := by
        rw [hbase, ← Nat.add_mul]
      change _ ≤ ((d.kernargPool.grow (buffersOf base)).items.length + _) * _
      rw [hlength, hsum]
      rcases List.mem_cons.1 hx with rfl | hx
      · exact Nat.le_refl _
      · exact (hbase ▸ hbound x hx).trans (Nat.le_add_right _ _)

/-- **The next buffer is handed out**, with a new block if all are in use. -/
theorem get (ndebug : Bool) (h : Filled d n) (hn : n < 2 ^ 32 - 2048) : ∃ allocate a d',
    (∀ m b, allocate m = some b → Fresh d.memory (b, m)) ∧
    d.getKernargBuffer ndebug allocate 0 = some ((a, toInt32 n), d') ∧
    d'.kernargPool.items[n]? = some a ∧ Filled d' (n + 1) := by
  by_cases hlt : n < d.kernargPool.items.length
  · obtain ⟨a, d', hget, hitem, hfilled⟩ := h.get_of_lt ndebug hlt
    exact ⟨_, a, d', fun _ _ hnone => (Option.some_ne_none _ hnone.symm).elim, hget, hitem, hfilled⟩
  · exact h.get_of_full ndebug (Nat.le_antisymm h.le (Nat.not_lt.1 hlt)) hn

end Filled

/-- A device and a context that are constructed. -/
def start : State where
  device := DlaDevice.init (KERNARG_POOL_SIZE * KERNARG_BUFFER_SIZE)
  context := DlaContext.init (List.range' 1 HCC_SIGNAL_POOL_SIZE) fun _ => 0
  pooled := []
  alone := []
  signals := []

theorem start_start : Start start := by
  refine ⟨_, _, _, ⟨by decide, by decide, nofun⟩, ⟨List.length_range', List.nodup_range', ?_⟩, rfl⟩
  intro h hmem
  have hpos := (List.mem_range'_1.1 hmem).1
  exact ⟨by omega, List.not_mem_nil⟩

/-- The signal at the cursor, if it is free. -/
theorem getSignal_of_free (ndebug : Bool) {c : DlaContext} (hinv : c.signalPool.Inv)
    (hfree : ¬c.signalPool.InUse c.signalPool.cursor) :
    ∃ ret c', c.getSignal ndebug none = some (ret, c') := by
  have hfind := CursorPool.find_of_cursor hinv hfree
  have hitem := List.getElem?_eq_getElem hinv.cursor
  unfold DlaContext.getSignal
  rw [if_neg (by rw [hfind]; exact Option.some_ne_none _)]
  dsimp only
  rw [CursorPool.get_of_find hfind, hitem]
  exact ⟨_, _, rfl⟩

/-- A buffer of the pool and a signal are handed out, and the buffer is released. -/
theorem pools_of_run_release : ∃ t, t.pooled = [] ∧ t.signals ≠ [] ∧ Sound false t := by
  have hinv := Inv.start start_start
  obtain ⟨a, d, hget, -, hnext⟩ := Filled.init.get_of_lt false
    (by rw [Filled.length_init]; decide)
  obtain ⟨ret, c, hsignal⟩ := getSignal_of_free false hinv.2.inv
    CursorPool.not_inUse_init
  have hrelease : d.releaseKernargBuffer a (toInt32 0) =
      some { d with kernargPool := d.kernargPool.release 0 } := by
    have hflags : 0 < d.kernargPool.flags.length := by
      rw [hnext.inv.length]
      exact hnext.le
    unfold DlaDevice.releaseKernargBuffer
    rw [if_pos (by decide), if_pos (by exact hflags)]
    rfl
  have hfirst : Guarded Small (Step false) start (.getKernargBuffer 0)
      { start with device := d, pooled := [(a, toInt32 0)] } := by
    refine ⟨fun _ _ => ?_, fun _ => none, _, d, fun _ _ hnone => ?_, hget, rfl⟩
    · rw [show start.device.kernargPool.items.length = _ from Filled.length_init _]
      decide
    · exact (Option.some_ne_none _ hnone.symm).elim
  have hsecond : Guarded Small (Step false) { start with device := d, pooled := [(a, toInt32 0)] }
      .getSignal { start with device := d, pooled := [(a, toInt32 0)], context := c,
                              signals := [ret] } := by
    refine ⟨fun hfull => ?_, none, ret, c, nofun, hsignal, rfl⟩
    exact absurd (hfull _ hinv.2.inv.cursor) CursorPool.not_inUse_init
  have hthird : Guarded Small (Step false)
      { start with device := d, pooled := [(a, toInt32 0)], context := c, signals := [ret] }
      (.releaseKernargBuffer a (toInt32 0))
      { start with device := { d with kernargPool := d.kernargPool.release 0 }, pooled := [],
                   context := c, signals := [ret] } :=
    ⟨trivial, List.mem_cons_self, _, hrelease, by rw [List.erase_cons_head]⟩
  exact ⟨_, rfl, List.cons_ne_nil _ _,
    pools_of_run start_start (.cons hfirst (.cons hsecond (.cons hthird (.nil _))))⟩

/-- So many gets, one after the other. -/
theorem exists_run_filled (ndebug : Bool) {n : ℕ} (hn : n ≤ 2 ^ 31) : ∃ ops t,
    Run (Step ndebug) start ops t ∧ Filled t.device n ∧
      ∀ x ∈ t.pooled, x.1 < (KERNARG_POOL_SIZE + n) * KERNARG_BUFFER_SIZE := by
  induction n with
  | zero => exact ⟨[], start, .nil start, .init, nofun⟩
  | succ n ih =>
    obtain ⟨ops, t, hrun, hfilled, hbound⟩ := ih (by omega)
    obtain ⟨allocate, a, d, hfresh, hget, hitem, hnext⟩ := hfilled.get ndebug (by omega)
    have hle : (0 : ℤ) ≤ KERNARG_BUFFER_SIZE := by decide
    have hstep : Step ndebug t (.getKernargBuffer 0) _ := ⟨allocate, _, d, hfresh, hget, rfl⟩
    rw [if_pos hle] at hstep
    refine ⟨_, _, hrun.snoc hstep, hnext,
      List.forall_mem_cons.2 ⟨?_, fun x hx => (hbound x hx).trans ?_⟩⟩
    · dsimp only
      rw [hnext.items n a hitem]
      exact Nat.mul_lt_mul_of_pos_right (by omega) (by decide)
    · exact Nat.mul_lt_mul_of_pos_right (by omega) (by decide)

/-- A negative position is none of the pool. -/
theorem releaseKernargBuffer_of_neg {d : DlaDevice} {a : ℕ} {i : ℤ} (hi : i < 0) :
    ∃ d', d.releaseKernargBuffer a i = some d' ∧ d'.kernargPool = d.kernargPool := by
  unfold DlaDevice.releaseKernargBuffer
  rw [if_neg fun hle => by omega]
  split_ifs
  · exact ⟨_, rfl, rfl⟩
  · exact ⟨_, rfl, rfl⟩

/-- `2 ^ 31 + 1` buffers are handed out and the last one is released: its flag remains set. -/
theorem large_pool_is_freed : ∃ s ops t i a, Start s ∧ Run (Step false) s ops t ∧
    t.device.kernargPool.items[i]? = some a ∧ t.device.kernargPool.InUse i ∧
    a ∉ t.pooled.map Prod.fst ∧ ¬Sound false t := by
  obtain ⟨ops, t, hrun, hfilled, hbound⟩ := exists_run_filled false (Nat.le_refl (2 ^ 31))
  obtain ⟨allocate, a, d, hfresh, hget, hitem, hnext⟩ := hfilled.get false (by decide)
  have hle : (0 : ℤ) ≤ KERNARG_BUFFER_SIZE := by decide
  have hstep : Step false t (.getKernargBuffer 0) _ := ⟨allocate, _, d, hfresh, hget, rfl⟩
  rw [if_pos hle] at hstep
  obtain ⟨d', hrelease, hpool⟩ := releaseKernargBuffer_of_neg (d := d) (a := a)
    (i := toInt32 (2 ^ 31)) (by decide)
  have hrelease : Step false { t with device := d, pooled := (a, toInt32 (2 ^ 31)) :: t.pooled }
      (.releaseKernargBuffer a (toInt32 (2 ^ 31))) _ := ⟨List.mem_cons_self, d', hrelease, rfl⟩
  have hrun := (hrun.snoc hstep).snoc hrelease
  rw [List.erase_cons_head] at hrun
  have hitem : d'.kernargPool.items[2 ^ 31]? = some a := hpool ▸ hitem
  have huse : d'.kernargPool.InUse (2 ^ 31) := by
    rw [hpool, hnext.inUse]
    decide
  have hnot : a ∉ t.pooled.map Prod.fst := by
    intro hmem
    obtain ⟨x, hx, rfl⟩ := List.mem_map.1 hmem
    have hlt := hbound x hx
    rw [hnext.items (2 ^ 31) x.1 (by rw [← hpool]; exact hitem)] at hlt
    exact Nat.lt_irrefl _ hlt
  exact ⟨_, _, _, _, a, start_start, hrun, hitem, huse, hnot,
    fun hsound => hnot ((hsound.kernargFlags _ a hitem).1 huse)⟩

end Codrive.Csq.Pools
