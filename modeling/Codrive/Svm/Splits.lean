/-
# Splitting a range, page by page

What `svm_range_split` promises is said of the pages (`SvmRange.page`): the two ranges it leaves
have the pages of the one there was, each page with the DMA addresses, the place in VRAM and the
attributes it had, and a split that fails leaves everything.  As nothing puts an array together
again when a later one has no memory, it leaves everything just if it fails before the second array
(`svmRangeSplit_right_iff`).
-/

import Codrive.Svm.SplitPages

namespace Codrive.Svm

open Codrive.Basis

/-- A range that its arrays and its buffer fit. -/
structure SvmRange.WellFormed (r : SvmRange) : Prop where
  start_le : r.start ≤ r.last
  npages_eq : r.npages = r.last - r.start + 1
  dma_addr : ∀ i l, r.dma_addr i = some l → i < MAX_GPU_INSTANCE ∧ l.length = r.npages
  svm_bo : r.ttm_res.isSome = true → r.svm_bo.isSome = true

/-- What is kept for a page. -/
structure Page extends SvmAttrs where
  /-- Its DMA address on each GPU with an array. -/
  dma_addr : ℕ → Option (Option ℕ)
  /-- The buffer, the resource and the page in it. -/
  vram : Option (Option ℕ × ℕ × ℕ)
  actual_loc : BitVec 32

/-- Page `v` of a range. -/
def SvmRange.page (r : SvmRange) (v : ℕ) : Page where
  toSvmAttrs := r.toSvmAttrs
  dma_addr i := (r.dma_addr i).map (·[v - r.start]?)
  vram := if r.actual_loc = 0 then none
    else r.ttm_res.map fun res => (r.svm_bo, res, r.offset + (v - r.start))
  actual_loc := r.actual_loc

/-- A page number is one of a range. -/
def SvmRange.Has (r : SvmRange) (v : ℕ) : Prop := r.start ≤ v ∧ v ≤ r.last

/-- What is to remain of a range is a part at its head or at its tail. -/
def SvmRange.SplitPoint (r : SvmRange) (start last : ℕ) : Prop :=
  start = r.start ∧ start ≤ last ∧ last < r.last ∨ last = r.last ∧ r.start < start ∧ start ≤ last

/-- **The two ranges have the pages of the one**, each page as it was. -/
structure Parted (r a b : SvmRange) : Prop where
  left : a.WellFormed
  right : b.WellFormed
  has : ∀ v, r.Has v ↔ a.Has v ∨ b.Has v
  disjoint : ∀ v, a.Has v → ¬b.Has v
  page_left : ∀ v, a.Has v → a.page v = r.page v
  page_right : ∀ v, b.Has v → b.page v = r.page v

/-- **Everything is as it was**, and what was made is freed. -/
structure Untouched (m m' : Mem) : Prop where
  ranges : ∀ k < m.next, m'.ranges k = m.ranges k
  bos : m'.bos = m.bos
  freed : ∀ k, m.next ≤ k → k < m'.next → k ∈ m'.freed

/-- What a split promises. -/
def SplitRight (m : Mem) (prange start last : ℕ) : Except Errno ℕ × Mem → Prop
  | (.ok new, m') => Made m m' new [prange] ∧
      (m'.ranges prange).start = start ∧ (m'.ranges prange).last = last ∧
      Parted (m.ranges prange) (m'.ranges prange) (m'.ranges new)
  | (.error _, m') => Untouched m m'

section

variable {m m' : Mem} {new old npages : ℕ}

/-! ### The two ranges -/

/-- The pages are in VRAM. -/
def SvmRange.InVram (r : SvmRange) : Prop := r.actual_loc ≠ 0 ∧ r.ttm_res.isSome = true

instance (r : SvmRange) : Decidable r.InVram := inferInstanceAs (Decidable (_ ∧ _))

/-- What `old` is after the split. -/
def keptRange (r n : SvmRange) (start last : ℕ) : SvmRange :=
  { r with
    start, last, npages := last - start + 1
    dma_addr := fun i => (r.dma_addr i).map (keptPart r n (last - start + 1))
    offset := if r.InVram ∧ n.start = r.start then r.offset + n.npages else r.offset }

/-- What `new` is after the split. -/
def movedRange (r n : SvmRange) (start last : ℕ) : SvmRange :=
  { n with
    toSvmAttrs := r.toSvmAttrs, actual_loc := r.actual_loc
    dma_addr := fun i => (r.dma_addr i).map (movedPart r n)
    svm_bo := if r.InVram then r.svm_bo else n.svm_bo
    ttm_res := if r.InVram then r.ttm_res else n.ttm_res
    offset := if r.InVram then
        if n.start = r.start then r.offset else r.offset + (last - start + 1)
      else n.offset }

theorem ranges_svmRangeSplitNodes {start last : ℕ} (hne : new ≠ old) :
    (svmRangeSplitNodes new old start last m).ranges old = { m.ranges old with
      offset := if (m.ranges new).start = (m.ranges old).start
        then (m.ranges old).offset + (m.ranges new).npages else (m.ranges old).offset } ∧
    (svmRangeSplitNodes new old start last m).ranges new = { m.ranges new with
      offset := if (m.ranges new).start = (m.ranges old).start then (m.ranges old).offset
        else (m.ranges old).offset + (last - start + 1)
      svm_bo := (m.ranges old).svm_bo, ttm_res := (m.ranges old).ttm_res } := by
  unfold svmRangeSplitNodes
  rw [svmRangeBoRef_ranges]
  dsimp only
  split_ifs with hs
  · rw [Mem.setRange_of_ne _ _ hne.symm, Mem.setRange_self, Mem.setRange_of_ne _ _ hne.symm,
      Mem.setRange_self, Mem.setRange_of_ne _ _ hne, Mem.setRange_self]
    exact ⟨rfl, rfl⟩
  · rw [Mem.setRange_of_ne _ _ hne.symm, Mem.setRange_of_ne _ _ hne.symm, Mem.setRange_self,
      Mem.setRange_self]
    exact ⟨rfl, rfl⟩

theorem ranges_splitFields {start last : ℕ} (hne : new ≠ old) :
    (splitFields new old start last m).ranges old = { m.ranges old with
      start, last, npages := last - start + 1 } ∧
    (splitFields new old start last m).ranges new = { m.ranges new with
      toSvmAttrs := (m.ranges old).toSvmAttrs, actual_loc := (m.ranges old).actual_loc } := by
  unfold splitFields
  dsimp only
  rw [Mem.setRange_of_ne _ _ hne.symm, Mem.setRange_self, Mem.setRange_self,
    Mem.setRange_of_ne _ _ hne]
  exact ⟨rfl, rfl⟩

/-- `svm_range_split_nodes` and what follows it. -/
theorem ranges_splitRest {start last : ℕ} {d d' : ℕ → Option (List ℕ)} {r n : SvmRange}
    (hne : new ≠ old) (hold : m.ranges old = { r with dma_addr := d })
    (hnew : m.ranges new = { n with dma_addr := d' }) :
    ((splitFields new old start last (if (m.ranges old).actual_loc ≠ 0 ∧
        (m.ranges old).ttm_res.isSome then svmRangeSplitNodes new old start last m else m)).ranges
          old = { keptRange r n start last with dma_addr := d }) ∧
    ((splitFields new old start last (if (m.ranges old).actual_loc ≠ 0 ∧
        (m.ranges old).ttm_res.isSome then svmRangeSplitNodes new old start last m else m)).ranges
          new = { movedRange r n start last with dma_addr := d' }) := by
  rw [(ranges_splitFields hne).1, (ranges_splitFields hne).2]
  by_cases hv : r.InVram
  · rw [if_pos (by rw [hold]; exact hv), (ranges_svmRangeSplitNodes hne).1,
      (ranges_svmRangeSplitNodes hne).2, hold, hnew]
    simp [keptRange, movedRange, hv]
  · rw [if_neg (by rw [hold]; exact hv), hold, hnew]
    simp [keptRange, movedRange, hv]

/-- The pages that a range loses. -/
def SvmRange.lost (r : SvmRange) (start last : ℕ) : ℕ × ℕ :=
  if r.start = start then (last + 1, r.last) else (r.start, start - 1)

/-- The new range, when the arrays are still to be split. -/
structure NewFor (r : SvmRange) (start last : ℕ) (n : SvmRange) : Prop where
  interval : (n.start, n.last) = r.lost start last
  npages : n.npages = n.last - n.start + 1
  dma_addr : n.dma_addr = fun _ => none
  ttm_res : n.ttm_res = none
  svm_bo : n.svm_bo = none

variable {r n : SvmRange} {start last v : ℕ}

/-- The arithmetic of a split: where the arrays are cut, whichever end is lost. -/
theorem NewFor.cut (hn : NewFor r start last n) (hw : r.WellFormed) (hs : r.SplitPoint start last) :
    start ≤ last ∧ n.start ≤ n.last ∧ r.start ≤ n.start ∧ n.last ≤ r.last ∧
      (if n.start = r.start then n.npages else 0) = start - r.start ∧ r.start ≤ start ∧
      last ≤ r.last ∧
      (n.start = r.start ∧ start = n.last + 1 ∧ last = r.last ∨
        start = r.start ∧ n.start = last + 1 ∧ n.last = r.last ∧ n.start ≠ r.start) := by
  have hi := hn.interval
  have hnp := hn.npages
  have hle := hw.start_le
  unfold SvmRange.lost at hi
  unfold SvmRange.SplitPoint at hs
  split_ifs at hi with hrs
  · obtain ⟨h₁, h₂⟩ := Prod.mk.inj hi
    have hne : n.start ≠ r.start := by omega
    rw [if_neg hne]
    omega
  · obtain ⟨h₁, h₂⟩ := Prod.mk.inj hi
    rw [if_pos h₁]
    omega

theorem keptPart_getElem? (hn : NewFor r start last n) (hw : r.WellFormed)
    (hs : r.SplitPoint start last) (l : List ℕ) (h₁ : start ≤ v) (h₂ : v ≤ last) :
    (keptPart r n (last - start + 1) l)[v - start]? = l[v - r.start]? := by
  obtain ⟨-, -, -, -, hd, hle, -, -⟩ := hn.cut hw hs
  unfold keptPart
  rw [hd, List.getElem?_take_of_lt (by omega), List.getElem?_drop]
  congr 1
  omega

theorem movedPart_getElem? (hn : NewFor r start last n) (hw : r.WellFormed)
    (hs : r.SplitPoint start last) (l : List ℕ) (h₁ : n.start ≤ v) (h₂ : v ≤ n.last) :
    (movedPart r n l)[v - n.start]? = l[v - r.start]? := by
  obtain ⟨-, -, hle, -⟩ := hn.cut hw hs
  have hnp := hn.npages
  unfold movedPart
  rw [List.getElem?_take_of_lt (by omega), List.getElem?_drop]
  congr 1
  omega

theorem length_keptPart (hn : NewFor r start last n) (hw : r.WellFormed)
    (hs : r.SplitPoint start last) {i : ℕ} {l : List ℕ} (h : r.dma_addr i = some l) :
    (keptPart r n (last - start + 1) l).length = last - start + 1 := by
  obtain ⟨-, -, -, -, hd, -, hlast, -⟩ := hn.cut hw hs
  have hl := (hw.dma_addr i l h).2
  have hnp := hw.npages_eq
  unfold SvmRange.SplitPoint at hs
  unfold keptPart
  rw [hd, List.length_take, List.length_drop]
  omega

theorem length_movedPart (hn : NewFor r start last n) (hw : r.WellFormed)
    (hs : r.SplitPoint start last) {i : ℕ} {l : List ℕ} (h : r.dma_addr i = some l) :
    (movedPart r n l).length = n.npages := by
  obtain ⟨-, hn₁, hn₂, hn₃, -⟩ := hn.cut hw hs
  have hl := (hw.dma_addr i l h).2
  have hnp := hw.npages_eq
  have hnp' := hn.npages
  unfold movedPart
  rw [List.length_take, List.length_drop]
  omega

/-- **The parts of a range have its pages.** -/
theorem parted_of_newFor (hn : NewFor r start last n) (hw : r.WellFormed)
    (hs : r.SplitPoint start last) :
    Parted r (keptRange r n start last) (movedRange r n start last) := by
  obtain ⟨hle, hnle, hn₁, hn₂, hcut, hst, hla, hends⟩ := hn.cut hw hs
  have hrle := hw.start_le
  refine ⟨⟨hle, rfl, fun i l hl => ?_, hw.svm_bo⟩, ⟨hnle, hn.npages, fun i l hl => ?_, fun h => ?_⟩,
    fun v => ?_, fun v => ?_, fun v hv => ?_, fun v hv => ?_⟩
  · obtain ⟨l', hl', rfl⟩ := Option.map_eq_some_iff.1 hl
    exact ⟨(hw.dma_addr i l' hl').1, length_keptPart hn hw hs hl'⟩
  · obtain ⟨l', hl', rfl⟩ := Option.map_eq_some_iff.1 hl
    exact ⟨(hw.dma_addr i l' hl').1, length_movedPart hn hw hs hl'⟩
  · unfold movedRange at h ⊢
    dsimp only at h ⊢
    split_ifs at h ⊢ with hv
    · exact hw.svm_bo h
    · rw [hn.ttm_res] at h
      cases h
  · unfold SvmRange.Has keptRange movedRange
    dsimp only
    omega
  · unfold SvmRange.Has keptRange movedRange
    dsimp only
    omega
  · have h₁ : start ≤ v := hv.1
    have h₂ : v ≤ last := hv.2
    have hdma : (fun i => ((r.dma_addr i).map (keptPart r n (last - start + 1))).map
        (·[v - start]?)) = fun i => (r.dma_addr i).map (·[v - r.start]?) := by
      funext i
      rw [Option.map_map]
      exact congrArg (Option.map · _) (funext fun l => keptPart_getElem? hn hw hs l h₁ h₂)
    unfold SvmRange.page keptRange
    dsimp only
    rw [hdma]
    by_cases hv : r.InVram
    · have hoffset : (if r.InVram ∧ n.start = r.start then r.offset + n.npages else r.offset) +
          (v - start) = r.offset + (v - r.start) := by
        simp only [hv, true_and]
        split_ifs at hcut ⊢ <;> omega
      rw [hoffset]
    · unfold SvmRange.InVram at hv
      by_cases hloc : r.actual_loc = 0
      · simp [hloc]
      · have hres : r.ttm_res = none := Option.not_isSome_iff_eq_none.1 fun h => hv ⟨hloc, h⟩
        simp [hres]
  · have h₁ : n.start ≤ v := hv.1
    have h₂ : v ≤ n.last := hv.2
    have hdma : (fun i => ((r.dma_addr i).map (movedPart r n)).map (·[v - n.start]?)) =
        fun i => (r.dma_addr i).map (·[v - r.start]?) := by
      funext i
      rw [Option.map_map]
      exact congrArg (Option.map · _) (funext fun l => movedPart_getElem? hn hw hs l h₁ h₂)
    unfold SvmRange.page movedRange
    dsimp only
    rw [hdma]
    by_cases hv : r.InVram
    · have hoffset : (if n.start = r.start then r.offset else r.offset + (last - start + 1)) +
          (v - n.start) = r.offset + (v - r.start) := by
        split_ifs <;> omega
      simp only [if_pos hv, hoffset]
    · simp only [if_neg hv, hn.ttm_res]
      unfold SvmRange.InVram at hv
      by_cases hloc : r.actual_loc = 0
      · simp [hloc]
      · have hres : r.ttm_res = none := Option.not_isSome_iff_eq_none.1 fun h => hv ⟨hloc, h⟩
        simp [hres]

/-! ### The split -/

variable {p : OpuProcess} {i : ℕ}

theorem svmRangeNew_eq (a b : ℕ) :
    svmRangeNew p a b m = if m.answer 0 = false then (none, m.kalloc.2) else
      (some m.next, { m.kalloc.2.setRange m.next fun _ =>
          { defaultAttrs p with start := a, last := b, npages := b - a + 1 } with
        next := m.next + 1 }) := by
  unfold svmRangeNew
  have h := m.kalloc_fst
  rcases hk : m.kalloc with ⟨b, m₁⟩
  rw [hk] at h
  dsimp only at h
  subst h
  have hm₁ : m₁ = m.kalloc.2 := by rw [hk]
  subst hm₁
  cases m.answer 0 <;> rfl

/-- Freeing a range that has no buffer. -/
theorem svmRangeFree_of_none {k : ℕ} (h : (m.ranges k).svm_bo = none) :
    (svmRangeFree p m k).bos = m.bos ∧ (svmRangeFree p m k).next = m.next ∧
      (svmRangeFree p m k).freed = k :: m.freed ∧
      ∀ j, j ≠ k → (svmRangeFree p m k).ranges j = m.ranges j := by
  unfold svmRangeFree svmRangeFreeDmaMappings svmRangeVramNodeFree
  rw [h]
  refine ⟨rfl, rfl, rfl, fun j hj => ?_⟩
  dsimp only [svmRangeBoUnref]
  rw [Mem.setRange_of_ne _ _ hj, Mem.setRange_of_ne _ _ hj]

/-- The memory in which the arrays are split. -/
structure Prepared (m m₁ : Mem) (i start last : ℕ) : Prop where
  made : Made m m₁ m.next []
  bos : m₁.bos = m.bos
  answer : ∀ j, m₁.answer j = m.answer (j + 1)
  newFor : NewFor (m.ranges i) start last (m₁.ranges m.next)

theorem svmRangeSplit_eq (hs : (m.ranges i).SplitPoint start last) :
    svmRangeSplit p i start last m =
      match svmRangeNew p ((m.ranges i).lost start last).1 ((m.ranges i).lost start last).2 m with
      | (none, m) => (.error .enomem, m)
      | (some new, m) =>
        match svmRangeSplitAdjust new i start last m with
        | (some e, m) => (.error e, svmRangeFree p m new)
        | (none, m) => (.ok new, m) := by
  unfold SvmRange.SplitPoint at hs
  unfold svmRangeSplit SvmRange.lost
  dsimp only
  rw [if_neg (by omega), if_neg (by omega)]
  by_cases hrs : (m.ranges i).start = start
  · rewrite [if_pos hrs, if_pos hrs]
    rfl
  · rewrite [if_neg hrs, if_neg hrs]
    rfl

/-- **`svm_range_split` to where it splits the arrays.** -/
theorem svmRangeSplit_prepared (hs : (m.ranges i).SplitPoint start last)
    (h₀ : ¬m.answer 0 = false) : ∃ m₁, Prepared m m₁ i start last ∧
      svmRangeSplit p i start last m =
        match svmRangeSplitAdjust m.next i start last m₁ with
        | (some e, m') => (.error e, svmRangeFree p m' m.next)
        | (none, m') => (.ok m.next, m') := by
  rw [svmRangeSplit_eq hs, svmRangeNew_eq, if_neg h₀]
  dsimp only
  refine ⟨_, ?_, rfl⟩
  refine ⟨⟨rfl, rfl, fun k hk _ => Function.update_of_ne hk ..⟩, rfl, fun j => ?_, ?_⟩
  · exact m.answer_kalloc j
  · have hnew : ∀ f : SvmRange → SvmRange, (m.kalloc.2.setRange m.next f).ranges m.next =
        f (m.ranges m.next) := fun f => Mem.setRange_self ..
    dsimp only
    rw [hnew]
    exact ⟨rfl, rfl, rfl, rfl, rfl⟩

/-- **`svm_range_split_adjust`** for the new range. -/
theorem Prepared.adjust {m₁ : Mem} (h : Prepared m m₁ i start last) (hi : i < m.next)
    (hw : (m.ranges i).WellFormed) (hs : (m.ranges i).SplitPoint start last) :
    svmRangeSplitAdjust m.next i start last m₁ =
      match splitPagesLoop m.next i (last - start + 1) (List.range MAX_GPU_INSTANCE) m₁ with
      | (some e, m) => (some e, m)
      | (none, m') => (none, splitFields m.next i start last
          (if (m'.ranges i).actual_loc ≠ 0 ∧ (m'.ranges i).ttm_res.isSome
            then svmRangeSplitNodes m.next i start last m' else m')) := by
  obtain ⟨-, -, h₁, h₂, -⟩ := h.newFor.cut hw hs
  unfold svmRangeSplitAdjust svmRangeSplitPages
  rewrite [h.made.of_lt hi, if_neg (by omega)]
  rcases splitPagesLoop m.next i (last - start + 1) (List.range MAX_GPU_INSTANCE) m₁ with
    ⟨_ | e, m'⟩
  · rfl
  · rfl

/-- **A split that goes through.** -/
theorem Prepared.done {m₁ m' : Mem} (h : Prepared m m₁ i start last) (hi : i < m.next)
    (hw : (m.ranges i).WellFormed) (hs : (m.ranges i).SplitPoint start last)
    (hloop : splitPagesLoop m.next i (last - start + 1) (List.range MAX_GPU_INSTANCE) m₁ =
      (none, m')) :
    SplitRight m i start last (.ok m.next, splitFields m.next i start last
      (if (m'.ranges i).actual_loc ≠ 0 ∧ (m'.ranges i).ttm_res.isSome
        then svmRangeSplitNodes m.next i start last m' else m')) := by
  have hne : m.next ≠ i := by omega
  have hnodup : (List.range MAX_GPU_INSTANCE).Nodup := List.nodup_range
  have hold₁ : m₁.ranges i = m.ranges i := h.made.of_lt hi
  have honly := @splitPagesLoop_only m₁ m.next i (last - start + 1)
      (List.range MAX_GPU_INSTANCE) hne
  have hok := @splitPagesLoop_ok m₁ m.next i (last - start + 1) (List.range MAX_GPU_INSTANCE) hne
    hnodup (by rw [hloop])
  rw [hloop, hold₁] at hok
  rw [hloop] at honly
  obtain ⟨-, ⟨d, hold, -⟩, ⟨d', hnew, -⟩, -⟩ := honly
  rw [hold₁] at hold
  dsimp only at hold hnew hok
  rw [hold, hnew] at hok
  have hdma (j : ℕ) (l : List ℕ) (hj : (m.ranges i).dma_addr j = some l) :
      j ∈ List.range MAX_GPU_INSTANCE := List.mem_range.2 (hw.dma_addr j l hj).1
  have hd : d = fun j => ((m.ranges i).dma_addr j).map
      (keptPart (m.ranges i) (m₁.ranges m.next) (last - start + 1)) := by
    funext j
    refine (hok j).1.trans ?_
    cases hj : (m.ranges i).dma_addr j with
    | none => simp
    | some l => rw [if_pos (hdma j l hj)]
  have hd' : d' = fun j => ((m.ranges i).dma_addr j).map
      (movedPart (m.ranges i) (m₁.ranges m.next)) := by
    funext j
    refine (hok j).2.trans ?_
    cases hj : (m.ranges i).dma_addr j with
    | none => simp [h.newFor.dma_addr]
    | some l =>
      rw [if_pos]
      exact List.mem_filter.2 ⟨hdma j l hj, by rw [hj]; rfl⟩
  obtain ⟨hkept, hmoved⟩ := @ranges_splitRest m' m.next i start last d d' _ _ hne hold hnew
  have hadjust := h.adjust hi hw hs
  rw [hloop] at hadjust
  obtain ⟨hnext, hother, -⟩ := svmRangeSplitAdjust_ok hne hadjust
  refine ⟨⟨rfl, hnext.trans h.made.next, fun k hk hk' => ?_⟩, ?_, ?_, ?_⟩
  · exact (hother k hk (by simpa using hk')).trans (h.made.other k hk (by simp))
  · rw [hkept]
    rfl
  · rw [hkept]
    rfl
  · rw [hkept, hmoved, hd, hd']
    exact parted_of_newFor h.newFor hw hs

/-- **A split whose arrays are not all split** frees the new range.  It has changed nothing just if
it has not split an array. -/
theorem Prepared.failed {m₁ m' : Mem} {e : Errno} (h : Prepared m m₁ i start last)
    (hi : i < m.next) (hw : (m.ranges i).WellFormed) (hs : (m.ranges i).SplitPoint start last)
    (hloop : splitPagesLoop m.next i (last - start + 1) (List.range MAX_GPU_INSTANCE) m₁ =
      (some e, m')) :
    SplitRight m i start last (.error e, svmRangeFree p m' m.next) ↔
      m.answer 1 = false ∨ m.answer 2 = false := by
  have hne : m.next ≠ i := by omega
  have hnodup : (List.range MAX_GPU_INSTANCE).Nodup := List.nodup_range
  have hold₁ : m₁.ranges i = m.ranges i := h.made.of_lt hi
  have honly := @splitPagesLoop_only m₁ m.next i (last - start + 1)
      (List.range MAX_GPU_INSTANCE) hne
  have herror := @splitPagesLoop_error m₁ m.next i (last - start + 1) (List.range MAX_GPU_INSTANCE)
    hne hnodup (by rw [hloop]; exact nofun)
  rw [hloop] at honly herror
  rw [hold₁, h.answer, h.answer] at herror
  obtain ⟨-, -, ⟨d, hnew, -⟩, hbos, hnext, -⟩ := honly
  dsimp only at hnew hbos hnext herror
  have hbo : (m'.ranges m.next).svm_bo = none := by
    rw [hnew]
    exact h.newFor.svm_bo
  obtain ⟨hbos', hnext', hfreed, hother⟩ := @svmRangeFree_of_none m' p m.next hbo
  constructor
  · rintro ⟨hranges, -, -⟩
    rcases herror with ⟨hanswer, -⟩ | ⟨-, -, j, l, hj, hkept⟩
    · exact hanswer
    · -- the first array has been cut, and nothing puts it together again
      have hsame := hranges i hi
      rw [hother i hne.symm] at hsame
      rw [hsame, hj, Option.some.injEq] at hkept
      have hlength := congrArg List.length hkept
      rw [length_keptPart h.newFor hw hs hj, (hw.dma_addr j l hj).2, hw.npages_eq] at hlength
      have hle := hw.start_le
      unfold SvmRange.SplitPoint at hs
      omega
  · intro hanswer
    rcases herror with ⟨-, hsame⟩ | ⟨h₁, h₂, -⟩
    · refine ⟨fun k hk => ?_, hbos'.trans (hbos.trans h.bos), fun k hk hk' => ?_⟩
      · rw [hother k (by omega), hsame.ranges]
        exact h.made.of_lt hk
      · rw [hnext', hnext, h.made.next] at hk'
        rw [hfreed, show k = m.next by omega]
        exact List.mem_cons_self
    · rw [h₁, h₂] at hanswer
      simp at hanswer

/-- **A split does what it promises just if it does not fail after its first array**: all
allocations behind the third succeed, of which there are two for each array, or one of the first
three fails. -/
theorem svmRangeSplit_right_iff (hi : i < m.next) (hw : (m.ranges i).WellFormed)
    (hs : (m.ranges i).SplitPoint start last) :
    SplitRight m i start last (svmRangeSplit p i start last m) ↔
      (∀ j, 3 ≤ j → j < 1 + 2 * ((m.ranges i).arrays (List.range MAX_GPU_INSTANCE)).length →
        m.answer j = true) ∨ ∃ j < 3, m.answer j = false := by
  by_cases h₀ : m.answer 0 = false
  · refine ⟨fun _ => .inr ⟨0, by omega, h₀⟩, fun _ => ?_⟩
    rw [svmRangeSplit_eq hs, svmRangeNew_eq, if_pos h₀]
    exact ⟨fun _ _ => rfl, rfl, fun k hk hk' => absurd hk' (Nat.not_lt.2 hk)⟩
  obtain ⟨m₁, h, heq⟩ := @svmRangeSplit_prepared m start last p i hs h₀
  rw [heq, h.adjust hi hw hs]
  have hne : m.next ≠ i := by omega
  have hiff := @splitPagesLoop_none_iff m₁ m.next i (last - start + 1) (List.range MAX_GPU_INSTANCE)
    hne List.nodup_range
  rw [h.made.of_lt hi] at hiff
  rcases hloop : splitPagesLoop m.next i (last - start + 1) (List.range MAX_GPU_INSTANCE) m₁ with
    ⟨_ | e, m'⟩
  · rw [hloop] at hiff
    refine ⟨fun _ => .inl fun j hj hj' => ?_, fun _ => h.done hi hw hs hloop⟩
    have hanswer := hiff.1 rfl (j - 1) (by omega)
    rwa [h.answer, show j - 1 + 1 = j by omega] at hanswer
  · rw [hloop] at hiff
    refine (h.failed hi hw hs hloop).trans ⟨fun hanswer => ?_, fun hcond => ?_⟩
    · rcases hanswer with h₁ | h₂
      · exact .inr ⟨1, by omega, h₁⟩
      · exact .inr ⟨2, by omega, h₂⟩
    · by_contra hall
      obtain ⟨h₁, h₂⟩ := not_or.1 hall
      rw [Bool.not_eq_false] at h₁ h₂
      rw [Bool.not_eq_false] at h₀
      rcases hcond with hcond | ⟨j, hj, hanswer⟩
      · refine absurd (hiff.2 fun j hj => ?_) nofun
        rw [h.answer]
        match j with
        | 0 => exact h₁
        | 1 => exact h₂
        | j + 2 => exact hcond _ (by omega) (by omega)
      · match j with
        | 0 => simp [h₀] at hanswer
        | 1 => simp [h₁] at hanswer
        | 2 => simp [h₂] at hanswer

end

/-- A process with two GPUs. -/
def twoGpus : OpuProcess where
  uapi := ⟨0, 0xFFFFFFFF, 1, 2⟩
  pdds := [some 1, some 2]
  xnack_enabled := false
  bitmap_supported := {0, 1}

/-- A range of four pages that is mapped on both. -/
def mappedTwice (allocs : List Bool) : Mem where
  ranges _ :=
    { start := 1, last := 4, npages := 4
      dma_addr := fun i =>
        if i = 0 then some [10, 11, 12, 13] else if i = 1 then some [20, 21, 22, 23] else none }
  bos _ := {}
  next := 1
  allocs := allocs

theorem wellFormed_mappedTwice (allocs : List Bool) :
    ((mappedTwice allocs).ranges 0).WellFormed := by
  refine ⟨by show 1 ≤ 4; omega, rfl, fun i l h => ?_, nofun⟩
  unfold mappedTwice at h
  dsimp only at h
  split_ifs at h with h₀ h₁
  · cases h
    exact ⟨by rw [h₀]; decide, rfl⟩
  · cases h
    exact ⟨by rw [h₁]; decide, rfl⟩

theorem svmRangeSplit_right_iff_tail :
    SplitRight (mappedTwice []) 0 1 2 (svmRangeSplit twoGpus 0 1 2 (mappedTwice [])) :=
  (svmRangeSplit_right_iff (by decide) (wellFormed_mappedTwice [])
    (.inl ⟨rfl, by decide, by decide⟩)).2 (.inl fun _ _ _ => rfl)

/-- **Without memory for the second array, the first one stays cut.** -/
theorem first_array_stays_cut : ¬SplitRight (mappedTwice [true, true, true, false]) 0 1 2
    (svmRangeSplit twoGpus 0 1 2 (mappedTwice [true, true, true, false])) := by
  have herror : (svmRangeSplit twoGpus 0 1 2
      (mappedTwice [true, true, true, false])).1.toOption = none := by decide +kernel
  have hcut : ((svmRangeSplit twoGpus 0 1 2
      (mappedTwice [true, true, true, false])).2.ranges 0).dma_addr 0 = some [10, 11] := by
    decide +kernel
  intro h
  rcases hsplit : svmRangeSplit twoGpus 0 1 2 (mappedTwice [true, true, true, false]) with
    ⟨e | n, m'⟩
  · rw [hsplit] at h hcut
    rw [h.ranges 0 (by decide)] at hcut
    cases hcut
  · rw [hsplit] at herror
    cases herror

end Codrive.Svm
