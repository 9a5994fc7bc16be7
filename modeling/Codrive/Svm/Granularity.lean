/-
# Splitting a range by its granularity

`svm_range_split_by_granularity` and `svm_range_add_child` of `src/src/cmdio/linux/opu_svm.c`:
around the page of a fault, a range is trimmed to an aligned block of `2^granularity` pages, and
what was in front of the block and behind it become children.

Each of the two steps parts the range that is left (`Progress.splitChild`), so when the second one
fails, the parts made so far still are the whole range (`Progress.splitChild_error`).  The block is
what it should be for every granularity below 64; the shift of the block size by 64 bits or more has
no result in C (`splitByGranularity_right_iff`).
-/

import Codrive.Basis.Partition
import Codrive.Svm.FaultRange
import Codrive.Svm.Splits

namespace Codrive.Svm

open Codrive.Basis

/-! ### The function -/

/-- `svm_range_add_child`. -/
def svmRangeAddChild (prange pchild : ℕ) (op : WorkOp) (m : Mem) : Mem :=
  (m.setRange pchild fun r => { r with op := op }).setRange prange fun r =>
    { r with child_list := r.child_list ++ [pchild] }

/-- What `prange` loses becomes a child of `parent`. -/
def splitChild (p : OpuProcess) (parent prange start last : ℕ) (m : Mem) : Option Errno × Mem :=
  match svmRangeSplit p prange start last m with
  | (.error e, m) => (some e, m)
  | (.ok new, m) => (none, svmRangeAddChild parent new .addRange m)

/-- The part in front of the block. -/
def splitHead (p : OpuProcess) (parent prange start : ℕ) (m : Mem) : Option Errno × Mem :=
  if start > (m.ranges prange).start then
    splitChild p parent prange start (m.ranges prange).last m
  else (none, m)

/-- The part behind the block. -/
def splitTail (p : OpuProcess) (parent prange last : ℕ) (m : Mem) : Option Errno × Mem :=
  if last < (m.ranges prange).last then
    splitChild p parent prange (m.ranges prange).start last m
  else (none, m)

/-- With xnack on, a new range is mapped too. -/
def opAndMap (p : OpuProcess) (prange : ℕ) (m : Mem) : Mem :=
  if p.xnack_enabled ∧ (m.ranges prange).op = .addRange then
    m.setRange prange fun r => { r with op := .addRangeAndMap }
  else m

/-- `svm_range_split_by_granularity`. -/
def svmRangeSplitByGranularity (p : OpuProcess) (addr parent prange : ℕ) (m : Mem) :
    Option (Option Errno × Mem) :=
  let granularity := (m.ranges prange).granularity.toNat
  if 64 ≤ granularity then none
  else
    let size := 1 <<< granularity
    let start := alignDown addr size
    let last := sub64 (alignPages (u64 (addr + 1)) size) 1
    match splitHead p parent prange start m with
    | (some e, m) => some (some e, m)
    | (none, m) =>
      match splitTail p parent prange last m with
      | (some e, m) => some (some e, m)
      | (none, m) => some (none, opAndMap p prange m)

/-! ### What it is for -/

/-- The parts of a range: each has its pages as they were. -/
structure PartedInto (r : SvmRange) (parts : List SvmRange) : Prop where
  tiles : Partition r.Has (parts.map SvmRange.Has)
  wellFormed : ∀ a ∈ parts, a.WellFormed
  page : ∀ a ∈ parts, ∀ v, a.Has v → a.page v = r.page v

/-- New ranges have become children of `parent`; no other range than `parent` and `i` is changed. -/
structure Added (m m' : Mem) (parent i : ℕ) (children : List ℕ) : Prop where
  next : m.next ≤ m'.next
  new : ∀ c ∈ children, m.next ≤ c ∧ c < m'.next
  op : ∀ c ∈ children, (m'.ranges c).op = .addRange
  child_list : (m'.ranges parent).child_list = (m.ranges parent).child_list ++ children
  parent_eq : parent ≠ i → m'.ranges parent = { m.ranges parent with
    child_list := (m.ranges parent).child_list ++ children }
  other : ∀ k < m.next, k ≠ i → k ≠ parent → m'.ranges k = m.ranges k

/-- The interval of a range. -/
def SvmRange.interval (r : SvmRange) : ℕ × ℕ := (r.start, r.last)

/-- The parts of a range in front of a block and behind it, where there are any. -/
def SvmRange.outside (r : SvmRange) (lo hi : ℕ) : List (ℕ × ℕ) :=
  (if r.start < lo then [(r.start, lo - 1)] else []) ++
    (if hi < r.last then [(hi + 1, r.last)] else [])

/-- **What a split by granularity promises**, for the block from `lo` to `hi`.  When it succeeds the
range is what it has in the block, its children are the rest, and its pages are as they were.  When
it fails the range and the children made so far are the whole of it. -/
def GranularityRight (m : Mem) (parent i lo hi : ℕ) : Option Errno × Mem → Prop
  | (none, m') => ∃ children, Added m m' parent i children ∧
      PartedInto (m.ranges i) ((i :: children).map m'.ranges) ∧
      (m'.ranges i).interval = (max (m.ranges i).start lo, min (m.ranges i).last hi) ∧
      children.map (fun c => (m'.ranges c).interval) = (m.ranges i).outside lo hi
  | (some _, m') => ∃ children, Added m m' parent i children ∧
      Partition (m.ranges i).Has ((i :: children).map fun c => (m'.ranges c).Has)

/-! ### The block -/

section

variable {g addr : ℕ}

theorem alignDown_block : alignDown addr (1 <<< g) = addr / 2 ^ g * 2 ^ g := by
  rw [alignDown, Nat.one_shiftLeft]

/-- The last page of the block, also of the last block there is. -/
theorem align_block (hg : g < 64) (haddr : addr < 2 ^ 64) :
    sub64 (alignPages (u64 (addr + 1)) (1 <<< g)) 1 = addr / 2 ^ g * 2 ^ g + (2 ^ g - 1) := by
  obtain ⟨t, ht⟩ : 2 ^ g ∣ 2 ^ 64 := Nat.pow_dvd_pow 2 hg.le
  have hpos : 0 < 2 ^ g := Nat.two_pow_pos g
  rw [alignPages, Nat.one_shiftLeft]
  generalize 2 ^ g = size at ht hpos ⊢
  have hlow : addr / size * size ≤ addr := Nat.div_mul_le_self ..
  have hhigh : addr < addr / size * size + size := Nat.lt_div_mul_add hpos
  have hsum : u64 (u64 (addr + 1) + (size - 1)) = u64 (addr + size) := by
    unfold u64 wrap
    omega
  rw [hsum]
  by_cases hwrap : addr + size < 2 ^ 64
  · rw [u64_of_lt hwrap, Nat.add_div_right _ hpos, Nat.succ_mul, sub64_of_le (by omega) (by omega)]
    omega
  · -- the block is the last one, and its end wraps to 0
    have hq : t ≤ addr / size + 1 := by
      have hle : t * size ≤ addr + size := by
        rw [Nat.mul_comm, ← ht]
        omega
      have hdiv : t ≤ (addr + size) / size := (Nat.le_div_iff_mul_le hpos).2 hle
      rwa [Nat.add_div_right _ hpos] at hdiv
    have hlast : addr / size * size + size = 2 ^ 64 := by
      have hlt : addr / size < t := Nat.div_lt_of_lt_mul (by rw [← ht]; exact haddr)
      rw [ht, Nat.mul_comm size t, show t = addr / size + 1 by omega, Nat.succ_mul]
    have hzero : u64 (addr + size) / size = 0 := by
      refine Nat.div_eq_of_lt ?_
      unfold u64 wrap
      omega
    rw [hzero, Nat.zero_mul]
    unfold sub64 u64 wrap
    omega

end

/-! ### Links do not matter -/

/-- Two ranges that differ in their pending work and their children at most. -/
def SameButLinks (r r' : SvmRange) : Prop := ∃ op cl, r' = { r with op := op, child_list := cl }

theorem SameButLinks.refl (r : SvmRange) : SameButLinks r r := ⟨_, _, rfl⟩

section

variable {r r' : SvmRange}

theorem SameButLinks.has_eq (h : SameButLinks r r') : r'.Has = r.Has := by
  obtain ⟨op, cl, rfl⟩ := h
  rfl

theorem SameButLinks.seg_eq (h : SameButLinks r r') : r'.seg = r.seg := by
  obtain ⟨op, cl, rfl⟩ := h
  rfl

theorem SameButLinks.interval_eq (h : SameButLinks r r') : r'.interval = r.interval := by
  obtain ⟨op, cl, rfl⟩ := h
  rfl

theorem SameButLinks.page_eq (h : SameButLinks r r') (v : ℕ) : r'.page v = r.page v := by
  obtain ⟨op, cl, rfl⟩ := h
  rfl

theorem SameButLinks.wellFormed (h : SameButLinks r r') (hw : r.WellFormed) : r'.WellFormed := by
  obtain ⟨op, cl, rfl⟩ := h
  exact ⟨hw.start_le, hw.npages_eq, hw.dma_addr, hw.svm_bo⟩

/-- A well-formed range is the one part of itself. -/
theorem PartedInto.single (hw : r.WellFormed) : PartedInto r [r] where
  tiles := .single _
  wellFormed a ha := by rwa [List.mem_singleton.1 ha]
  page a ha v _ := by rw [List.mem_singleton.1 ha]

/-- **A part is parted again.** -/
theorem PartedInto.split {a a' b : SvmRange} {parts : List SvmRange}
    (h : PartedInto r (a :: parts)) (ha : Parted a a' b) :
    PartedInto r (a' :: (parts ++ [b])) := by
  have hwhole := fun v => (h.page a List.mem_cons_self v)
  refine ⟨?_, fun c hc => ?_, fun c hc v hv => ?_⟩
  · have hparts := h.tiles.split (.pair ha.has ha.disjoint)
    simpa using hparts
  · rcases List.mem_cons.1 hc with rfl | hc
    · exact ha.left
    rcases List.mem_append.1 hc with hc | hc
    · exact h.wellFormed c (List.mem_cons_of_mem _ hc)
    · rw [List.mem_singleton.1 hc]
      exact ha.right
  · rcases List.mem_cons.1 hc with rfl | hc
    · rw [ha.page_left v hv, hwhole v ((ha.has v).2 (.inl hv))]
    rcases List.mem_append.1 hc with hc | hc
    · exact h.page c (List.mem_cons_of_mem _ hc) v hv
    · rw [List.mem_singleton.1 hc] at hv ⊢
      rw [ha.page_right v hv, hwhole v ((ha.has v).2 (.inr hv))]

/-- Parts that are changed in their links only are parts. -/
theorem PartedInto.of_links {α : Type} {f f' : α → SvmRange} {cs : List α}
    (h : PartedInto r (cs.map f)) (hf : ∀ c ∈ cs, SameButLinks (f c) (f' c)) :
    PartedInto r (cs.map f') := by
  refine ⟨?_, fun a ha => ?_, fun a ha v hv => ?_⟩
  · have hhas : (cs.map f').map SvmRange.Has = (cs.map f).map SvmRange.Has := by
      rw [List.map_map, List.map_map]
      exact List.map_congr_left fun c hc => (hf c hc).has_eq
    rw [hhas]
    exact h.tiles
  · obtain ⟨c, hc, rfl⟩ := List.mem_map.1 ha
    exact (hf c hc).wellFormed (h.wellFormed _ (List.mem_map_of_mem hc))
  · obtain ⟨c, hc, rfl⟩ := List.mem_map.1 ha
    rw [(hf c hc).has_eq] at hv
    rw [(hf c hc).page_eq, h.page _ (List.mem_map_of_mem hc) v hv]

end

/-! ### One split -/

section

variable {p : OpuProcess} {m m' : Mem} {i start last new : ℕ} {e : Errno}

/-- A split that succeeds does what a split promises. -/
theorem svmRangeSplit_right (hi : i < m.next) (hw : (m.ranges i).WellFormed)
    (hs : (m.ranges i).SplitPoint start last)
    (h : svmRangeSplit p i start last m = (.ok new, m')) :
    SplitRight m i start last (.ok new, m') := by
  by_cases h₀ : m.answer 0 = false
  · rw [svmRangeSplit_eq hs, svmRangeNew_eq, if_pos h₀] at h
    cases h
  obtain ⟨m₁, hprep, heq⟩ := @svmRangeSplit_prepared m start last p i hs h₀
  rw [heq, hprep.adjust hi hw hs] at h
  rcases hloop : splitPagesLoop m.next i (last - start + 1) (List.range MAX_GPU_INSTANCE) m₁ with
    ⟨_ | e, m₂⟩
  · rw [hloop] at h
    cases h
    exact hprep.done hi hw hs hloop
  · rw [hloop] at h
    cases h

/-- **A split that fails** has changed no range, but for the arrays of the one it was given. -/
theorem svmRangeSplit_error (hi : i < m.next) (hw : (m.ranges i).WellFormed)
    (hs : (m.ranges i).SplitPoint start last)
    (h : svmRangeSplit p i start last m = (.error e, m')) :
    m.next ≤ m'.next ∧ (∀ k < m.next, k ≠ i → m'.ranges k = m.ranges k) ∧
      ∃ d, m'.ranges i = { m.ranges i with dma_addr := d } := by
  by_cases h₀ : m.answer 0 = false
  · rw [svmRangeSplit_eq hs, svmRangeNew_eq, if_pos h₀] at h
    cases h
    exact ⟨Nat.le_refl _, fun _ _ _ => rfl, _, rfl⟩
  obtain ⟨m₁, hprep, heq⟩ := @svmRangeSplit_prepared m start last p i hs h₀
  rw [heq, hprep.adjust hi hw hs] at h
  have hne : m.next ≠ i := by omega
  have honly :=
    @splitPagesLoop_only m₁ m.next i (last - start + 1) (List.range MAX_GPU_INSTANCE) hne
  rcases hloop : splitPagesLoop m.next i (last - start + 1) (List.range MAX_GPU_INSTANCE) m₁ with
    ⟨_ | e, m₂⟩
  · rw [hloop] at h
    cases h
  · rw [hloop] at h honly
    cases h
    obtain ⟨hother, ⟨d, hold, -⟩, ⟨d', hnew, -⟩, -, hnext, -⟩ := honly
    dsimp only at hother hold hnew hnext
    have hbo : (m₂.ranges m.next).svm_bo = none := by
      rw [hnew]
      exact hprep.newFor.svm_bo
    obtain ⟨-, hnext', -, hfree⟩ := @svmRangeFree_of_none m₂ p m.next hbo
    refine ⟨?_, fun k hk hki => ?_, d, ?_⟩
    · rw [hnext', hnext, hprep.made.next]
      omega
    · rw [hfree k (by omega), hother k (by omega) hki]
      exact hprep.made.of_lt hk
    · rw [hfree i hne.symm, hold, hprep.made.of_lt hi]

/-- The interval of what a split makes. -/
theorem interval_of_split (hi : i < m.next)
    (h : svmRangeSplit p i start last m = (.ok new, m')) :
    (m'.ranges new).interval = (m.ranges i).lost start last := by
  obtain ⟨-, -, -, hseg, -⟩ := svmRangeSplit_ok hi h
  unfold SvmRange.lost
  unfold SvmRange.seg at hseg
  split_ifs at hseg ⊢ with hstart
  · obtain ⟨h₁, h₂, -⟩ := Seg.mk.inj hseg
    exact Prod.ext h₁ h₂
  · obtain ⟨h₁, h₂, -⟩ := Seg.mk.inj hseg
    exact Prod.ext h₁ h₂

end

/-! ### A step -/

section

variable {p : OpuProcess} {m₀ m m' : Mem} {parent i start last : ℕ} {children : List ℕ} {e : Errno}
  {op : WorkOp}

theorem svmRangeAddChild_next (k c : ℕ) (m : Mem) :
    (svmRangeAddChild k c op m).next = m.next := rfl

theorem svmRangeAddChild_child {c k : ℕ} (hne : c ≠ k) :
    (svmRangeAddChild k c op m).ranges c = { m.ranges c with op := op } := by
  rw [svmRangeAddChild, Mem.setRange_of_ne _ _ hne, Mem.setRange_self]

theorem svmRangeAddChild_parent {c k : ℕ} (hne : c ≠ k) :
    (svmRangeAddChild k c op m).ranges k =
      { m.ranges k with child_list := (m.ranges k).child_list ++ [c] } := by
  rw [svmRangeAddChild, Mem.setRange_self, Mem.setRange_of_ne _ _ hne.symm]

theorem svmRangeAddChild_other {c k j : ℕ} (hc : j ≠ c) (hk : j ≠ k) :
    (svmRangeAddChild k c op m).ranges j = m.ranges j := by
  rw [svmRangeAddChild, Mem.setRange_of_ne _ _ hk, Mem.setRange_of_ne _ _ hc]

theorem svmRangeAddChild_op {c k j : ℕ} (hne : c ≠ k) (hj : j ≠ c) :
    ((svmRangeAddChild k c op m).ranges j).op = (m.ranges j).op := by
  by_cases hk : j = k
  · rw [hk, svmRangeAddChild_parent hne]
  · rw [svmRangeAddChild_other hj hk]

theorem svmRangeAddChild_links {c k : ℕ} (hne : c ≠ k) (j : ℕ) :
    SameButLinks (m.ranges j) ((svmRangeAddChild k c op m).ranges j) := by
  by_cases hc : j = c
  · subst hc
    rw [svmRangeAddChild_child hne]
    exact ⟨_, _, rfl⟩
  by_cases hk : j = k
  · subst hk
    rw [svmRangeAddChild_parent hne]
    exact ⟨_, _, rfl⟩
  · rw [svmRangeAddChild_other hc hk]
    exact .refl _

/-- What has been done so far: the range is parted into what is left of it and the new children. -/
structure Progress (m₀ m : Mem) (parent i : ℕ) (children : List ℕ) : Prop where
  added : Added m₀ m parent i children
  parted : PartedInto (m₀.ranges i) ((i :: children).map m.ranges)

theorem Progress.refl (m : Mem) (parent i : ℕ) (hw : (m.ranges i).WellFormed) :
    Progress m m parent i [] where
  added := ⟨Nat.le_refl _, fun c hc => absurd hc List.not_mem_nil,
    fun c hc => absurd hc List.not_mem_nil, (List.append_nil _).symm, fun _ => by
      rw [List.append_nil], fun _ _ _ _ => rfl⟩
  parted := .single hw

theorem Progress.wellFormed (h : Progress m₀ m parent i children) : (m.ranges i).WellFormed :=
  h.parted.wellFormed _ List.mem_cons_self

/-- **A step that succeeds** makes another child. -/
theorem Progress.splitChild (h : Progress m₀ m parent i children) (hi : i < m₀.next)
    (hparent : parent < m₀.next) (hs : (m.ranges i).SplitPoint start last)
    (hsplit : Svm.splitChild p parent i start last m = (none, m')) :
    ∃ c, Progress m₀ m' parent i (children ++ [c]) ∧
      (m'.ranges i).interval = (start, last) ∧
      (m'.ranges c).interval = (m.ranges i).lost start last ∧
      ∀ d ∈ children, (m'.ranges d).interval = (m.ranges d).interval := by
  have hnext := h.added.next
  unfold Svm.splitChild at hsplit
  rcases hsplit' : svmRangeSplit p i start last m with ⟨e | c, m₁⟩
  · rw [hsplit'] at hsplit
    cases hsplit
  rw [hsplit'] at hsplit
  cases hsplit
  obtain ⟨hmade, hstart, hlast, hparted⟩ :=
    svmRangeSplit_right (by omega) h.wellFormed hs hsplit'
  obtain ⟨-, -, hlinks, -, -⟩ := svmRangeSplit_ok (by omega) hsplit'
  have hc := hmade.id
  have hne : c ≠ parent := by omega
  have hold : ∀ d ∈ children, m₁.ranges d = m.ranges d := by
    intro d hd
    obtain ⟨hge, hlt⟩ := h.added.new d hd
    refine hmade.other d (by omega) fun hmem => ?_
    rw [List.mem_singleton] at hmem
    omega
  have hkept : ∀ d ∈ children, (svmRangeAddChild parent c .addRange m₁).ranges d = m.ranges d := by
    intro d hd
    obtain ⟨hge, hlt⟩ := h.added.new d hd
    rw [svmRangeAddChild_other (by omega) (by omega), hold d hd]
  have hsame : parent ≠ i → m₁.ranges parent = m.ranges parent := by
    intro hpi
    refine hmade.other parent (by omega) fun hmem => ?_
    exact hpi (List.mem_singleton.1 hmem)
  have hlist : (m₁.ranges parent).child_list = (m.ranges parent).child_list := by
    by_cases hpi : parent = i
    · rw [hpi]
      unfold SvmRange.links at hlinks
      simp only [Prod.mk.injEq] at hlinks
      exact hlinks.2.2.2
    · rw [hsame hpi]
  refine ⟨c, ⟨⟨?_, fun d hd => ?_, fun d hd => ?_, ?_, fun hpi => ?_, fun k hk hki hkp => ?_⟩, ?_⟩,
    ?_, ?_, fun d hd => ?_⟩
  · rw [svmRangeAddChild, Mem.setRange_next, Mem.setRange_next, hmade.next]
    omega
  · rw [svmRangeAddChild, Mem.setRange_next, Mem.setRange_next, hmade.next]
    rcases List.mem_append.1 hd with hd | hd
    · obtain ⟨hge, hlt⟩ := h.added.new d hd
      omega
    · rw [List.mem_singleton.1 hd]
      omega
  · rcases List.mem_append.1 hd with hd | hd
    · rw [hkept d hd, h.added.op d hd]
    · rw [List.mem_singleton.1 hd, svmRangeAddChild_child hne]
  · rw [svmRangeAddChild_parent hne, hlist, h.added.child_list, List.append_assoc]
  · rw [svmRangeAddChild_parent hne, hsame hpi, h.added.parent_eq hpi]
    simp only [List.append_assoc]
  · rw [svmRangeAddChild_other (by omega) hkp, hmade.other k (by omega) (by simpa using hki),
      h.added.other k hk hki hkp]
  · -- the part that is left is parted again, and linking the child changes no page
    have hparts := h.parted.split hparted
    have hmap : m₁.ranges i :: (children.map m.ranges ++ [m₁.ranges c]) =
        (i :: (children ++ [c])).map m₁.ranges := by
      rw [List.map_cons, List.map_append, List.map_congr_left hold]
      rfl
    rw [hmap] at hparts
    exact hparts.of_links fun d _ => svmRangeAddChild_links hne d
  · rw [(svmRangeAddChild_links hne i).interval_eq]
    exact Prod.ext hstart hlast
  · rw [(svmRangeAddChild_links hne c).interval_eq, interval_of_split (by omega) hsplit']
  · rw [hkept d hd]

/-- **A step that fails** leaves the parts that there are. -/
theorem Progress.splitChild_error (h : Progress m₀ m parent i children) (hi : i < m₀.next)
    (hparent : parent < m₀.next) (hs : (m.ranges i).SplitPoint start last)
    (hsplit : Svm.splitChild p parent i start last m = (some e, m')) :
    Added m₀ m' parent i children ∧
      Partition (m₀.ranges i).Has ((i :: children).map fun c => (m'.ranges c).Has) := by
  have hnext := h.added.next
  unfold Svm.splitChild at hsplit
  rcases hsplit' : svmRangeSplit p i start last m with ⟨e' | c, m₁⟩
  swap
  · rw [hsplit'] at hsplit
    cases hsplit
  rw [hsplit'] at hsplit
  cases hsplit
  obtain ⟨hgrown, hother, d, hd⟩ := svmRangeSplit_error (by omega) h.wellFormed hs hsplit'
  have hkept : ∀ c ∈ children, m'.ranges c = m.ranges c := by
    intro c hc
    obtain ⟨hge, hlt⟩ := h.added.new c hc
    exact hother c hlt (by omega)
  have hsame : parent ≠ i → m'.ranges parent = m.ranges parent :=
    fun hpi => hother parent (by omega) hpi
  have hlist : (m'.ranges parent).child_list = (m.ranges parent).child_list := by
    by_cases hpi : parent = i
    · rw [hpi, hd]
    · rw [hsame hpi]
  refine ⟨⟨hnext.trans hgrown, fun c hc => ?_, fun c hc => ?_, ?_, fun hpi => ?_,
    fun k hk hki hkp => ?_⟩, ?_⟩
  · obtain ⟨hge, hlt⟩ := h.added.new c hc
    omega
  · rw [hkept c hc, h.added.op c hc]
  · rw [hlist, h.added.child_list]
  · rw [hsame hpi, h.added.parent_eq hpi]
  · rw [hother k (by omega) hki, h.added.other k hk hki hkp]
  · have hhas : (i :: children).map (fun c => (m'.ranges c).Has) =
        ((i :: children).map m.ranges).map SvmRange.Has := by
      rw [List.map_map]
      refine List.map_congr_left fun c hc => ?_
      rcases List.mem_cons.1 hc with rfl | hc
      · rw [Function.comp_apply, hd]
        rfl
      · rw [Function.comp_apply, hkept c hc]
    rw [hhas]
    exact h.parted.tiles

/-- The pending work is no matter. -/
theorem Progress.opAndMap (h : Progress m₀ m parent i children) (hi : i < m₀.next) :
    Progress m₀ (opAndMap p i m) parent i children ∧
      ∀ k, ((Svm.opAndMap p i m).ranges k).interval = (m.ranges k).interval := by
  unfold Svm.opAndMap
  split_ifs with hop
  · have hlinks : ∀ k, SameButLinks (m.ranges k)
        ((m.setRange i fun r => { r with op := .addRangeAndMap }).ranges k) := by
      intro k
      by_cases hk : k = i
      · subst hk
        rw [Mem.setRange_self]
        exact ⟨_, _, rfl⟩
      · rw [Mem.setRange_of_ne _ _ hk]
        exact .refl _
    have hkept : ∀ k, k ≠ i →
        (m.setRange i fun r => { r with op := .addRangeAndMap }).ranges k = m.ranges k :=
      fun k hk => Mem.setRange_of_ne _ _ hk
    refine ⟨⟨⟨h.added.next, h.added.new, fun c hc => ?_, ?_, fun hpi => ?_, fun k hk hki hkp => ?_⟩,
      h.parted.of_links fun c _ => hlinks c⟩, fun k => (hlinks k).interval_eq⟩
    · obtain ⟨hge, -⟩ := h.added.new c hc
      rw [hkept c (by omega), h.added.op c hc]
    · rw [← h.added.child_list]
      by_cases hpi : parent = i
      · rw [hpi, Mem.setRange_self]
      · rw [hkept parent hpi]
    · rw [hkept parent hpi, h.added.parent_eq hpi]
    · rw [hkept k hki, h.added.other k hk hki hkp]
  · exact ⟨h, fun _ => rfl⟩

end

/-! ### The two steps -/

section

variable {p : OpuProcess} {m m' : Mem} {parent i lo hi addr : ℕ} {e : Errno}

/-- What is in front of the block becomes a child. -/
theorem splitHead_progress (hi' : i < m.next) (hparent : parent < m.next)
    (hw : (m.ranges i).WellFormed) (haddr : (m.ranges i).Has addr) (hlo : lo ≤ addr)
    (h : splitHead p parent i lo m = (none, m')) :
    ∃ children, Progress m m' parent i children ∧
      (m'.ranges i).interval = (max (m.ranges i).start lo, (m.ranges i).last) ∧
      children.map (fun c => (m'.ranges c).interval) =
        if (m.ranges i).start < lo then [((m.ranges i).start, lo - 1)] else [] := by
  have hstart := haddr.1
  have hlast := haddr.2
  unfold splitHead at h
  split_ifs at h with hhead
  · have hs : (m.ranges i).SplitPoint lo (m.ranges i).last := .inr ⟨rfl, hhead, by omega⟩
    obtain ⟨c, hprogress, hinterval, hchild, -⟩ :=
      (Progress.refl m parent i hw).splitChild hi' hparent hs h
    refine ⟨[c], hprogress, ?_, ?_⟩
    · rw [hinterval, Nat.max_eq_right (Nat.le_of_lt hhead)]
    · rw [List.map_singleton, hchild, if_pos hhead, SvmRange.lost, if_neg (Nat.ne_of_lt hhead)]
  · cases h
    refine ⟨[], .refl m parent i hw, ?_, (if_neg hhead).symm⟩
    rw [Nat.max_eq_left (Nat.not_lt.1 hhead)]
    rfl

/-- When the first split fails, nothing has been made. -/
theorem splitHead_error (hi' : i < m.next) (hparent : parent < m.next)
    (hw : (m.ranges i).WellFormed) (haddr : (m.ranges i).Has addr) (hlo : lo ≤ addr)
    (h : splitHead p parent i lo m = (some e, m')) :
    GranularityRight m parent i lo hi (some e, m') := by
  have hlast := haddr.2
  unfold splitHead at h
  split_ifs at h with hhead
  · have hs : (m.ranges i).SplitPoint lo (m.ranges i).last := .inr ⟨rfl, hhead, by omega⟩
    exact ⟨[], (Progress.refl m parent i hw).splitChild_error hi' hparent hs h⟩
  · cases h

variable {m₁ : Mem} {children : List ℕ}

/-- What is behind the block becomes a child. -/
theorem splitTail_right (hi' : i < m.next) (hparent : parent < m.next)
    (haddr : (m.ranges i).Has addr) (hlo : lo ≤ addr) (hhi : addr ≤ hi)
    (hprogress : Progress m m₁ parent i children)
    (hinterval : (m₁.ranges i).interval = (max (m.ranges i).start lo, (m.ranges i).last))
    (hchildren : children.map (fun c => (m₁.ranges c).interval) =
      if (m.ranges i).start < lo then [((m.ranges i).start, lo - 1)] else [])
    {err : Option Errno} (h : splitTail p parent i hi m₁ = (err, m')) :
    GranularityRight m parent i lo hi
      (err.elim (none, opAndMap p i m') fun e => (some e, m')) := by
  have hstart := haddr.1
  obtain ⟨hstart₁, hlast₁⟩ := Prod.mk.inj hinterval
  unfold splitTail at h
  rw [hlast₁] at h
  split_ifs at h with htail
  · have hs : (m₁.ranges i).SplitPoint (m₁.ranges i).start hi := by
      refine .inl ⟨rfl, ?_, by omega⟩
      rw [hstart₁]
      exact Nat.max_le.2 ⟨by omega, by omega⟩
    cases err with
    | some e => exact ⟨children, hprogress.splitChild_error hi' hparent hs h⟩
    | none =>
      obtain ⟨c, hprogress', hinterval', hchild, hkept⟩ :=
        hprogress.splitChild hi' hparent hs h
      obtain ⟨hdone, hsame⟩ := hprogress'.opAndMap (p := p) hi'
      refine ⟨children ++ [c], hdone.added, hdone.parted, ?_, ?_⟩
      · rw [hsame, hinterval', hstart₁, Nat.min_eq_right (Nat.le_of_lt htail)]
      · simp only [hsame, List.map_append, List.map_singleton, hchild]
        rw [List.map_congr_left hkept, hchildren, SvmRange.outside, if_pos htail, SvmRange.lost,
          if_pos rfl, hlast₁]
  · cases h
    obtain ⟨hdone, hsame⟩ := hprogress.opAndMap (p := p) hi'
    refine ⟨children, hdone.added, hdone.parted, ?_, ?_⟩
    · rw [hsame, hinterval, Nat.min_eq_left (Nat.not_lt.1 htail)]
    · simp only [hsame]
      rw [hchildren, SvmRange.outside, if_neg htail, List.append_nil]

/-- **When a range is split by its granularity as it should be**: just if the granularity is below
64, which nothing checks.  The range may be its own parent, or be in the list of another one. -/
theorem splitByGranularity_right_iff (hi' : i < m.next) (hparent : parent < m.next)
    (hw : (m.ranges i).WellFormed) (hlast : (m.ranges i).last < 2 ^ 64)
    (haddr : (m.ranges i).Has addr) :
    (∃ result, svmRangeSplitByGranularity p addr parent i m = some result ∧
      GranularityRight m parent i
        (addr / 2 ^ (m.ranges i).granularity.toNat * 2 ^ (m.ranges i).granularity.toNat)
        (addr / 2 ^ (m.ranges i).granularity.toNat * 2 ^ (m.ranges i).granularity.toNat +
          (2 ^ (m.ranges i).granularity.toNat - 1)) result) ↔
      (m.ranges i).granularity.toNat < 64 := by
  generalize hg : (m.ranges i).granularity.toNat = g
  have hle := haddr.2
  have hpos : 0 < 2 ^ g := Nat.two_pow_pos g
  have hlo : addr / 2 ^ g * 2 ^ g ≤ addr := Nat.div_mul_le_self ..
  have hhi : addr ≤ addr / 2 ^ g * 2 ^ g + (2 ^ g - 1) := by
    have := Nat.lt_div_mul_add (a := addr) hpos
    omega
  unfold svmRangeSplitByGranularity
  rw [hg]
  dsimp only
  constructor
  · rintro ⟨result, h, -⟩
    by_contra hge
    rw [if_pos (Nat.not_lt.1 hge)] at h
    cases h
  · intro hlt
    rw [if_neg (Nat.not_le.2 hlt), alignDown_block, align_block hlt (by omega)]
    rcases hhead : splitHead p parent i (addr / 2 ^ g * 2 ^ g) m with ⟨_ | e, m₁⟩
    · obtain ⟨children, hprogress, hinterval, hchildren⟩ :=
        splitHead_progress hi' hparent hw haddr hlo hhead
      rcases htail : splitTail p parent i (addr / 2 ^ g * 2 ^ g + (2 ^ g - 1)) m₁ with ⟨err, m₂⟩
      have hright := splitTail_right hi' hparent haddr hlo hhi hprogress hinterval hchildren htail
      dsimp only
      rw [htail]
      cases err with
      | none => exact ⟨_, rfl, hright⟩
      | some e => exact ⟨_, rfl, hright⟩
    · exact ⟨_, rfl, splitHead_error hi' hparent hw haddr hlo hhead⟩

end

/-- A fault on page 2 of the pages 1 to 4, one page at a time. -/
theorem splitByGranularity_right_iff_page :
    ∃ result, svmRangeSplitByGranularity twoGpus 2 0 0 (mappedTwice []) = some result ∧
      GranularityRight (mappedTwice []) 0 0 2 2 result :=
  (splitByGranularity_right_iff (by decide) (by decide) (wellFormed_mappedTwice []) (by decide)
    ⟨by decide, by decide⟩).2 (by decide)

/-- A range whose granularity a request has set to 64. -/
def coarse : Mem where
  ranges _ := { start := 1, last := 4, npages := 4, granularity := 64 }
  bos _ := {}
  next := 1

/-- **A granularity of 64** leaves the block size without a value. -/
theorem coarse_not_split : (coarse.ranges 0).WellFormed ∧ (coarse.ranges 0).Has 2 ∧
    ¬∃ result, svmRangeSplitByGranularity twoGpus 2 0 0 coarse = some result ∧
      GranularityRight coarse 0 0 0 (2 ^ 64 - 1) result := by
  refine ⟨⟨by decide, rfl, nofun, nofun⟩, ⟨by decide, by decide⟩, ?_⟩
  rintro ⟨result, h, -⟩
  unfold svmRangeSplitByGranularity at h
  rw [if_pos (by decide)] at h
  cases h

end Codrive.Svm
