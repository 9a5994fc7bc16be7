/-
# What a notification does to a range

A range and the children it was parted into tile the interval it had (`Tiles`), and every split
keeps that.  Each of them fits the pages that were unmapped so far (`SvmRange.Fits`): it is to be
unmapped and all of its pages were, or it is not and none of them was.  `UnmapStep` is what one call
of `svm_range_unmap_split` does, `unmapChildren_ok` what the loop over the children does: it comes
to the children that it adds as well, and finds that they fit.
-/

import Codrive.Svm.Accounts
import Codrive.Svm.Unmap

namespace Codrive.Svm

open Codrive.Basis

/-! ### Tilings -/

/-- **The ranges tile the pages from `lo` to `hi`**, each with the attributes `a`. -/
structure Tiles (m : Mem) (ids : List ℕ) (lo hi : ℕ) (a : SvmAttrs) : Prop where
  lt : ∀ c ∈ ids, c < m.next
  nodup : ids.Nodup
  nonempty : ∀ c ∈ ids, (m.ranges c).start ≤ (m.ranges c).last
  partition : Partition (fun v => lo ≤ v ∧ v ≤ hi) (ids.map fun c => (m.ranges c).Has)
  attrs : ∀ c ∈ ids, (m.ranges c).toSvmAttrs = a

section

variable {p : OpuProcess} {m m' m₁ : Mem} {ids ids' : List ℕ} {lo hi : ℕ} {a : SvmAttrs}
  {i c n : ℕ}

theorem has_of_seg {r r' : SvmRange} (h : r'.seg = r.seg) : r'.Has = r.Has := by
  have h₁ : r'.start = r.start := congrArg Seg.start h
  have h₂ : r'.last = r.last := congrArg Seg.last h
  unfold SvmRange.Has
  rw [h₁, h₂]

/-- Only the intervals and the attributes matter. -/
theorem Tiles.congr (h : Tiles m ids lo hi a)
    (hseg : ∀ c ∈ ids, (m'.ranges c).seg = (m.ranges c).seg) (hnext : m.next ≤ m'.next) :
    Tiles m' ids lo hi a := by
  refine ⟨fun c hc => Nat.lt_of_lt_of_le (h.lt c hc) hnext, h.nodup, fun c hc => ?_, ?_,
    fun c hc => (congrArg Seg.val (hseg c hc)).trans (h.attrs c hc)⟩
  · have h₁ : (m'.ranges c).start = (m.ranges c).start := congrArg Seg.start (hseg c hc)
    have h₂ : (m'.ranges c).last = (m.ranges c).last := congrArg Seg.last (hseg c hc)
    rw [h₁, h₂]
    exact h.nonempty c hc
  · rw [List.map_congr_left fun c hc => has_of_seg (hseg c hc)]
    exact h.partition

theorem Tiles.perm (h : Tiles m ids lo hi a) (hp : ids.Perm ids') : Tiles m ids' lo hi a where
  lt c hc := h.lt c (hp.mem_iff.2 hc)
  nodup := hp.nodup_iff.1 h.nodup
  nonempty c hc := h.nonempty c (hp.mem_iff.2 hc)
  partition := h.partition.perm (hp.map _)
  attrs c hc := h.attrs c (hp.mem_iff.2 hc)

theorem Tiles.covers (h : Tiles m ids lo hi a) (v : ℕ) :
    lo ≤ v ∧ v ≤ hi ↔ ∃ c ∈ ids, (m.ranges c).Has v := by
  rw [h.partition.has v]
  simp

/-- No page is in two of them. -/
theorem Tiles.unique (h : Tiles m ids lo hi a) {c d v : ℕ} (hc : c ∈ ids) (hd : d ∈ ids)
    (hcv : (m.ranges c).Has v) (hdv : (m.ranges d).Has v) : c = d :=
  h.partition.eq_of_map hc hd hcv hdv

/-- **The new range `n` has what the range `c` lost**, and nothing hangs on it. -/
structure SplitOff (m m' : Mem) (c n : ℕ) : Prop where
  made : Made m m' n [c]
  kept : (m'.ranges c).start ≤ (m'.ranges c).last
  moved : (m'.ranges n).start ≤ (m'.ranges n).last
  has : ∀ v, (m.ranges c).Has v ↔ (m'.ranges c).Has v ∨ (m'.ranges n).Has v
  disjoint : ∀ v, (m'.ranges c).Has v → ¬(m'.ranges n).Has v
  attrs : (m'.ranges c).toSvmAttrs = (m.ranges c).toSvmAttrs
  attrs_new : (m'.ranges n).toSvmAttrs = (m.ranges c).toSvmAttrs
  links : (m'.ranges c).links = (m.ranges c).links
  links_new : (m'.ranges n).links = ({} : SvmRange).links

/-- **What `svm_range_split` splits off**: the range keeps the pages from `start` to `last`. -/
theorem splitOff {start last : ℕ} (hc : c < m.next) (hx : (m.ranges c).SplitPoint start last)
    (h : svmRangeSplit p c start last m = (.ok n, m')) :
    SplitOff m m' c n ∧ (m'.ranges c).start = start ∧ (m'.ranges c).last = last ∧
      (start = (m.ranges c).start ∧ (m'.ranges n).start = last + 1 ∧
          (m'.ranges n).last = (m.ranges c).last ∨
        last = (m.ranges c).last ∧ (m'.ranges n).start = (m.ranges c).start ∧
          (m'.ranges n).last = start - 1) := by
  obtain ⟨hmade, hkept, hlinks, hnew, hlinks'⟩ := svmRangeSplit_ok hc h
  have h₁ : (m'.ranges c).start = start := congrArg Seg.start hkept
  have h₂ : (m'.ranges c).last = last := congrArg Seg.last hkept
  have h₃ : (m'.ranges n).start = _ := congrArg Seg.start hnew
  have h₄ : (m'.ranges n).last = _ := congrArg Seg.last hnew
  have h₅ : (m'.ranges n).toSvmAttrs = _ := congrArg Seg.val hnew
  unfold SvmRange.SplitPoint at hx
  split_ifs at h₃ h₄ h₅
  all_goals
    dsimp only at h₃ h₄ h₅
    refine ⟨⟨hmade, by omega, by omega, fun v => ?_, fun v => ?_, congrArg Seg.val hkept, h₅,
      hlinks, hlinks'⟩, h₁, h₂, by omega⟩
    all_goals
      unfold SvmRange.Has
      omega

theorem SplitOff.fresh (h : SplitOff m m' c n) : n = m.next := h.made.id

theorem SplitOff.next (h : SplitOff m m' c n) : m'.next = m.next + 1 := h.made.next

theorem SplitOff.other (h : SplitOff m m' c n) {k : ℕ} (hk : k < m.next) (hkc : k ≠ c) :
    m'.ranges k = m.ranges k :=
  h.made.other k (by rw [h.fresh]; omega) (by simpa using hkc)

/-- Nothing is linked up in another way. -/
theorem SplitOff.links_lt (h : SplitOff m m' c n) {k : ℕ} (hk : k < m.next) :
    (m'.ranges k).links = (m.ranges k).links := by
  by_cases hkc : k = c
  · rw [hkc, h.links]
  · rw [h.other hk hkc]

/-- **A split keeps the tiling.** -/
theorem Tiles.split (h : Tiles m ids lo hi a) (hc : c ∈ ids) (hs : SplitOff m m' c n) :
    Tiles m' (ids ++ [n]) lo hi a := by
  have hfresh : n ∉ ids := fun hn => by
    have := h.lt n hn
    rw [hs.fresh] at this
    omega
  have hother : ∀ d ∈ ids, d ≠ c → m'.ranges d = m.ranges d := fun d hd hdc =>
    hs.other (h.lt d hd) hdc
  have hnext := hs.next
  refine ⟨fun d hd => ?_, ?_, fun d hd => ?_, ?_, fun d hd => ?_⟩
  · rcases List.mem_append.1 hd with hd | hd
    · have := h.lt d hd
      omega
    · have := hs.fresh
      rw [List.mem_singleton.1 hd]
      omega
  · refine List.nodup_append.2 ⟨h.nodup, List.nodup_singleton n, fun d hd e he hde => ?_⟩
    obtain rfl := List.mem_singleton.1 he
    exact hfresh (hde ▸ hd)
  · rcases List.mem_append.1 hd with hd | hd
    · by_cases hdc : d = c
      · rw [hdc]
        exact hs.kept
      · rw [hother d hd hdc]
        exact h.nonempty d hd
    · rw [List.mem_singleton.1 hd]
      exact hs.moved
  · -- `c` is parted, and no other range has changed
    have hperm : ids.Perm (c :: ids.erase c) := List.perm_cons_erase hc
    have hrest : (ids.erase c).map (fun d => (m.ranges d).Has) =
        (ids.erase c).map fun d => (m'.ranges d).Has := List.map_congr_left fun d hd => by
      obtain ⟨hdc, hd⟩ := (h.nodup.mem_erase_iff).1 hd
      rw [hother d hd hdc]
    have hsplit := (h.partition.perm (hperm.map _)).split (.pair hs.has hs.disjoint)
    rw [hrest] at hsplit
    refine hsplit.perm (.trans ?_ (.of_eq List.map_append.symm))
    exact ((hperm.map fun d => (m'.ranges d).Has).append_right [(m'.ranges n).Has]).symm
  · rcases List.mem_append.1 hd with hd | hd
    · by_cases hdc : d = c
      · rw [hdc]
        exact hs.attrs.trans (h.attrs c hc)
      · rw [hother d hd hdc]
        exact h.attrs d hd
    · rw [List.mem_singleton.1 hd]
      exact hs.attrs_new.trans (h.attrs c hc)

end

/-! ### One call -/

/-- **What one call of `svm_range_unmap_split` does** with the range `c`, a child of `i` or `i`
itself: which children are new, and the memory after it. -/
inductive UnmapStep (m : Mem) (i c start last : ℕ) : List ℕ → Mem → Prop
  /-- It is to be unmapped already, or is not met. -/
  | skip (h : (m.ranges c).op = .unmapRange ∨ ∀ v, (m.ranges c).Has v → ¬(start ≤ v ∧ v ≤ last)) :
    UnmapStep m i c start last [] m
  /-- All of it is unmapped.  The parent is marked by the caller. -/
  | all (hop : (m.ranges c).op ≠ .unmapRange) (hall : start ≤ (m.ranges c).start ∧
      (m.ranges c).last ≤ last) (hic : i = c) : UnmapStep m i c start last [] m
  | mark (hop : (m.ranges c).op ≠ .unmapRange) (hall : start ≤ (m.ranges c).start ∧
      (m.ranges c).last ≤ last) (hic : i ≠ c) :
    UnmapStep m i c start last [] (m.setRange c fun r => { r with op := .unmapRange })
  /-- What is unmapped is its head or its tail, the new range `n`. -/
  | one {n : ℕ} {m₁ : Mem} (hop : (m.ranges c).op ≠ .unmapRange) (hs : SplitOff m m₁ c n)
      (hn : ∀ v, (m₁.ranges n).Has v → start ≤ v ∧ v ≤ last)
      (hc : ∀ v, (m₁.ranges c).Has v → ¬(start ≤ v ∧ v ≤ last)) :
    UnmapStep m i c start last [n] (svmRangeAddChild i n .unmapRange m₁)
  /-- What is unmapped is the new range `h`, between `c` and the new range `t`. -/
  | two {t h : ℕ} {m₁ m₂ : Mem} (hop : (m.ranges c).op ≠ .unmapRange) (hs : SplitOff m m₁ c t)
      (hs' : SplitOff m₁ m₂ t h) (hh : ∀ v, (m₂.ranges h).Has v → start ≤ v ∧ v ≤ last)
      (ht : ∀ v, (m₂.ranges t).Has v → ¬(start ≤ v ∧ v ≤ last))
      (hc : ∀ v, (m₁.ranges c).Has v → ¬(start ≤ v ∧ v ≤ last)) :
    UnmapStep m i c start last [h, t]
      (svmRangeAddChild i t .addRange (svmRangeAddChild i h .unmapRange m₂))

section

variable {p : OpuProcess} {m m' : Mem} {i c start last : ℕ}

/-- **One call is such a step.** -/
theorem svmRangeUnmapSplit_step (hc : c < m.next) (hq : start ≤ last)
    (h : svmRangeUnmapSplit p m i c start last = some m') :
    ∃ new, UnmapStep m i c start last new m' := by
  unfold svmRangeUnmapSplit at h
  dsimp only at h
  by_cases hop : (m.ranges c).op = .unmapRange
  · rw [if_pos hop] at h
    cases h
    exact ⟨_, .skip (.inl hop)⟩
  rw [if_neg hop] at h
  by_cases hmeet : start > (m.ranges c).last ∨ last < (m.ranges c).start
  · rw [if_pos hmeet] at h
    cases h
    refine ⟨_, .skip (.inr fun v hv => ?_)⟩
    unfold SvmRange.Has at hv
    omega
  rw [if_neg hmeet] at h
  by_cases htail : start > (m.ranges c).start
  · rw [if_pos htail] at h
    split at h
    · cases h
    rename_i t m₁ hsplit
    obtain ⟨hs, h₁, h₂, h₃⟩ := splitOff hc (.inl ⟨rfl, by omega, by omega⟩) hsplit
    have hne : t ≠ c := by
      have := hs.fresh
      omega
    by_cases hhead : last < (m₁.ranges t).last
    · -- both ends stay
      rw [if_pos hhead] at h
      split at h
      · cases h
      rename_i k m₂ hsplit'
      have ht : t < m₁.next := by
        have := hs.fresh
        have := hs.next
        omega
      obtain ⟨hs', g₁, g₂, g₃⟩ := splitOff ht (.inr ⟨rfl, by omega, by omega⟩) hsplit'
      have hne' : k ≠ c := by
        have := hs'.fresh
        have := hs.next
        omega
      rw [if_pos ⟨hne', hne⟩] at h
      cases h
      refine ⟨_, .two hop hs hs' (fun v hv => ?_) (fun v hv => ?_) fun v hv => ?_⟩
      all_goals
        unfold SvmRange.Has at hv
        omega
    · rw [if_neg hhead] at h
      dsimp only at h
      rw [if_neg (by simp), if_pos hne] at h
      cases h
      refine ⟨_, .one hop hs (fun v hv => ?_) fun v hv => ?_⟩
      all_goals
        unfold SvmRange.Has at hv
        omega
  · rw [if_neg htail] at h
    dsimp only at h
    by_cases hhead : last < (m.ranges c).last
    · rw [if_pos hhead] at h
      split at h
      · cases h
      rename_i k m₁ hsplit
      obtain ⟨hs, h₁, h₂, h₃⟩ := splitOff hc (.inr ⟨rfl, by omega, by omega⟩) hsplit
      have hne : k ≠ c := by
        have := hs.fresh
        omega
      rw [if_neg (by simp), if_neg (by simp), if_pos hne] at h
      cases h
      refine ⟨_, .one hop hs (fun v hv => ?_) fun v hv => ?_⟩
      all_goals
        unfold SvmRange.Has at hv
        omega
    · rw [if_neg hhead] at h
      dsimp only at h
      rw [if_neg (by simp), if_neg (by simp), if_neg (by simp)] at h
      have hall : start ≤ (m.ranges c).start ∧ (m.ranges c).last ≤ last := by omega
      split_ifs at h with hic
      · cases h
        exact ⟨_, .mark hop hall hic⟩
      · cases h
        exact ⟨_, .all hop hall (not_not.1 hic)⟩

variable {new : List ℕ}

theorem UnmapStep.next_le (h : UnmapStep m i c start last new m') : m.next ≤ m'.next := by
  cases h with
  | skip | all | mark => exact Nat.le_refl _
  | one _ hs =>
    rw [svmRangeAddChild_next, hs.next]
    omega
  | two _ hs hs' =>
    rw [svmRangeAddChild_next, svmRangeAddChild_next, hs'.next, hs.next]
    omega

theorem UnmapStep.length_le (h : UnmapStep m i c start last new m') : new.length ≤ 2 := by
  cases h <;> simp

/-- The new children are new. -/
theorem UnmapStep.fresh (h : UnmapStep m i c start last new m') : ∀ d ∈ new, m.next ≤ d := by
  cases h with
  | skip | all | mark => simp
  | one _ hs => simp [hs.fresh]
  | two _ hs hs' => simp [hs.fresh, hs'.fresh, hs.next]

theorem UnmapStep.other (h : UnmapStep m i c start last new m') {j : ℕ} (hj : j < m.next)
    (hji : j ≠ i) (hjc : j ≠ c) : m'.ranges j = m.ranges j := by
  cases h with
  | skip | all => rfl
  | mark => exact Mem.setRange_of_ne _ _ hjc
  | one _ hs =>
    have := hs.fresh
    rw [svmRangeAddChild_other (by omega) hji, hs.other hj hjc]
  | two _ hs hs' =>
    have := hs.fresh
    have := hs.next
    have := hs'.fresh
    rw [svmRangeAddChild_other (by omega) hji, svmRangeAddChild_other (by omega) hji,
      hs'.other (by omega) (by omega), hs.other hj hjc]

/-- **The parent** gets the new children and keeps its other links. -/
theorem UnmapStep.parent (h : UnmapStep m i c start last new m') (hi : i < m.next) :
    (m'.ranges i).links = ((m.ranges i).links.1, (m.ranges i).links.2.1, (m.ranges i).op,
      (m.ranges i).child_list ++ new) := by
  cases h with
  | skip | all => rw [List.append_nil]; rfl
  | mark _ _ hic =>
    rw [Mem.setRange_of_ne _ _ hic, List.append_nil]
    rfl
  | one _ hs =>
    have := hs.fresh
    rw [svmRangeAddChild_parent (by omega)]
    have hlinks := hs.links_lt hi
    unfold SvmRange.links at hlinks ⊢
    simp only [Prod.mk.injEq] at hlinks ⊢
    simp [hlinks]
  | two _ hs hs' =>
    have := hs.fresh
    have := hs.next
    have := hs'.fresh
    rw [svmRangeAddChild_parent (by omega), svmRangeAddChild_parent (by omega)]
    have hlinks := (hs'.links_lt (by omega)).trans (hs.links_lt hi)
    unfold SvmRange.links at hlinks ⊢
    simp only [Prod.mk.injEq] at hlinks ⊢
    simp [hlinks]

theorem UnmapStep.child_list (h : UnmapStep m i c start last new m') (hi : i < m.next) :
    (m'.ranges i).child_list = (m.ranges i).child_list ++ new :=
  congrArg (·.2.2.2) (h.parent hi)

theorem UnmapStep.parent_seg (h : UnmapStep m i c start last new m') (hi : i < m.next)
    (hic : i ≠ c) : (m'.ranges i).seg = (m.ranges i).seg := by
  cases h with
  | skip | all => rfl
  | mark => rw [Mem.setRange_of_ne _ _ hic]
  | one _ hs =>
    have := hs.fresh
    rw [(svmRangeAddChild_links (by omega) i).seg_eq, hs.other hi hic]
  | two _ hs hs' =>
    have := hs.fresh
    have := hs.next
    have := hs'.fresh
    rw [(svmRangeAddChild_links (by omega) i).seg_eq, (svmRangeAddChild_links (by omega) i).seg_eq,
      hs'.other (by omega) (by omega), hs.other hi hic]

/-- The intervals after a step are those after its splits. -/
theorem UnmapStep.tiles {lo hi : ℕ} {a : SvmAttrs} (h : UnmapStep m i c start last new m')
    (hc : c ∈ i :: (m.ranges i).child_list)
    (ht : Tiles m (i :: (m.ranges i).child_list) lo hi a) :
    Tiles m' (i :: (m'.ranges i).child_list) lo hi a := by
  have hi : i < m.next := ht.lt i (by simp)
  have hc' : c < m.next := ht.lt c hc
  rw [h.child_list hi]
  cases h with
  | skip | all => simpa using ht
  | mark =>
    rw [List.append_nil]
    refine ht.congr (fun d _ => ?_) (Nat.le_refl _)
    by_cases hd : d = c
    · rw [hd, Mem.setRange_self]
      rfl
    · rw [Mem.setRange_of_ne _ _ hd]
  | one _ hs =>
    have := hs.fresh
    exact (ht.split hc hs).congr (fun d _ => (svmRangeAddChild_links (by omega) d).seg_eq)
      (Nat.le_refl _)
  | @two t k _ _ _ hs hs' =>
    have := hs.fresh
    have := hs.next
    have := hs'.fresh
    have htk := (ht.split hc hs).split (by simp) hs'
    refine (htk.congr (fun d _ => (svmRangeAddChild_links (by omega) d).seg_eq.trans
      (svmRangeAddChild_links (by omega) d).seg_eq) (Nat.le_refl _)).perm (.cons i ?_)
    show ((m.ranges i).child_list ++ [t] ++ [k]).Perm _
    rw [List.append_assoc]
    exact (List.Perm.swap k t []).append_left _

end

/-! ### What was unmapped -/

/-- **The range fits the pages that were unmapped**: it is to be unmapped and all of its pages were,
or it is not and none of them was. -/
def SvmRange.Fits (r : SvmRange) (unmapped : ℕ → Prop) : Prop :=
  r.op = .unmapRange ∧ (∀ v, r.Has v → unmapped v) ∨
    r.op ≠ .unmapRange ∧ ∀ v, r.Has v → ¬unmapped v

section

variable {p : OpuProcess} {m m' : Mem} {i c start last : ℕ} {new : List ℕ}
  {unmapped unmapped' : ℕ → Prop}

/-- A range gets no pages. -/
theorem UnmapStep.has_of_has (h : UnmapStep m i c start last new m') (hi : i < m.next)
    (hc : c < m.next) {v : ℕ} (hv : (m'.ranges c).Has v) : (m.ranges c).Has v := by
  cases h with
  | skip | all => exact hv
  | mark =>
    rw [Mem.setRange_self] at hv
    exact hv
  | one _ hs =>
    have := hs.fresh
    rw [(svmRangeAddChild_links (by omega) c).has_eq] at hv
    exact (hs.has v).2 (.inl hv)
  | two _ hs hs' =>
    have := hs.fresh
    have := hs.next
    have := hs'.fresh
    rw [(svmRangeAddChild_links (by omega) c).has_eq,
      (svmRangeAddChild_links (by omega) c).has_eq, hs'.other (by omega) (by omega)] at hv
    exact (hs.has v).2 (.inl hv)

/-- One call splits off no child that does not fit what is unmapped then. -/
theorem UnmapStep.fits_new (h : UnmapStep m i c start last new m') (hi : i < m.next)
    (hu : ∀ v, unmapped' v ↔ unmapped v ∨ start ≤ v ∧ v ≤ last)
    (hf : (m.ranges c).Fits unmapped) :
    ∀ d ∈ new, (m'.ranges d).Fits unmapped' ∧
      ((m'.ranges d).op = .unmapRange ∨ (m'.ranges d).op = .addRange) := by
  cases h with
  | skip | all | mark => simp
  | one _ hs hn =>
    have := hs.fresh
    intro d hd
    rw [List.mem_singleton.1 hd, svmRangeAddChild_child (by omega)]
    exact ⟨.inl ⟨rfl, fun v hv => (hu v).2 (.inr (hn v hv))⟩, .inl rfl⟩
  | @two t k m₁ m₂ hop hs hs' hh ht =>
    have hne₁ := hs.fresh
    have hne₂ := hs.next
    have hne₃ := hs'.fresh
    -- none of the pages of `c` was unmapped before
    have hnone := (hf.resolve_left fun hf => hop hf.1).2
    intro d hd
    rcases List.mem_cons.1 hd with rfl | hd
    · rw [svmRangeAddChild_other (by omega) (by omega), svmRangeAddChild_child (by omega)]
      exact ⟨.inl ⟨rfl, fun v hv => (hu v).2 (.inr (hh v hv))⟩, .inl rfl⟩
    · rw [List.mem_singleton.1 hd, svmRangeAddChild_child (by omega),
        svmRangeAddChild_other (by omega) (by omega)]
      refine ⟨.inr ⟨by simp, fun v hv hv' => ?_⟩, .inr rfl⟩
      have hvc : (m.ranges c).Has v := (hs.has v).2 (.inr ((hs'.has v).2 (.inl hv)))
      rcases (hu v).1 hv' with hv' | hv'
      · exact hnone v hvc hv'
      · exact ht v hv hv'

/-- **One call makes the range fit**, but for the parent that is unmapped as a whole, which is left
to the caller. -/
theorem UnmapStep.fits_self (h : UnmapStep m i c start last new m') (hi : i < m.next)
    (hc : c < m.next) (hu : ∀ v, unmapped' v ↔ unmapped v ∨ start ≤ v ∧ v ≤ last)
    (hf : (m.ranges c).Fits unmapped) :
    (m'.ranges c).Fits unmapped' ∧
        ((m'.ranges c).op = .unmapRange ∨ (m'.ranges c).op = (m.ranges c).op) ∨
      i = c ∧ (m.ranges c).op ≠ .unmapRange ∧
        (start ≤ (m.ranges c).start ∧ (m.ranges c).last ≤ last) ∧ m' = m := by
  -- what is left of a range that is split
  have hsplit : ∀ m₁ : Mem, (m.ranges c).op ≠ .unmapRange →
      (∀ v, (m₁.ranges c).Has v → (m.ranges c).Has v ∧ ¬(start ≤ v ∧ v ≤ last)) →
      (m₁.ranges c).op = (m.ranges c).op → (m₁.ranges c).Fits unmapped' ∧
        ((m₁.ranges c).op = .unmapRange ∨ (m₁.ranges c).op = (m.ranges c).op) := by
    intro m₁ hop hhas hop'
    refine ⟨.inr ⟨hop' ▸ hop, fun v hv hv' => ?_⟩, .inr hop'⟩
    obtain ⟨hvc, hout⟩ := hhas v hv
    have hv₁ : unmapped v := ((hu v).1 hv').resolve_right hout
    exact (hf.resolve_left fun hf => hop hf.1).2 v hvc hv₁
  cases h with
  | skip hskip =>
    refine .inl ⟨?_, .inr rfl⟩
    rcases hf with ⟨hop, hall⟩ | ⟨hop, hnone⟩
    · exact .inl ⟨hop, fun v hv => (hu v).2 (.inl (hall v hv))⟩
    · refine .inr ⟨hop, fun v hv hv' => ?_⟩
      rcases (hu v).1 hv' with hv' | hv'
      · exact hnone v hv hv'
      · exact hskip.resolve_left hop v hv hv'
  | all hop hall hic => exact .inr ⟨hic, hop, hall, rfl⟩
  | mark hop hall hic =>
    rw [Mem.setRange_self]
    refine .inl ⟨.inl ⟨rfl, fun v hv => (hu v).2 (.inr ?_)⟩, .inl rfl⟩
    exact ⟨Nat.le_trans hall.1 hv.1, Nat.le_trans hv.2 hall.2⟩
  | @one n m₁ hop hs hn hout =>
    have := hs.fresh
    refine .inl (hsplit _ hop (fun v hv => ?_) ?_)
    · rw [(svmRangeAddChild_links (by omega) c).has_eq] at hv
      exact ⟨(hs.has v).2 (.inl hv), hout v hv⟩
    · rw [svmRangeAddChild_op (by omega) (by omega)]
      exact congrArg (·.2.2.1) hs.links
  | @two t k m₁ m₂ hop hs hs' hh ht hout =>
    have := hs.fresh
    have := hs.next
    have := hs'.fresh
    have hc₁ : m₂.ranges c = m₁.ranges c := hs'.other (by omega) (by omega)
    refine .inl (hsplit _ hop (fun v hv => ?_) ?_)
    · rw [(svmRangeAddChild_links (by omega) c).has_eq,
        (svmRangeAddChild_links (by omega) c).has_eq, hc₁] at hv
      exact ⟨(hs.has v).2 (.inl hv), hout v hv⟩
    · rw [svmRangeAddChild_op (by omega) (by omega), svmRangeAddChild_op (by omega) (by omega), hc₁]
      exact congrArg (·.2.2.1) hs.links

/-- **A range that fits already stays as it is.** -/
theorem UnmapStep.eq_of_fits (h : UnmapStep m i c start last new m')
    (hle : (m.ranges c).start ≤ (m.ranges c).last)
    (hu : ∀ v, start ≤ v ∧ v ≤ last → unmapped' v) (hf : (m.ranges c).Fits unmapped') :
    new = [] ∧ m' = m := by
  have hnone (hop : (m.ranges c).op ≠ .unmapRange) {v : ℕ} (hv : (m.ranges c).Has v)
      (hv' : start ≤ v ∧ v ≤ last) : False :=
    (hf.resolve_left fun hf => hop hf.1).2 v hv (hu v hv')
  cases h with
  | skip | all => exact ⟨rfl, rfl⟩
  | mark hop hall =>
    have hv : (m.ranges c).Has (m.ranges c).start := ⟨Nat.le_refl _, hle⟩
    exact (hnone hop hv (by omega)).elim
  | @one n m₁ hop hs hn =>
    have hv : (m₁.ranges n).Has _ := ⟨Nat.le_refl _, hs.moved⟩
    exact (hnone hop ((hs.has _).2 (.inr hv)) (hn _ hv)).elim
  | @two t k m₁ m₂ hop hs hs' hh =>
    have hv : (m₂.ranges k).Has _ := ⟨Nat.le_refl _, hs'.moved⟩
    exact (hnone hop ((hs.has _).2 (.inr ((hs'.has _).2 (.inr hv)))) (hh _ hv)).elim

end

end Codrive.Svm
