/-
# When a request is carried out

What a request of `SET_ATTR` is for (`CarriedOut`), and the exact condition under which
`svm_range_set_attr` does it (`setAttr_carriedOut_iff`).  Two things come between the overlay of
`setAttr_segs` and the request's purpose.  The test `svm_range_is_same_attrs` compares three of
the attributes with those of a range of zeroes the request was applied to, so it takes a range
for up to date that is not.  And the nodes at page 0 stay in the tree.
-/

import Codrive.Svm.Transaction

namespace Codrive.Svm

open Codrive.Basis

section

variable {p : OpuProcess} {attrs : List SvmAttribute} {mm : List Vma} {s t : Svms}
  {start size : ℕ}

/-- What a request is for: the pages `[start, last]` get what `f` makes of the attributes they
had, or of the default ones `d`, and every other page keeps its own. -/
structure CarriedOut (f : SvmAttrs → SvmAttrs) (d : SvmAttrs) (start last : ℕ)
    (old new : List (Seg SvmAttrs)) : Prop where
  disjoint : new.Pairwise Apart
  covers : ∀ v, (∃ x, At new v x) ↔ (∃ x, At old v x) ∨ start ≤ v ∧ v ≤ last
  outside : ∀ v x, ¬(start ≤ v ∧ v ≤ last) → (At new v x ↔ At old v x)
  inside : ∀ v x, start ≤ v → v ≤ last →
    (At new v x ↔ (∃ y, At old v y ∧ x = f y) ∨ (∀ y, ¬At old v y) ∧ x = f d)

/-- The registered ranges the request meets do not start at page 0, and of those that
`svm_range_is_same_attrs` takes for up to date the request changes nothing. -/
def Applies (p : OpuProcess) (attrs : List SvmAttribute) (s : Svms) (start last : ℕ) : Prop :=
  ∀ n ∈ s.objects, n.start ≤ last → start ≤ n.last → n.start ≠ 0 ∧
    (svmRangeIsSameAttrs (s.mem.ranges n.prange).toSvmAttrs (svmRangeApplyAttrs p attrs {}) →
      svmRangeApplyAttrs p attrs (s.mem.ranges n.prange).toSvmAttrs =
        (s.mem.ranges n.prange).toSvmAttrs)

theorem stale_eq_nil {last : ℕ}
    (h : ∀ n ∈ s.objects, n.start ≤ last → start ≤ n.last → n.start ≠ 0) :
    stale start last s.objects = [] := by
  refine List.filter_eq_nil_iff.2 fun n hn => ?_
  obtain ⟨hn, hm⟩ := List.mem_filter.1 hn
  obtain ⟨h₁, h₂⟩ := of_decide_eq_true hm
  simpa using h n hn h₁ h₂

/-- An overlay does what the request is for if `g` is right on the segments it meets. -/
theorem carriedOut_overlay {f g : SvmAttrs → SvmAttrs} {d : SvmAttrs} {start last : ℕ}
    {l : List (Seg SvmAttrs)} (hl : Ascending l) (hle : start ≤ last)
    (hg : ∀ a ∈ l, Meets start last a → g a.val = f a.val) :
    CarriedOut f d start last l (overlay g (f d) start last l) := by
  have hin : ∀ v x, start ≤ v → v ≤ last → (At (overlay g (f d) start last l) v x ↔
      (∃ y, At l v y ∧ x = f y) ∨ (∀ y, ¬At l v y) ∧ x = f d) := by
    intro v x h₁ h₂
    rw [hl.at_overlay hle, if_pos ⟨h₁, h₂⟩]
    refine or_congr_left (exists_congr fun y => and_congr_right ?_)
    rintro ⟨a, ha, ⟨h₃, h₄⟩, rfl⟩
    rw [hg a ha ⟨by omega, by omega⟩]
  have hout : ∀ v x, ¬(start ≤ v ∧ v ≤ last) →
      (At (overlay g (f d) start last l) v x ↔ At l v x) := fun v x h => by
    rw [hl.at_overlay hle, if_neg h]
  refine ⟨(hl.separated_overlay hle).apart, fun v => ?_, hout, hin⟩
  by_cases hv : start ≤ v ∧ v ≤ last
  · refine ⟨fun _ => .inr hv, fun _ => ?_⟩
    by_cases hy : ∃ y, At l v y
    · obtain ⟨y, hy⟩ := hy
      exact ⟨f y, (hin v _ hv.1 hv.2).2 (.inl ⟨y, hy, rfl⟩)⟩
    · exact ⟨f d, (hin v _ hv.1 hv.2).2 (.inr ⟨fun y h => hy ⟨y, h⟩, rfl⟩)⟩
  · simp only [hout v _ hv, hv, or_false]

theorem CarriedOut.perm {f : SvmAttrs → SvmAttrs} {d : SvmAttrs} {start last : ℕ}
    {old new new' : List (Seg SvmAttrs)} (h : CarriedOut f d start last old new)
    (hp : new.Perm new') : CarriedOut f d start last old new' where
  disjoint := (hp.pairwise_iff Apart.symm).1 h.disjoint
  covers v := by simpa only [at_perm hp] using h.covers v
  outside v x hv := by rw [← at_perm hp]; exact h.outside v x hv
  inside v x h₁ h₂ := by rw [← at_perm hp]; exact h.inside v x h₁ h₂

/-- **When a request does what it is for.**  The registered ranges stay disjoint, cover the request
and what they covered before, and every page has the attributes it should have, just if
`svm_range_is_same_attrs` is right about the ranges the request meets and none of them starts at
page 0.  `opu_ioctl_svm` refuses an address or a size of 0. -/
theorem setAttr_carriedOut_iff (hs : Registered s) (hstart : 0 < start) (hsize : 0 < size)
    (h : svmRangeSetAttr p mm s start size attrs = (none, t)) :
    CarriedOut (svmRangeApplyAttrs p attrs) (defaultAttrs p) start (start + size - 1)
        s.segs t.segs ↔
      Applies p attrs s start (start + size - 1) := by
  have hperm := setAttr_segs hs hstart hsize h
  have hle : start ≤ start + size - 1 := by omega
  generalize start + size - 1 = last at *
  have hasc : Ascending s.segs := hs.nodes.ascending
  constructor
  · intro hc n hn h₁ h₂
    have hns : n.seg s.mem ∈ s.segs := List.mem_map_of_mem hn
    have hne : n.start ≤ n.last := hasc.nonempty _ hns
    refine ⟨fun h0 => ?_, fun hsame => ?_⟩
    · -- page 0 would be in a part of the range and in the node that stays
      obtain ⟨-, -, hap⟩ := List.pairwise_append.1
        ((hperm.pairwise_iff Apart.symm).1 hc.disjoint)
      have hat : At s.segs 0 (n.seg s.mem).val := ⟨_, hns, ⟨h0.le, Nat.zero_le _⟩, rfl⟩
      have hnot : ¬(start ≤ 0 ∧ 0 ≤ last) := by omega
      obtain ⟨a, ha, hav, -⟩ :=
        (hasc.at_overlay (g := updatedAttrs p attrs)
          (w := svmRangeApplyAttrs p attrs (defaultAttrs p)) hle).2
          (by rw [if_neg hnot]; exact hat)
      have hst : n ∈ stale start last s.objects := List.mem_filter.2
        ⟨List.mem_filter.2 ⟨hn, decide_eq_true ⟨h₁, h₂⟩⟩, decide_eq_true h0⟩
      have hapart : a.last < n.start ∨ n.last < a.start :=
        hap a ha _ (List.mem_map_of_mem hst)
      have h₃ : a.start ≤ 0 := hav.1
      omega
    · -- a page of the range that the request names
      have hat : At s.segs (max start n.start) (n.seg s.mem).val :=
        ⟨_, hns, ⟨le_max_right .., by show max start n.start ≤ n.last; omega⟩, rfl⟩
      have hnew : At t.segs (max start n.start) (n.seg s.mem).val := by
        rw [at_perm hperm, at_append, hasc.at_overlay hle, if_pos (by omega)]
        exact .inl (.inl ⟨_, hat, (if_pos hsame).symm⟩)
      rcases (hc.inside _ _ (by omega) (by omega)).1 hnew with ⟨y, hy, he⟩ | ⟨hno, -⟩
      · rw [hasc.separated.at_unique hy hat] at he
        exact he.symm
      · exact absurd hat (hno _)
  · intro ha
    rw [stale_eq_nil fun n hn h₁ h₂ => (ha n hn h₁ h₂).1, List.map_nil, List.append_nil] at hperm
    refine (carriedOut_overlay hasc hle fun a hmem hm => ?_).perm hperm.symm
    obtain ⟨n, hn, rfl⟩ := List.mem_map.1 hmem
    unfold updatedAttrs
    split_ifs with hsame
    · exact ((ha n hn hm.1 hm.2).2 hsame).symm
    · rfl

/-- **The registered ranges stay registered** after a request that meets none at page 0. -/
theorem Registered.setAttr (hs : Registered s) (hstart : 0 < start) (hsize : 0 < size)
    (h0 : ∀ n ∈ s.objects, n.start ≤ start + size - 1 → start ≤ n.last → n.start ≠ 0)
    (h : svmRangeSetAttr p mm s start size attrs = (none, t)) : Registered t := by
  have hperm := setAttr_segs hs hstart hsize h
  obtain ⟨o, hadd, hnext, hobj, hlist, hsorted, hseg, hnew, hold⟩ := setAttr_effect hs hsize h
  obtain ⟨hg, -, -, hr, -⟩ := svmRangeAdd_ok hs.nodes hsize hadd
  have hle : start ≤ start + size - 1 := by omega
  generalize start + size - 1 = last at *
  rw [stale_eq_nil h0, List.map_nil, List.append_nil] at hperm
  have hok : ∀ n ∈ t.objects, n.Ok t.mem ∧ (t.mem.ranges n.prange).it_start = n.start ∧
      (t.mem.ranges n.prange).it_last = n.last := by
    intro n hn
    have hval : ∀ k, (t.mem.ranges k).start = (o.mem.ranges k).start ∧
        (t.mem.ranges k).last = (o.mem.ranges k).last := fun k =>
      ⟨congrArg Seg.start (hseg k), congrArg Seg.last (hseg k)⟩
    rcases List.mem_append.1 (hobj.mem_iff.1 hn) with hn | hn
    · obtain ⟨k, hk, rfl⟩ := List.mem_map.1 hn
      refine ⟨⟨?_, ?_⟩, hnew k hk⟩
      · rw [hnext]
        exact (hg.fresh k hk).2
      · rw [SvmRange.seg, (hval _).1, (hval _).2]
        rfl
    · have hn := List.mem_of_mem_filter hn
      obtain ⟨hlt, hns⟩ := hs.nodes.ok n hn
      have h₁ := hg.old _ hlt
      refine ⟨⟨?_, ?_⟩, hold n hn⟩
      · rw [hnext]
        exact Nat.lt_of_lt_of_le hlt hg.next_le
      · rw [SvmRange.seg, (hval _).1, (hval _).2, h₁]
        have h₂ : (s.mem.ranges n.prange).start = n.start := congrArg Seg.start hns
        have h₃ : (s.mem.ranges n.prange).last = n.last := congrArg Seg.last hns
        rw [h₂, h₃]
        rfl
  -- a replaced range is not in the tree any more
  have hkept : (s.objects.filter fun n =>
      ¬(n.prange ∈ o.remove_list ∧ n.start ≠ 0 ∧ n.last ≠ 0)) =
      s.objects.filter (·.prange ∉ o.remove_list) := by
    refine List.filter_congr fun n hn => ?_
    rw [decide_eq_decide]
    refine not_congr ⟨And.left, fun hk => ⟨hk, ?_⟩⟩
    obtain ⟨⟨h₁, h₂⟩, -⟩ := (mem_replaced hs.nodes.nodup hn).1 (hr.mem_iff.1 hk)
    exact ⟨h0 n hn h₁ h₂, by omega⟩
  have hids : (t.objects.map (·.prange)).Perm
      ((s.objects.map (·.prange) ++ o.insert_list).filter (· ∉ o.remove_list)) := by
    refine (hobj.map _).trans ?_
    rw [hkept, List.map_append, List.map_map, List.filter_append, List.filter_map]
    refine List.perm_append_comm.trans (.append_left _ (.of_eq ?_))
    rw [List.filter_eq_self.2 fun k hk => ?_]
    · exact List.map_id _
    · simp only [decide_eq_true_eq]
      intro hkr
      obtain ⟨n, hn, rfl⟩ := List.mem_map.1 (hr.mem_iff.1 hkr)
      have h₁ := (hs.nodes.ok n (meeting_subset (List.mem_of_mem_filter hn))).1
      have h₂ := (hg.fresh _ hk).1
      dsimp only at h₂
      omega
  have hnd : (s.objects.map (·.prange) ++ o.insert_list).Nodup := by
    refine List.nodup_append.2 ⟨hs.nodes.nodup, hg.nodup, fun k hk j hj => ?_⟩
    obtain ⟨n, hn, rfl⟩ := List.mem_map.1 hk
    have h₁ := (hs.nodes.ok n hn).1
    have h₂ := (hg.fresh _ hj).1
    dsimp only at h₂
    omega
  refine ⟨⟨fun n hn => (hok n hn).1, ?_, ?_⟩, fun n hn => (hok n hn).2, ?_⟩
  · refine (Separated.perm ?_ hperm.symm).ascending (List.pairwise_map.2 hsorted)
    exact Ascending.separated_overlay hs.nodes.ascending hle
  · exact hids.nodup_iff.2 (hnd.filter _)
  · rw [hlist]
    have hp := hs.list.append_right o.insert_list
    rw [((hp.nodup_iff).2 hnd).sdiff_eq_filter]
    exact (hp.filter _).trans hids.symm

end

/-! ### A process without GPUs -/

/-- A process with no GPU; the constants are those of the kernel's header. -/
def cpuProcess : OpuProcess where
  uapi := ⟨0, 0xffffffff, 1, 2⟩
  pdds := []
  xnack_enabled := false
  bitmap_supported := ∅

/-- One area of memory, from page 1 on. -/
def userMm : List Vma := [⟨4096, 4096 * 1024, false⟩]

/-- One registered range: the pages 1 to 4, with the attributes `a`. -/
def oneRange (a : SvmAttrs) : Svms where
  mem :=
    { ranges := fun _ => { a with start := 1, last := 4, npages := 4, it_start := 1, it_last := 4 }
      bos := fun _ => {}
      next := 1 }
  list := [0]
  objects := [⟨1, 4, 0⟩]

theorem registered_oneRange (a : SvmAttrs) : Registered (oneRange a) where
  nodes := by
    refine ⟨fun n hn => ?_, ?_, List.nodup_singleton _⟩
    · obtain rfl := List.mem_singleton.1 hn
      exact ⟨Nat.zero_lt_one, rfl⟩
    · exact ascending_cons.2 ⟨by show 1 ≤ 4; omega, by simp, .nil⟩
  linked n hn := by
    obtain rfl := List.mem_singleton.1 hn
    exact ⟨rfl, rfl⟩
  list := .refl _

theorem svmRangeIsValid_userMm {start size : ℕ} (h₁ : 0 < start) (h₂ : 0 < size)
    (h₃ : start + size ≤ 1024) : svmRangeIsValid userMm start size = true := by
  have hu : ∀ n ≤ 1024, u64 (n <<< PAGE_SHIFT) = n * 4096 := fun n hn => by
    rw [Nat.shiftLeft_eq]
    exact u64_of_lt (by unfold PAGE_SHIFT; omega)
  rw [svmRangeIsValid, hu start (by omega), hu size (by omega), u64_of_lt (by omega)]
  refine @validFrom_of_area _ _ _ ⟨4096, 4096 * 1024, false⟩ ?_ ?_ rfl ?_
  · rw [findVma, userMm, List.find?_cons_of_pos]
    simp only [decide_eq_true_eq]
    omega
  all_goals
    dsimp only
    omega

/-- A request for a part of the registered range and two pages behind it: the range is split. -/
theorem setAttr_carriedOut_iff_split :
    CarriedOut (svmRangeApplyAttrs cpuProcess [⟨.prefetchLoc, 0⟩]) (defaultAttrs cpuProcess) 3 6
      (oneRange (defaultAttrs cpuProcess)).segs
      (svmRangeSetAttr cpuProcess userMm (oneRange (defaultAttrs cpuProcess)) 3 4
        [⟨.prefetchLoc, 0⟩]).2.segs := by
  have h : svmRangeSetAttr cpuProcess userMm (oneRange (defaultAttrs cpuProcess)) 3 4
      [⟨.prefetchLoc, 0⟩] = (none, (svmRangeSetAttr cpuProcess userMm
        (oneRange (defaultAttrs cpuProcess)) 3 4 [⟨.prefetchLoc, 0⟩]).2) := by
    unfold svmRangeSetAttr
    rw [svmRangeIsValid_userMm (by decide) (by decide) (by decide)]
    rfl
  refine (setAttr_carriedOut_iff (registered_oneRange _) (by decide) (by decide) h).2 ?_
  intro n hn _ _
  obtain rfl := List.mem_singleton.1 hn
  exact ⟨by decide, by decide⟩

/-- The attributes of a range that was told where to prefetch to. -/
def prefetched : SvmAttrs := { defaultAttrs cpuProcess with prefetch_loc := 0 }

/-- A request that names a preferred location, and the other three attributes as they are. -/
def preferSysmem : List SvmAttribute :=
  [⟨.prefetchLoc, 0⟩, ⟨.setFlags, 3⟩, ⟨.granularity, 9⟩, ⟨.preferredLoc, 0⟩]

/-- **A request that is lost.**  The three attributes `svm_range_is_same_attrs` compares are the
range's own already, so the fourth one is not applied. -/
theorem same_attrs_loses_request :
    ∃ p mm s t start size attrs, Registered s ∧ 0 < start ∧ 0 < size ∧
      svmRangeSetAttr p mm s start size attrs = (none, t) ∧
      ¬CarriedOut (svmRangeApplyAttrs p attrs) (defaultAttrs p) start (start + size - 1)
        s.segs t.segs := by
  have h : svmRangeSetAttr cpuProcess userMm (oneRange prefetched) 1 4 preferSysmem =
      (none, oneRange prefetched) := by
    unfold svmRangeSetAttr
    rw [svmRangeIsValid_userMm (by decide) (by decide) (by decide)]
    rfl
  refine ⟨_, _, _, _, _, _, _, registered_oneRange prefetched, by decide, by decide, h,
    fun hc => ?_⟩
  have hat : At (oneRange prefetched).segs 1 prefetched :=
    ⟨⟨1, 4, prefetched⟩, List.mem_singleton.2 rfl, ⟨Nat.le_refl _, by show 1 ≤ 4; omega⟩, rfl⟩
  rcases (hc.inside 1 prefetched (by decide) (by decide)).1 hat with ⟨y, ⟨a, ha, -, rfl⟩, he⟩ | hno
  · obtain rfl := List.mem_singleton.1 ha
    exact absurd he (by decide)
  · exact hno.1 _ hat

end Codrive.Svm
