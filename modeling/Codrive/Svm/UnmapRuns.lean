/-
# Notifications, one after the other

A registered range and its children tile the interval it was registered with (`Parts`), and between
two notifications each of them fits the pages that were unmapped so far (`RangeOk`).  The loop over
the children keeps that (`unmapChildren_ok`) and comes to an end (`unmapChildren_ends`); so does the
whole of `svm_range_unmap_from_cpu` (`RangeOk.unmapFromCpu`), and a run of notifications
(`Notified.run`).
-/

import Codrive.Svm.UnmapSpec

namespace Codrive.Svm

open Codrive.Basis

/-! ### The loop over the children -/

/-- **The range of the node `b` and its children**, where `m₀` is the memory in which the range was
registered: they tile the interval of the node with the attributes of the range, the children are
new, and nothing else has changed but what hangs on the range. -/
structure Parts (m₀ : Mem) (b : ItNode) (m : Mem) : Prop where
  tiles : Tiles m (b.prange :: (m.ranges b.prange).child_list) b.start b.last
    (m₀.ranges b.prange).toSvmAttrs
  next_le : m₀.next ≤ m.next
  fresh : ∀ c ∈ (m.ranges b.prange).child_list, m₀.next ≤ c
  nodes : (m.ranges b.prange).links.1 = (m₀.ranges b.prange).links.1 ∧
    (m.ranges b.prange).links.2.1 = (m₀.ranges b.prange).links.2.1
  other : ∀ j < m₀.next, j ≠ b.prange → m.ranges j = m₀.ranges j

/-- The child `c` fits the pages that were unmapped, and is to be added if it is not to be
unmapped. -/
def ChildFits (m : Mem) (unmapped : ℕ → Prop) (c : ℕ) : Prop :=
  (m.ranges c).Fits unmapped ∧ ((m.ranges c).op = .unmapRange ∨ (m.ranges c).op = .addRange)

/-- **The loop over the children, before its `k`-th turn**: the first `n` of them were there when it
began; those that it has come to, and those that are new, fit what is unmapped now. -/
structure Loop (m₀ : Mem) (b : ItNode) (unmapped unmapped' : ℕ → Prop) (n k : ℕ) (m : Mem) : Prop
    extends Parts m₀ b m where
  fits : ∀ j c, (m.ranges b.prange).child_list[j]? = some c →
    ChildFits m unmapped' c ∨ (k ≤ j ∧ j < n) ∧ ChildFits m unmapped c

section

variable {p : OpuProcess} {m₀ m m' : Mem} {b : ItNode} {c start last n k turns : ℕ}
  {new : List ℕ} {unmapped unmapped' : ℕ → Prop}

theorem Parts.self_lt (h : Parts m₀ b m) : b.prange < m.next := h.tiles.lt _ List.mem_cons_self

theorem Parts.step (h : Parts m₀ b m) (hc : c ∈ b.prange :: (m.ranges b.prange).child_list)
    (hs : UnmapStep m b.prange c start last new m') : Parts m₀ b m' := by
  refine ⟨hs.tiles hc h.tiles, Nat.le_trans h.next_le hs.next_le, fun d hd => ?_, ?_,
    fun j hj hjb => ?_⟩
  · rw [hs.child_list h.self_lt] at hd
    rcases List.mem_append.1 hd with hd | hd
    · exact h.fresh d hd
    · exact Nat.le_trans h.next_le (hs.fresh d hd)
  · rw [hs.parent h.self_lt]
    exact h.nodes
  · have hjc : j ≠ c := by
      rcases List.mem_cons.1 hc with rfl | hc
      · exact hjb
      · have := h.fresh c hc
        omega
    rw [hs.other (Nat.lt_of_lt_of_le hj h.next_le) hjb hjc, h.other j hj hjb]

/-- **One turn of the loop.** -/
theorem Loop.step (hu : ∀ v, unmapped' v ↔ unmapped v ∨ start ≤ v ∧ v ≤ last)
    (h : Loop m₀ b unmapped unmapped' n k m)
    (hk : (m.ranges b.prange).child_list[k]? = some c)
    (hs : UnmapStep m b.prange c start last new m') :
    Loop m₀ b unmapped unmapped' n (k + 1) m' ∧ (k < n ∨ new = []) := by
  have hc : c ∈ (m.ranges b.prange).child_list := List.mem_of_getElem? hk
  have hlt := fun d hd => h.tiles.lt d (List.mem_cons_of_mem _ hd)
  obtain ⟨hni, -⟩ := List.nodup_cons.1 h.tiles.nodup
  -- a child that the step does not touch
  have hother : ∀ j d, (m.ranges b.prange).child_list[j]? = some d → d ≠ c →
      ChildFits m unmapped' d ∨ (k + 1 ≤ j ∧ j < n) ∧ ChildFits m unmapped d := fun j d hd hdc =>
    (h.fits j d hd).imp_right fun ⟨hj, hf⟩ => by
      have hjk : j ≠ k := by
        rintro rfl
        exact hdc (Option.some.inj (hd.symm.trans hk))
      exact ⟨by omega, hf⟩
  rcases h.fits k c hk with hf | ⟨hkn, hf, hopc⟩
  · obtain ⟨rfl, rfl⟩ := hs.eq_of_fits (h.tiles.nonempty c (List.mem_cons_of_mem _ hc))
      (fun v hv => (hu v).2 (.inr hv)) hf.1
    refine ⟨⟨h.toParts, fun j d hd => ?_⟩, .inr rfl⟩
    by_cases hdc : d = c
    · exact .inl (hdc ▸ hf)
    · exact hother j d hd hdc
  obtain ⟨hself, hop⟩ := (hs.fits_self h.self_lt (hlt c hc) hu hf).resolve_right
    fun hic => hni (hic.1 ▸ hc)
  refine ⟨⟨h.toParts.step (List.mem_cons_of_mem _ hc) hs, fun j d hd => ?_⟩, .inl hkn.2⟩
  rw [hs.child_list h.self_lt, List.getElem?_append] at hd
  split_ifs at hd
  · by_cases hdc : d = c
    · rw [hdc]
      exact .inl ⟨hself, hop.elim .inl fun hop => hop ▸ hopc⟩
    · have hd' := List.mem_of_getElem? hd
      unfold ChildFits
      rw [hs.other (hlt d hd') (fun he => hni (he ▸ hd')) hdc]
      exact hother j d hd hdc
  · exact .inl (hs.fits_new h.self_lt hu hf d (List.mem_of_getElem? hd))

/-- **The loop**: at its end all the children fit. -/
theorem unmapChildren_ok (hq : start ≤ last)
    (hu : ∀ v, unmapped' v ↔ unmapped v ∨ start ≤ v ∧ v ≤ last)
    (h : Loop m₀ b unmapped unmapped' n k m)
    (hrun : unmapChildren p b.prange start last turns k m = some m') :
    Parts m₀ b m' ∧ (∀ c ∈ (m'.ranges b.prange).child_list, ChildFits m' unmapped' c) ∧
      (m'.ranges b.prange).seg = (m.ranges b.prange).seg ∧
      (m'.ranges b.prange).op = (m.ranges b.prange).op := by
  induction turns generalizing k m with
  | zero => cases hrun
  | succ turns ih =>
    rw [unmapChildren] at hrun
    split at hrun
    · -- there is no child left
      rename_i hk
      obtain rfl := Option.some.inj hrun
      refine ⟨h.toParts, fun c hc => ?_, rfl, rfl⟩
      have hlength := List.getElem?_eq_none_iff.1 hk
      obtain ⟨j, hj⟩ := List.getElem?_of_mem hc
      have hj' := (List.getElem?_eq_some_iff.1 hj).1
      refine (h.fits j c hj).resolve_right fun hjk => ?_
      have := hjk.1
      omega
    · rename_i c hk
      obtain ⟨m₁, hsplit, hrun⟩ := Option.bind_eq_some_iff.1 hrun
      have hc : c ∈ (m.ranges b.prange).child_list := List.mem_of_getElem? hk
      have hbc : b.prange ≠ c := fun he => (List.nodup_cons.1 h.tiles.nodup).1 (he ▸ hc)
      obtain ⟨new, hs⟩ :=
        svmRangeUnmapSplit_step (h.tiles.lt c (List.mem_cons_of_mem _ hc)) hq hsplit
      obtain ⟨hparts, hfits, hseg, hop⟩ := ih (h.step hu hk hs).1 hrun
      exact ⟨hparts, hfits, hseg.trans (hs.parent_seg h.self_lt hbc),
        hop.trans (congrArg (·.2.2.1) (hs.parent h.self_lt))⟩

end

/-! ### When all allocations succeed -/

section

variable {p : OpuProcess} {m₀ m : Mem} {b : ItNode} {i c start last n k turns : ℕ}
  {unmapped unmapped' : ℕ → Prop}

theorem answer_splitPagesLoop {new old npages : ℕ} {gpus : List ℕ} (h : ∀ j, m.answer j = true)
    (j : ℕ) : (splitPagesLoop new old npages gpus m).2.answer j = true := by
  induction gpus generalizing m with
  | nil => exact h j
  | cons i gpus ih =>
    rw [splitPagesLoop_cons]
    split
    · exact ih h
    · rename_i l _
      rw [if_neg (by simp [h]), if_neg (by simp [h])]
      refine @ih (m.afterSplit new old npages i l) fun j => ?_
      rw [Mem.answer_afterSplit, h]

/-- A split succeeds. -/
theorem svmRangeSplit_succeeds (hi : i < m.next) (hs : (m.ranges i).SplitPoint start last)
    (h : ∀ j, m.answer j = true) :
    ∃ n m', svmRangeSplit p i start last m = (.ok n, m') ∧ ∀ j, m'.answer j = true := by
  obtain ⟨m₁, hprep, heq⟩ := @svmRangeSplit_prepared m start last p i hs (by simp [h])
  have h₁ : ∀ j, m₁.answer j = true := fun j => (hprep.answer j).trans (h _)
  have hne : m.next ≠ i := by omega
  have hloop := (@splitPagesLoop_none_iff m₁ m.next i (last - start + 1)
    (List.range MAX_GPU_INSTANCE) hne List.nodup_range).2 fun j _ => h₁ j
  have hanswer := @answer_splitPagesLoop m₁ m.next i (last - start + 1)
    (List.range MAX_GPU_INSTANCE) h₁
  have hinterval := hprep.newFor.interval
  rw [heq]
  unfold svmRangeSplitAdjust svmRangeSplitPages
  rw [if_neg]
  · rcases hrun : splitPagesLoop m.next i (last - start + 1) (List.range MAX_GPU_INSTANCE) m₁ with
      ⟨_ | e, m₂⟩
    · rw [hrun] at hanswer
      refine ⟨_, _, rfl, fun j => ?_⟩
      show (if _ then _ else m₂ : Mem).answer j = true
      split_ifs
      · unfold Mem.answer
        rw [allocs_svmRangeSplitNodes]
        exact hanswer j
      · exact hanswer j
    · rw [hrun] at hloop
      cases hloop
  · rw [hprep.made.of_lt hi]
    unfold SvmRange.lost at hinterval
    unfold SvmRange.SplitPoint at hs
    split_ifs at hinterval
    all_goals
      obtain ⟨h₂, h₃⟩ := Prod.mk.inj hinterval
      omega

/-- A call gets through. -/
theorem svmRangeUnmapSplit_succeeds (hc : c < m.next)
    (hle : (m.ranges c).start ≤ (m.ranges c).last) (hq : start ≤ last)
    (h : ∀ j, m.answer j = true) :
    ∃ m', svmRangeUnmapSplit p m i c start last = some m' ∧ ∀ j, m'.answer j = true := by
  unfold svmRangeUnmapSplit
  dsimp only
  by_cases hop : (m.ranges c).op = .unmapRange
  · rw [if_pos hop]
    exact ⟨_, rfl, h⟩
  rw [if_neg hop]
  by_cases hmeet : start > (m.ranges c).last ∨ last < (m.ranges c).start
  · rw [if_pos hmeet]
    exact ⟨_, rfl, h⟩
  rw [if_neg hmeet]
  -- the tail, whether it is split off or not
  obtain ⟨t, m₁, htail, h₁, ht, hstart, hlast, hle'⟩ : ∃ t m₁,
      (if start > (m.ranges c).start then svmRangeSplit p c (m.ranges c).start (start - 1) m
        else (.ok c, m)) = (.ok t, m₁) ∧ (∀ j, m₁.answer j = true) ∧ t < m₁.next ∧
      (m₁.ranges t).start = max start (m.ranges c).start ∧
      (m₁.ranges t).last = (m.ranges c).last ∧ (m₁.ranges t).start ≤ (m₁.ranges t).last := by
    split_ifs with hst
    · have hx : (m.ranges c).SplitPoint (m.ranges c).start (start - 1) :=
        .inl ⟨rfl, by omega, by omega⟩
      obtain ⟨t, m₁, hsplit, h₁⟩ := @svmRangeSplit_succeeds p m c _ _ hc hx h
      obtain ⟨hs, -, -, h₃⟩ := splitOff hc hx hsplit
      have := hs.fresh
      have := hs.next
      exact ⟨t, m₁, hsplit, h₁, by omega, by omega, by omega, by omega⟩
    · exact ⟨c, m, rfl, h, hc, by omega, rfl, hle⟩
  rw [htail]
  dsimp only
  obtain ⟨k, m₂, hhead, h₂⟩ : ∃ k m₂,
      (if last < (m₁.ranges t).last then svmRangeSplit p t (last + 1) (m₁.ranges t).last m₁
        else (.ok c, m₁)) = (.ok k, m₂) ∧ ∀ j, m₂.answer j = true := by
    split_ifs with hst
    · exact svmRangeSplit_succeeds ht (.inr ⟨rfl, by omega, by omega⟩) h₁
    · exact ⟨c, m₁, rfl, h₁⟩
  rw [hhead]
  dsimp only
  split_ifs
  all_goals exact ⟨_, rfl, h₂⟩

/-- **The loop comes to its end**: only children that were there when it began add others, two at
most. -/
theorem unmapChildren_ends (hq : start ≤ last)
    (hu : ∀ v, unmapped' v ↔ unmapped v ∨ start ≤ v ∧ v ≤ last)
    (h : Loop m₀ b unmapped unmapped' n k m)
    (hturns : 2 * (n - k) + ((m.ranges b.prange).child_list.length - k) < turns)
    (hanswer : ∀ j, m.answer j = true) :
    ∃ m', unmapChildren p b.prange start last turns k m = some m' ∧ ∀ j, m'.answer j = true := by
  induction turns generalizing k m with
  | zero => omega
  | succ turns ih =>
    rw [unmapChildren]
    cases hk : (m.ranges b.prange).child_list[k]? with
    | none => exact ⟨m, rfl, hanswer⟩
    | some c =>
      have hc := List.mem_cons_of_mem b.prange (List.mem_of_getElem? hk)
      have hc' := h.tiles.lt c hc
      obtain ⟨m₁, hsplit, h₁⟩ := @svmRangeUnmapSplit_succeeds p m b.prange c start last hc'
        (h.tiles.nonempty c hc) hq hanswer
      obtain ⟨new, hs⟩ := svmRangeUnmapSplit_step hc' hq hsplit
      obtain ⟨hloop, hnew⟩ := h.step hu hk hs
      have hlength := hs.length_le
      have hkn := (List.getElem?_eq_some_iff.1 hk).1
      obtain ⟨m', hrun, h'⟩ := ih hloop (by
        rw [hs.child_list h.self_lt, List.length_append]
        rcases hnew with hkn | rfl
        · omega
        · simp only [List.length_nil]
          omega) h₁
      refine ⟨m', ?_, h'⟩
      dsimp only
      rw [hsplit]
      exact hrun

end

/-! ### One notification -/

/-- **The range between notifications**: it and its children fit the pages that were unmapped. -/
structure RangeOk (m₀ : Mem) (b : ItNode) (unmapped : ℕ → Prop) (m : Mem) : Prop
    extends Parts m₀ b m where
  self : (m.ranges b.prange).Fits unmapped
  children : ∀ c ∈ (m.ranges b.prange).child_list, ChildFits m unmapped c

section

variable {p : OpuProcess} {m₀ m : Mem} {s t : Svms} {b : ItNode} {start last : ℕ}
  {unmapped unmapped' : ℕ → Prop}

/-- **`svm_range_add_list_work`**: work that is to unmap a range stays so. -/
theorem svmRangeAddListWork_ok (s : Svms) (i : ℕ) (op : WorkOp) (hop : op ≠ .null) :
    ∃ ranges, svmRangeAddListWork s i op = { s with
        mem := { s.mem with ranges }
        deferred_range_list := if i ∈ s.deferred_range_list then s.deferred_range_list
          else s.deferred_range_list ++ [i] } ∧
      (∀ j, j ≠ i → ranges j = s.mem.ranges j) ∧
      ranges i = { s.mem.ranges i with
        op := if i ∈ s.deferred_range_list ∧ (s.mem.ranges i).op = .unmapRange then .unmapRange
          else op } := by
  unfold svmRangeAddListWork
  by_cases hi : i ∈ s.deferred_range_list
  · by_cases hu : (s.mem.ranges i).op = .unmapRange
    · rw [if_pos hi, if_neg (by simp [hu]), if_pos hi, if_pos ⟨hi, hu⟩, ← hu]
      exact ⟨_, rfl, fun _ _ => rfl, rfl⟩
    · rw [if_pos hi, if_pos ⟨hop, hu⟩, if_pos hi, if_neg (by simp [hu])]
      exact ⟨_, rfl, fun j hj => Function.update_of_ne hj .., Function.update_self ..⟩
  · rw [if_neg hi, if_neg hi, if_neg (by simp [hi])]
    exact ⟨_, rfl, fun j hj => Function.update_of_ne hj .., Function.update_self ..⟩

/-- The loop begins. -/
theorem RangeOk.loop (h : RangeOk m₀ b unmapped m) : Loop m₀ b unmapped unmapped'
    (m.ranges b.prange).child_list.length 0 m where
  toParts := h.toParts
  fits _ c hj := .inr ⟨⟨Nat.zero_le _, (List.getElem?_eq_some_iff.1 hj).1⟩,
    h.children c (List.mem_of_getElem? hj)⟩

/-- **`svm_range_unmap_from_cpu`**: the range and its children fit what is unmapped now. -/
theorem RangeOk.unmapFromCpu (h : RangeOk m₀ b unmapped s.mem)
    (hidle : b.prange ∉ s.deferred_range_list → (s.mem.ranges b.prange).op ≠ .unmapRange)
    (hq : start ≤ last) (hu : ∀ v, unmapped' v ↔ unmapped v ∨ start ≤ v ∧ v ≤ last)
    (hrun : svmRangeUnmapFromCpu p s b.prange start last = some t) :
    RangeOk m₀ b unmapped' t.mem ∧ t.objects = s.objects ∧ t.list = s.list ∧
      t.deferred_range_list = (if b.prange ∈ s.deferred_range_list then s.deferred_range_list
        else s.deferred_range_list ++ [b.prange]) ∧
      ((t.mem.ranges b.prange).op = .unmapRange ∨
        (t.mem.ranges b.prange).op = .updateRangeNotifier) := by
  unfold svmRangeUnmapFromCpu at hrun
  obtain ⟨m₁, hchildren, hrun⟩ := Option.bind_eq_some_iff.1 hrun
  obtain ⟨m₂, hsplit, hrun⟩ := Option.bind_eq_some_iff.1 hrun
  obtain rfl := Option.some.inj hrun
  obtain ⟨hparts, hkids, hseg, hop₁⟩ := unmapChildren_ok hq hu h.loop hchildren
  have hlt := hparts.self_lt
  obtain ⟨new, hs⟩ := svmRangeUnmapSplit_step hlt hq hsplit
  have hop₂ : (m₂.ranges b.prange).op = (s.mem.ranges b.prange).op :=
    (congrArg (·.2.2.1) (hs.parent hlt)).trans hop₁
  have hlist := hs.child_list hlt
  have hparts₂ := hparts.step List.mem_cons_self hs
  -- the loop has left the range itself as it was
  have hf : (m₁.ranges b.prange).Fits unmapped := by
    unfold SvmRange.Fits
    rw [has_of_seg hseg, hop₁]
    exact h.self
  have hstart : (m₁.ranges b.prange).start = (s.mem.ranges b.prange).start :=
    congrArg Seg.start hseg
  have hlast : (m₁.ranges b.prange).last = (s.mem.ranges b.prange).last := congrArg Seg.last hseg
  obtain ⟨ranges, hwork, hother, hself⟩ := svmRangeAddListWork_ok { s with mem := m₂ } b.prange
    (if start ≤ (s.mem.ranges b.prange).start ∧ last ≥ (s.mem.ranges b.prange).last
      then .unmapRange else .updateRangeNotifier) (by split_ifs <;> simp)
  dsimp only at hwork hother hself ⊢
  rw [hwork]
  have hlist' : (ranges b.prange).child_list = (m₁.ranges b.prange).child_list ++ new := by
    rw [hself, hlist]
  have hseg' : ∀ c, (ranges c).seg = (m₂.ranges c).seg := by
    intro c
    by_cases hc : c = b.prange
    · rw [hc, hself]
      rfl
    · rw [hother c hc]
  refine ⟨⟨⟨?_, hparts₂.next_le, ?_, ?_, ?_⟩, ?_, ?_⟩, rfl, rfl, rfl, ?_⟩
  · have htiles := hparts₂.tiles
    rw [hlist] at htiles
    dsimp only
    rw [hlist']
    exact htiles.congr (fun c _ => hseg' c) (Nat.le_refl _)
  · have hfresh := hparts₂.fresh
    rw [hlist] at hfresh
    dsimp only
    rwa [hlist']
  · have hnodes := hparts₂.nodes
    dsimp only
    rw [hself]
    exact hnodes
  · intro j hj hjb
    exact (hother j hjb).trans (hparts₂.other j hj hjb)
  · dsimp only
    rw [hself, hop₂]
    by_cases hop : (s.mem.ranges b.prange).op = .unmapRange
    · -- it was to be unmapped before, and stays so
      have hi : b.prange ∈ s.deferred_range_list := by
        by_contra hi
        exact hidle hi hop
      obtain ⟨(⟨-, hall⟩ | ⟨hop', -⟩), -⟩ := (hs.fits_self hlt hlt hu hf).resolve_right
        fun hall => hall.2.1 (hop₁.trans hop)
      · rw [if_pos ⟨hi, hop⟩]
        exact .inl ⟨rfl, hall⟩
      · exact absurd (hop₂.trans hop) hop'
    · rw [if_neg fun h => hop h.2]
      rcases hs.fits_self hlt hlt hu hf with ⟨hfit, -⟩ | ⟨-, -, hall, rfl⟩
      · -- a part of it stays, and none of that was unmapped
        obtain ⟨hop', -⟩ | ⟨-, hnone⟩ := hfit
        · exact absurd (hop₂.symm.trans hop') hop
        · have hpart := hparts₂.tiles.nonempty b.prange List.mem_cons_self
          have hv := hs.has_of_has hlt hlt ⟨Nat.le_refl _, hpart⟩
          rw [if_neg fun hall => hnone _ ⟨Nat.le_refl _, hpart⟩ ((hu _).2 (.inr ?_))]
          · exact .inr ⟨by simp, hnone⟩
          · unfold SvmRange.Has at hv
            omega
      · rw [if_pos (by omega)]
        refine .inl ⟨rfl, fun v hv => (hu v).2 (.inr ?_)⟩
        have hv : (m₂.ranges b.prange).Has v := hv
        unfold SvmRange.Has at hv
        omega
  · -- the children, those that were there and those that the call for the range itself has added
    intro c hc
    dsimp only at hc
    rw [hlist'] at hc
    have hcb : c ≠ b.prange := by
      have hnotin := (List.nodup_cons.1 hparts₂.tiles.nodup).1
      rw [hlist] at hnotin
      exact fun he => hnotin (he ▸ hc)
    unfold ChildFits
    dsimp only
    rw [hother c hcb]
    rcases List.mem_append.1 hc with hc | hc
    · rw [hs.other (hparts.tiles.lt c (List.mem_cons_of_mem _ hc)) hcb hcb]
      exact hkids c hc
    · exact hs.fits_new hlt hu hf c hc
  · dsimp only
    rw [hself]
    dsimp only
    split_ifs <;> simp

/-- It gets through when all allocations succeed. -/
theorem RangeOk.unmapFromCpu_succeeds (h : RangeOk m₀ b unmapped s.mem) (hq : start ≤ last)
    (hu : ∀ v, unmapped' v ↔ unmapped v ∨ start ≤ v ∧ v ≤ last)
    (hanswer : ∀ j, s.mem.answer j = true) :
    ∃ t, svmRangeUnmapFromCpu p s b.prange start last = some t ∧ ∀ j, t.mem.answer j = true := by
  obtain ⟨m₁, hchildren, h₁⟩ : ∃ m₁, unmapChildren p b.prange start last
      (3 * (s.mem.ranges b.prange).child_list.length + 1) 0 s.mem = some m₁ ∧
      ∀ j, m₁.answer j = true :=
    unmapChildren_ends hq hu h.loop (by omega) hanswer
  obtain ⟨hparts, -⟩ := unmapChildren_ok hq hu h.loop hchildren
  obtain ⟨m₂, hsplit, h₂⟩ := @svmRangeUnmapSplit_succeeds p m₁ b.prange b.prange start last
    hparts.self_lt (hparts.tiles.nonempty _ List.mem_cons_self) hq h₁
  refine ⟨svmRangeAddListWork { s with mem := m₂ } b.prange
    (if start ≤ (s.mem.ranges b.prange).start ∧ last ≥ (s.mem.ranges b.prange).last
      then .unmapRange else .updateRangeNotifier), ?_, fun j => ?_⟩
  · unfold svmRangeUnmapFromCpu
    dsimp only
    rw [hchildren, Option.bind_some, hsplit, Option.bind_some]
  · obtain ⟨ranges, hwork, -⟩ := svmRangeAddListWork_ok { s with mem := m₂ } b.prange
      (if start ≤ (s.mem.ranges b.prange).start ∧ last ≥ (s.mem.ranges b.prange).last
        then .unmapRange else .updateRangeNotifier) (by split_ifs <;> simp)
    rw [hwork]
    exact h₂ j

end

/-! ### Runs of notifications -/

/-- No work is pending, none is left over at the registered range of `b`, and its notifier has its
interval. -/
structure Idle (s : Svms) (b : ItNode) : Prop where
  deferred : s.deferred_range_list = []
  child_list : (s.mem.ranges b.prange).child_list = []
  op : (s.mem.ranges b.prange).op ≠ .unmapRange
  notifier : (s.mem.ranges b.prange).notifier_start >>> PAGE_SHIFT = b.start ∧
    (s.mem.ranges b.prange).notifier_last >>> PAGE_SHIFT = b.last

/-- The notification is clipped to the interval of the range. -/
def UnmapEvent.Within (q : UnmapEvent) (b : ItNode) : Prop :=
  b.start ≤ q.start ∧ q.start ≤ q.last ∧ q.last ≤ b.last

/-- Page `v` was unmapped. -/
def Unmapped (l : List UnmapEvent) (v : ℕ) : Prop := ∃ q ∈ l, q.start ≤ v ∧ v ≤ q.last

/-- **From `s` the notifications `l` for the range of `b` led to `t`**, and no deferred work was
done. -/
structure Notified (s : Svms) (b : ItNode) (t : Svms) (l : List UnmapEvent) : Prop where
  ok : RangeOk s.mem b (Unmapped l) t.mem
  objects : t.objects = s.objects
  list : t.list = s.list
  deferred : t.deferred_range_list = if l = [] then [] else [b.prange]
  op : l ≠ [] → (t.mem.ranges b.prange).op = .unmapRange ∨
    (t.mem.ranges b.prange).op = .updateRangeNotifier

section

variable {p : OpuProcess} {s t t' : Svms} {b : ItNode} {l l' : List UnmapEvent} {q : UnmapEvent}

/-- Nothing was unmapped yet. -/
theorem Idle.notified (h : Idle s b) (hs : Registered s) (hb : b ∈ s.objects) :
    Notified s b s [] := by
  obtain ⟨hlt, hseg⟩ := hs.nodes.ok b hb
  have hstart : (s.mem.ranges b.prange).start = b.start := congrArg Seg.start hseg
  have hlast : (s.mem.ranges b.prange).last = b.last := congrArg Seg.last hseg
  have hle : b.start ≤ b.last := hs.nodes.ascending.nonempty _ (List.mem_map_of_mem hb)
  have hhas : (s.mem.ranges b.prange).Has = fun v => b.start ≤ v ∧ v ≤ b.last := by
    unfold SvmRange.Has
    rw [hstart, hlast]
  refine ⟨⟨⟨?_, Nat.le_refl _, by simp [h.child_list], ⟨rfl, rfl⟩, fun _ _ _ => rfl⟩,
    .inr ⟨h.op, by simp [Unmapped]⟩, by simp [h.child_list]⟩, rfl, rfl, h.deferred, by simp⟩
  rw [h.child_list]
  refine ⟨by simpa using hlt, by simp, by simpa [hstart, hlast] using hle, ?_, by simp⟩
  rw [List.map_singleton, hhas]
  exact .single _

theorem unmapped_append (v : ℕ) :
    Unmapped (l ++ [q]) v ↔ Unmapped l v ∨ q.start ≤ v ∧ v ≤ q.last := by
  simp [Unmapped, or_and_right, exists_or]

/-- **One more notification.** -/
theorem Notified.step (h : Notified s b t l) (hq : q.Within b)
    (hrun : svmRangeUnmapFromCpu p t b.prange q.start q.last = some t') :
    Notified s b t' (l ++ [q]) := by
  have hidle : b.prange ∉ t.deferred_range_list → (t.mem.ranges b.prange).op ≠ .unmapRange := by
    rw [h.deferred]
    split_ifs with hl
    · intro _ hop
      rcases h.ok.self with ⟨-, hall⟩ | ⟨hop', -⟩
      · have hle := h.ok.tiles.nonempty b.prange List.mem_cons_self
        obtain ⟨q, hq, -⟩ := hall _ ⟨Nat.le_refl _, hle⟩
        rw [hl] at hq
        cases hq
      · exact hop' hop
    · exact fun hi => absurd (List.mem_singleton_self _) hi
  obtain ⟨hok, hobjects, hlist, hdeferred, hop⟩ :=
    h.ok.unmapFromCpu hidle hq.2.1 unmapped_append hrun
  refine ⟨hok, hobjects.trans h.objects, hlist.trans h.list, ?_, fun _ => hop⟩
  rw [hdeferred, h.deferred, if_neg (show l ++ [q] ≠ [] by simp)]
  split_ifs <;> simp_all

/-- **A run of notifications.** -/
theorem Notified.run (h : Notified s b t l) (hl : ∀ q ∈ l', q.Within b)
    (hrun : unmapAll p b.prange l' t = some t') : Notified s b t' (l ++ l') := by
  induction l' generalizing t l with
  | nil =>
    obtain rfl := Option.some.inj hrun
    rwa [List.append_nil]
  | cons q l' ih =>
    obtain ⟨t₁, hq, hrun⟩ := Option.bind_eq_some_iff.1 hrun
    obtain ⟨hqs, hl⟩ := List.forall_mem_cons.1 hl
    have h' := ih (h.step hqs hq) hl hrun
    rwa [List.append_assoc] at h'

/-- A run gets through when all allocations succeed. -/
theorem Notified.run_succeeds (h : Notified s b t l) (hl : ∀ q ∈ l', q.Within b)
    (hanswer : ∀ j, t.mem.answer j = true) : ∃ t', unmapAll p b.prange l' t = some t' := by
  induction l' generalizing t l with
  | nil => exact ⟨t, rfl⟩
  | cons q l' ih =>
    obtain ⟨hqs, hl⟩ := List.forall_mem_cons.1 hl
    obtain ⟨t₁, hq, h₁⟩ :=
      @RangeOk.unmapFromCpu_succeeds p _ t b _ _ _ _ h.ok hqs.2.1 unmapped_append hanswer
    obtain ⟨t', hrun⟩ := ih (h.step hqs hq) hl h₁
    refine ⟨t', ?_⟩
    rw [unmapAll, hq]
    exact hrun

end

end Codrive.Svm
