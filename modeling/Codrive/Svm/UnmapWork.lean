/-
# The registered pages after the deferred work

Halfway through the deferred work the tree has what the ranges done so far have left in it, and what
it had before (`Midway`): a child that is to be added is, another one is freed, and the range itself
is taken out or gets a new node.  That goes wrong at page 0 only: a node that starts there is taken
for one that is not in the tree.  At the end the registered pages are those that were registered and
were not unmapped, with the attributes they had (`unmapped_pages_gone`).
-/

import Codrive.Svm.CarriedOut
import Codrive.Svm.UnmapRuns

namespace Codrive.Svm

open Codrive.Basis

/-- The ranges of a list that are not to be unmapped. -/
def alive (m : Mem) (cs : List ℕ) : List ℕ := cs.filter fun c => (m.ranges c).op ≠ .unmapRange

/-- **The deferred work of `t` has led to `s`**: the ranges `done` are done, and the nodes `nodes`
of the tree have not changed. -/
structure Midway (t : Svms) (nodes : List ItNode) (done : List ℕ) (s : Svms) : Prop where
  objects : s.objects.Perm ((alive t.mem done).map (.of t.mem) ++ nodes)
  list : s.list.Perm (alive t.mem done ++ nodes.map (·.prange))
  next : s.mem.next = t.mem.next
  seg : ∀ j, (s.mem.ranges j).seg = (t.mem.ranges j).seg
  waiting : ∀ j ∉ done, (s.mem.ranges j).op = (t.mem.ranges j).op ∧
    (s.mem.ranges j).links.2.1 = (t.mem.ranges j).links.2.1
  linked : ∀ b ∈ s.objects, (s.mem.ranges b.prange).it_start = b.start ∧
    (s.mem.ranges b.prange).it_last = b.last
  sorted : s.objects.Pairwise fun b d => b.start ≤ d.start

section

variable {p : OpuProcess} {s t : Svms} {b : ItNode} {X nodes nodes' : List ItNode}
  {done cs : List ℕ} {i k : ℕ}

theorem of_congr {m m' : Mem} (h : (m'.ranges k).seg = (m.ranges k).seg) :
    ItNode.of m' k = .of m k := by
  have h₁ : (m'.ranges k).start = (m.ranges k).start := congrArg Seg.start h
  have h₂ : (m'.ranges k).last = (m.ranges k).last := congrArg Seg.last h
  rw [ItNode.of, ItNode.of, h₁, h₂]

/-- A range that is not done has no node but those that have not changed. -/
theorem Midway.mem_of_prange (h : Midway t nodes done s) (hk : k ∉ done) (hb : b ∈ s.objects)
    (hbk : b.prange = k) : b ∈ nodes := by
  refine (List.mem_append.1 (h.objects.mem_iff.1 hb)).resolve_left fun hb => ?_
  obtain ⟨c, hc, rfl⟩ := List.mem_map.1 hb
  exact hk (hbk ▸ List.mem_of_mem_filter hc)

/-- **A child is added.** -/
theorem Midway.add (h : Midway t nodes done s) (hk : k ∉ done)
    (hk' : ∀ b ∈ nodes, b.prange ≠ k) (hop : (t.mem.ranges k).op ≠ .unmapRange) :
    Midway t nodes (done ++ [k]) (svmRangeAddNotifierLocked (svmRangeAddToSvms s k) k) := by
  obtain ⟨h₁, h₂, h₃, h₄, h₅, h₆, h₇⟩ := addRange_ok s k
  have halive : alive t.mem (done ++ [k]) = alive t.mem done ++ [k] := by simp [alive, hop]
  generalize svmRangeAddNotifierLocked (svmRangeAddToSvms s k) k = s' at *
  have hperm : s'.objects.Perm (.of s.mem k :: s.objects) := by
    rw [h₂]
    exact perm_intervalTreeInsert ..
  refine ⟨?_, ?_, h₁.trans h.next, fun j => ?_, fun j hj => ?_, fun b hb => ?_, ?_⟩
  · rw [halive, List.map_append, List.append_assoc]
    rw [of_congr (h.seg k)] at hperm
    exact hperm.trans ((h.objects.cons _).trans List.perm_middle.symm)
  · rw [h₃, halive, List.append_assoc]
    exact (List.perm_append_singleton ..).trans ((h.list.cons _).trans List.perm_middle.symm)
  · by_cases hj : j = k
    · rw [hj, h₅, h.seg]
    · rw [h₄ j hj, h.seg]
  · rw [h₄ j fun he => hj (by simp [he])]
    exact h.waiting j fun hj' => hj (List.mem_append_left _ hj')
  · rcases List.mem_cons.1 (hperm.mem_iff.1 hb) with rfl | hb
    · exact ⟨h₆, h₇⟩
    · rw [h₄ _ fun he => hk' b (h.mem_of_prange hk hb he) he]
      exact h.linked b hb
  · rw [h₂]
    exact pairwise_intervalTreeInsert h.sorted

/-- **A range is removed.** -/
theorem Midway.removed (h : Midway t nodes done s) (hop : (t.mem.ranges k).op = .unmapRange)
    (hobjects : (removeOld p s k).objects.Perm ((alive t.mem done).map (.of t.mem) ++ nodes'))
    (hlist : (s.list.erase k).Perm (alive t.mem done ++ nodes'.map (·.prange))) :
    Midway t nodes' (done ++ [k]) (removeOld p s k) := by
  obtain ⟨h₁, h₂, h₃, h₄⟩ := removeOld_ok p s k
  have hsub : (removeOld p s k).objects.Sublist s.objects := by
    rw [h₂]
    split_ifs
    · exact List.eraseP_sublist
    · exact .refl _
  have halive : alive t.mem (done ++ [k]) = alive t.mem done := by simp [alive, hop]
  have hsame : ∀ j, ((removeOld p s k).mem.ranges j).seg = (s.mem.ranges j).seg ∧
      ((removeOld p s k).mem.ranges j).links = (s.mem.ranges j).links := fun j => by
    obtain ⟨d, t, o, c, hj⟩ := h₄ j
    rw [hj]
    exact ⟨rfl, rfl⟩
  refine ⟨halive ▸ hobjects, ?_, h₁.trans h.next, fun j => (hsame j).1.trans (h.seg j),
    fun j hj => ?_, fun b hb => ?_, h.sorted.sublist hsub⟩
  · rw [h₃, halive]
    exact hlist
  · obtain ⟨h₅, h₆⟩ := h.waiting j fun hj' => hj (List.mem_append_left _ hj')
    have hop' := congrArg (·.2.2.1) (hsame j).2
    exact ⟨hop'.trans h₅, (congrArg (·.2.1) (hsame j).2).trans h₆⟩
  · obtain ⟨h₅, h₆⟩ := Prod.mk.inj (congrArg (·.1) (hsame b.prange).2)
    rw [h₅, h₆]
    exact h.linked b (hsub.subset hb)

/-- Taking a child off the list of its parent. -/
theorem Midway.setChildren (h : Midway t nodes done s) (i : ℕ) (child_list : List ℕ) :
    Midway t nodes done
      { s with mem := s.mem.setRange i fun r => { r with child_list } } := by
  have hrange : ∀ j, ∃ c, (s.mem.setRange i fun r => { r with child_list }).ranges j =
      { s.mem.ranges j with child_list := c } := fun j => by
    by_cases hj : j = i
    · rw [hj, Mem.setRange_self]
      exact ⟨_, rfl⟩
    · rw [Mem.setRange_of_ne _ _ hj]
      exact ⟨_, rfl⟩
  refine ⟨h.objects, h.list, h.next, fun j => ?_, fun j hj => ?_, fun b hb => ?_, h.sorted⟩
  · obtain ⟨c, hc⟩ := hrange j
    dsimp only
    rw [hc]
    exact h.seg j
  · obtain ⟨c, hc⟩ := hrange j
    dsimp only
    rw [hc]
    exact h.waiting j hj
  · obtain ⟨c, hc⟩ := hrange b.prange
    dsimp only
    rw [hc]
    exact h.linked b hb

/-- **The children**: those that are not to be unmapped are added. -/
theorem Midway.handleChildren (h : Midway t nodes done s) (hcs : (done ++ cs).Nodup)
    (hnodes : ∀ b ∈ nodes, b.prange ∉ cs)
    (hop : ∀ c ∈ cs, (t.mem.ranges c).op = .unmapRange ∨ (t.mem.ranges c).op = .addRange) :
    Midway t nodes (done ++ cs) (handleChildren p i cs s) := by
  induction cs generalizing s done with
  | nil => simpa [Svm.handleChildren] using h
  | cons c cs ih =>
    obtain ⟨hopc, hop⟩ := List.forall_mem_cons.1 hop
    have hc : c ∉ done := fun hc =>
      (List.nodup_append.1 hcs).2.2 c hc c List.mem_cons_self rfl
    have hnodes' : ∀ b ∈ nodes, b.prange ≠ c := fun b hb he =>
      hnodes b hb (he ▸ List.mem_cons_self)
    have h₁ := h.setChildren i cs
    rw [Svm.handleChildren, List.append_cons]
    generalize ({ s with mem := s.mem.setRange i fun r => { r with child_list := cs } } : Svms) = s₁
      at *
    refine ih ?_ (List.append_cons .. ▸ hcs)
      (fun b hb hbc => hnodes b hb (List.mem_cons_of_mem _ hbc)) hop
    unfold svmRangeHandleListOp
    rw [(h₁.waiting c hc).1]
    rcases hopc with hopc | hopc
    · -- it was never in the tree
      rw [hopc]
      refine h₁.removed hopc ?_ ?_
      · have hremove : intervalTreeRemove c s₁.objects = s₁.objects :=
          List.eraseP_of_forall_not fun b hb => by
            simpa using fun he => hnodes' b (h₁.mem_of_prange hc hb he) he
        rw [(removeOld_ok p s₁ c).2.1, hremove, ite_self]
        exact h₁.objects
      · rw [List.erase_of_not_mem fun hc' => ?_]
        · exact h₁.list
        · rcases List.mem_append.1 (h₁.list.mem_iff.1 hc') with hc' | hc'
          · exact hc (List.mem_of_mem_filter hc')
          · obtain ⟨b, hb, hbc⟩ := List.mem_map.1 hc'
            exact hnodes' b hb hbc
    · rw [hopc]
      exact h₁.add hc hnodes' (by simp [hopc])

end

/-! ### The range itself -/

section

variable {p : OpuProcess} {s t : Svms} {b : ItNode} {X : List ItNode} {done : List ℕ}

theorem prange_ne_of_mem (hb : b.prange ∉ done) (hX : ∀ d ∈ X, d.prange ≠ b.prange) {d : ItNode}
    (hd : d ∈ (alive t.mem done).map (.of t.mem) ++ X) : d.prange ≠ b.prange := by
  rcases List.mem_append.1 hd with hd | hd
  · obtain ⟨c, hc, rfl⟩ := List.mem_map.1 hd
    exact fun he => hb (he ▸ List.mem_of_mem_filter hc)
  · exact hX d hd

/-- The tree without the old node of the range. -/
theorem Midway.tree_perm (h : Midway t (b :: X) done s) (hb : b.prange ∉ done)
    (hX : ∀ d ∈ X, d.prange ≠ b.prange) : (intervalTreeRemove b.prange s.objects).Perm
      ((alive t.mem done).map (.of t.mem) ++ X) := by
  have hother := fun d hd => @prange_ne_of_mem t b X done hb hX d hd
  have hpair : (b :: ((alive t.mem done).map (.of t.mem) ++ X)).Pairwise fun c d =>
      decide (c.prange = b.prange) = true → decide (d.prange = b.prange) = true → False := by
    refine List.pairwise_cons.2 ⟨fun d hd _ hd' => hother d hd (of_decide_eq_true hd'), ?_⟩
    exact List.pairwise_of_forall_mem_list fun c hc _ _ hc' =>
      absurd (of_decide_eq_true hc') (hother c hc)
  have hperm := List.Perm.eraseP (fun d => decide (d.prange = b.prange)) hpair
    (h.objects.trans List.perm_middle).symm
  unfold intervalTreeRemove
  refine hperm.symm.trans (.of_eq ?_)
  rw [List.eraseP_cons_of_pos (by simp)]

theorem svmRangeRemoveNotifier_eq (s : Svms) (k : ℕ) :
    ∃ notifiers, svmRangeRemoveNotifier s k = { s with notifiers } := by
  unfold svmRangeRemoveNotifier
  dsimp only
  split_ifs
  all_goals exact ⟨_, rfl⟩

theorem svmRangeAddNotifierLocked_list (s : Svms) (l : List ℕ) (k : ℕ) :
    svmRangeAddNotifierLocked { s with list := l } k =
      { svmRangeAddNotifierLocked s k with list := l } := by
  unfold svmRangeAddNotifierLocked
  dsimp only
  split_ifs <;> rfl

/-- **A range that lost pages** gets a new node for its old one. -/
theorem Midway.update (h : Midway t (b :: X) done s) (hb : b.prange ∉ done)
    (hX : ∀ d ∈ X, d.prange ≠ b.prange) (h₀ : b.start ≠ 0) (hle : b.start ≤ b.last)
    (hop : (t.mem.ranges b.prange).op ≠ .unmapRange)
    (hnotifier : (t.mem.ranges b.prange).notifier_start >>> PAGE_SHIFT = b.start ∧
      (t.mem.ranges b.prange).notifier_last >>> PAGE_SHIFT = b.last)
    (hlost : ¬((t.mem.ranges b.prange).start = b.start ∧ (t.mem.ranges b.prange).last = b.last)) :
    Midway t X (done ++ [b.prange]) (svmRangeUpdateNotifierAndIntervalTree s b.prange) := by
  obtain ⟨hn₁, hn₂⟩ := Prod.mk.inj (h.waiting _ hb).2
  have hstart : (s.mem.ranges b.prange).start = (t.mem.ranges b.prange).start :=
    congrArg Seg.start (h.seg _)
  have hlast : (s.mem.ranges b.prange).last = (t.mem.ranges b.prange).last :=
    congrArg Seg.last (h.seg _)
  -- the tree without the old node
  have htree := h.tree_perm hb hX
  have hmap : (intervalTreeRemove b.prange s.objects).map (fun n => if n.prange = b.prange then
      ⟨(s.mem.ranges b.prange).start, (s.mem.ranges b.prange).last, b.prange⟩ else n) =
      intervalTreeRemove b.prange s.objects :=
    (List.map_congr_left fun d hd => if_neg (prange_ne_of_mem hb hX (htree.mem_iff.1 hd))).trans
      (List.map_id' _)
  have hsub : (intervalTreeRemove b.prange s.objects).Sublist s.objects := List.eraseP_sublist
  have hlist := (h.list.trans List.perm_middle).erase b.prange
  rw [List.erase_cons_head] at hlist
  unfold svmRangeUpdateNotifierAndIntervalTree
  dsimp only
  rw [hn₁, hn₂, hnotifier.1, hnotifier.2, hstart, hlast, if_neg hlost, if_pos ⟨h₀, by omega⟩,
    ← hstart, ← hlast]
  obtain ⟨notifiers, hremove⟩ := svmRangeRemoveNotifier_eq
    { s with objects := intervalTreeRemove b.prange s.objects } b.prange
  rw [hremove]
  dsimp only
  rw [hmap]
  generalize intervalTreeRemove b.prange s.objects = objects at *
  -- the rest is what adding a range does, but for the list, where the range is
  have hadd := Midway.add (s := { s with objects, notifiers, list := s.list.erase b.prange })
    ⟨htree, hlist, h.next, h.seg, h.waiting, fun e he => h.linked e (hsub.subset he),
      h.sorted.sublist hsub⟩ hb hX hop
  have hlist' : s.list.Perm (s.list.erase b.prange ++ [b.prange]) :=
    (List.perm_cons_erase (h.list.mem_iff.2 (by simp))).trans
      (List.perm_append_singleton ..).symm
  have heq := svmRangeAddNotifierLocked_list
    (svmRangeAddToSvms { s with objects, notifiers, list := s.list.erase b.prange } b.prange)
    s.list b.prange
  refine Eq.symm heq ▸ ?_
  have hadded := (addRange_ok { s with objects, notifiers, list := s.list.erase b.prange }
    b.prange).2.2.1
  generalize svmRangeAddNotifierLocked (svmRangeAddToSvms _ b.prange) b.prange = s' at hadd hadded ⊢
  exact ⟨hadd.objects, hlist'.trans (hadded ▸ hadd.list), hadd.next, hadd.seg, hadd.waiting,
    hadd.linked, hadd.sorted⟩

/-- **The range itself**, after its children. -/
theorem Midway.own (h : Midway t (b :: X) done s) (hb : b.prange ∉ done)
    (hX : ∀ d ∈ X, d.prange ≠ b.prange) (h₀ : b.start ≠ 0) (hle : b.start ≤ b.last)
    (hnotifier : (t.mem.ranges b.prange).notifier_start >>> PAGE_SHIFT = b.start ∧
      (t.mem.ranges b.prange).notifier_last >>> PAGE_SHIFT = b.last)
    (hop : (t.mem.ranges b.prange).op = .unmapRange ∨
      (t.mem.ranges b.prange).op = .updateRangeNotifier ∧
      ¬((t.mem.ranges b.prange).start = b.start ∧ (t.mem.ranges b.prange).last = b.last)) :
    Midway t X (done ++ [b.prange]) (svmRangeHandleListOp p s b.prange) := by
  unfold svmRangeHandleListOp
  rw [(h.waiting _ hb).1]
  rcases hop with hop | ⟨hop, hlost⟩
  · rw [hop]
    have hunlinks : Unlinks s.mem b.prange := by
      obtain ⟨h₁, h₂⟩ := h.linked b (h.objects.mem_iff.2 (by simp))
      unfold Unlinks
      rw [h₁, h₂]
      omega
    refine h.removed hop ?_ ?_
    · rw [(removeOld_ok p s b.prange).2.1, if_pos hunlinks]
      exact h.tree_perm hb hX
    · have hlist := (h.list.trans List.perm_middle).erase b.prange
      rwa [List.erase_cons_head] at hlist
  · rw [hop]
    exact h.update hb hX h₀ hle (by simp [hop]) hnotifier hlost

end

/-! ### The whole of the work -/

section

variable {p : OpuProcess} {s t : Svms} {b : ItNode} {l : List UnmapEvent} {m : Mem} {ids : List ℕ}
  {lo hi : ℕ} {a : SvmAttrs}

theorem Tiles.separated (h : Tiles m ids lo hi a) :
    Separated (ids.map fun c => (m.ranges c).seg) := by
  refine ⟨fun d hd => ?_, ?_⟩
  · obtain ⟨c, hc, rfl⟩ := List.mem_map.1 hd
    exact h.nonempty c hc
  · refine List.pairwise_map.2 ((List.pairwise_map.1 h.partition.apart).imp_of_mem ?_)
    intro c d hc hd hcd
    have h₁ := h.nonempty c hc
    have h₂ := h.nonempty d hd
    have hcd₁ := hcd (m.ranges c).start
    have hcd₂ := hcd (m.ranges d).start
    unfold SvmRange.Has at hcd₁ hcd₂
    show (m.ranges c).last < (m.ranges d).start ∨ (m.ranges d).last < (m.ranges c).start
    omega

/-- A range that was notified and is not to be unmapped has lost pages. -/
theorem Notified.lost (h : Notified s b t l) (hl : ∀ q ∈ l, q.Within b) (hne : l ≠ [])
    (hop : (t.mem.ranges b.prange).op ≠ .unmapRange) :
    ¬((t.mem.ranges b.prange).start = b.start ∧ (t.mem.ranges b.prange).last = b.last) := by
  rintro ⟨hstart, hlast⟩
  obtain ⟨q, hq⟩ := List.exists_mem_of_ne_nil l hne
  obtain ⟨hlo, hle, hhi⟩ := hl q hq
  rcases h.ok.self with ⟨hop', -⟩ | ⟨-, hnone⟩
  · exact hop hop'
  · refine hnone q.start ?_ ⟨q, hq, Nat.le_refl _, hle⟩
    unfold SvmRange.Has
    omega

/-- **What is left of the range**: its pages that were not unmapped. -/
theorem Notified.at_alive (h : Notified s b t l)
    (hp : ids.Perm (b.prange :: (t.mem.ranges b.prange).child_list)) {v : ℕ} {x : SvmAttrs} :
    At ((alive t.mem ids).map fun c => (t.mem.ranges c).seg) v x ↔
      ((b.seg s.mem).Has v ∧ (b.seg s.mem).val = x) ∧ ¬Unmapped l v := by
  have htiles := h.ok.tiles.perm hp.symm
  have hfits : ∀ c ∈ ids, (t.mem.ranges c).Fits (Unmapped l) := fun c hc => by
    rcases List.mem_cons.1 (hp.mem_iff.1 hc) with rfl | hc
    · exact h.ok.self
    · exact (h.ok.children c hc).1
  constructor
  · rintro ⟨d, hd, hdv, rfl⟩
    obtain ⟨c, hc, rfl⟩ := List.mem_map.1 hd
    obtain ⟨hc, hop⟩ := List.mem_filter.1 hc
    have hvc : (t.mem.ranges c).Has v := hdv
    refine ⟨⟨(htiles.covers v).2 ⟨c, hc, hvc⟩, (htiles.attrs c hc).symm⟩, ?_⟩
    rcases hfits c hc with ⟨hop', -⟩ | ⟨-, hnone⟩
    · exact absurd hop' (of_decide_eq_true hop)
    · exact hnone v hvc
  · rintro ⟨⟨hv, hx⟩, hnot⟩
    obtain ⟨c, hc, hvc⟩ := (htiles.covers v).1 hv
    have hop : (t.mem.ranges c).op ≠ .unmapRange := fun hop => by
      rcases hfits c hc with ⟨-, hall⟩ | ⟨hop', -⟩
      · exact hnot (hall v hvc)
      · exact hop' hop
    exact ⟨_, List.mem_map_of_mem (List.mem_filter.2 ⟨hc, decide_eq_true hop⟩), hvc,
      (htiles.attrs c hc).trans hx⟩

/-- **The deferred work after the notifications.** -/
theorem Notified.work (h : Notified s b t l) (hs : Registered s) (hb : b ∈ s.objects)
    (hidle : Idle s b) (hl : ∀ q ∈ l, q.Within b) (hne : l ≠ []) (h₀ : b.start ≠ 0) :
    Registered (svmRangeDeferredListWork p t) ∧ ∀ v x,
      At (svmRangeDeferredListWork p t).segs v x ↔ At s.segs v x ∧ ¬Unmapped l v := by
  have hok := h.ok
  have hle : b.start ≤ b.last := hs.nodes.ascending.nonempty _ (List.mem_map_of_mem hb)
  -- the other registered ranges
  obtain ⟨X, hperm⟩ : ∃ X, s.objects.Perm (b :: X) := ⟨_, List.perm_cons_erase hb⟩
  have hXs : ∀ d ∈ X, d ∈ s.objects := fun d hd => hperm.mem_iff.2 (List.mem_cons_of_mem _ hd)
  obtain ⟨hbX, hXnodup⟩ := List.nodup_cons.1 ((hperm.map (·.prange)).nodup_iff.1 hs.nodes.nodup)
  have hX : ∀ d ∈ X, d.prange ≠ b.prange := fun d hd he => hbX (List.mem_map.2 ⟨d, hd, he⟩)
  have hXlt : ∀ d ∈ X, d.prange < s.mem.next := fun d hd => (hs.nodes.ok d (hXs d hd)).1
  have hold : ∀ d ∈ X, t.mem.ranges d.prange = s.mem.ranges d.prange := fun d hd =>
    hok.other _ (hXlt d hd) (hX d hd)
  -- the work, from its beginning to its end
  obtain ⟨hself, hnodup⟩ := List.nodup_cons.1 hok.tiles.nodup
  have hbegin : Midway t (b :: X) [] { t with deferred_range_list := [] } := by
    refine ⟨?_, ?_, rfl, fun _ => rfl, fun _ _ => ⟨rfl, rfl⟩, fun d hd => ?_, ?_⟩
    · exact h.objects ▸ hperm
    · exact h.list ▸ hs.list.trans (hperm.map _)
    · have hd' : d ∈ s.objects := h.objects ▸ hd
      have hlinked := hs.linked d hd'
      dsimp only
      rcases List.mem_cons.1 (hperm.mem_iff.1 hd') with rfl | hdX
      · obtain ⟨h₁, h₂⟩ := Prod.mk.inj hok.nodes.1
        rwa [h₁, h₂]
      · rwa [hold d hdX]
    · refine (h.objects ▸ List.pairwise_map.1 hs.nodes.ascending.lt).imp_of_mem ?_
      intro d e hd _ hde
      have hd' : d ∈ s.objects := h.objects ▸ hd
      exact Nat.le_trans (hs.nodes.ascending.nonempty _ (List.mem_map_of_mem hd')) hde.le
  have hkids : ∀ d ∈ b :: X, d.prange ∉ (t.mem.ranges b.prange).child_list := by
    refine List.forall_mem_cons.2 ⟨hself, fun d hd hc => ?_⟩
    have h₁ := hok.fresh _ hc
    have h₂ := hXlt d hd
    omega
  have hnotifier := hidle.notifier
  obtain ⟨hn₁, hn₂⟩ := Prod.mk.inj hok.nodes.2
  rw [← hn₁, ← hn₂] at hnotifier
  have hend := (@Midway.handleChildren p _ t _ [] _ b.prange hbegin hnodup hkids fun c hc =>
    (hok.children c hc).2).own (p := p) hself hX h₀ hle hnotifier
    ((h.op hne).imp_right fun hop => ⟨hop, h.lost hl hne (by simp [hop])⟩)
  have hwork : svmRangeDeferredListWork p t = svmRangeHandleListOp p (handleChildren p b.prange
      (t.mem.ranges b.prange).child_list { t with deferred_range_list := [] }) b.prange := by
    unfold svmRangeDeferredListWork
    rw [h.deferred, if_neg hne]
    rfl
  rw [← hwork, List.nil_append] at hend
  generalize svmRangeDeferredListWork p t = s' at hend ⊢
  have hp := List.perm_append_singleton b.prange (t.mem.ranges b.prange).child_list
  generalize (t.mem.ranges b.prange).child_list ++ [b.prange] = ids at hend hp
  have htiles := hok.tiles.perm hp.symm
  -- the tree as a map from pages to attributes
  have hseg : ∀ n : ItNode, n.seg s'.mem = n.seg t.mem := fun n => by
    rw [ItNode.seg, ItNode.seg, show (s'.mem.ranges n.prange).toSvmAttrs = _ from
      congrArg Seg.val (hend.seg n.prange)]
    rfl
  have hXseg : X.map (·.seg t.mem) = X.map (·.seg s.mem) := List.map_congr_left fun d hd => by
    rw [ItNode.seg, hold d hd]
    rfl
  have hsegs : s'.segs.Perm ((alive t.mem ids).map (fun c => (t.mem.ranges c).seg) ++
      X.map (·.seg s.mem)) := by
    have hmap : s'.segs = s'.objects.map (·.seg t.mem) := List.map_congr_left fun n _ => hseg n
    rw [hmap]
    refine (hend.objects.map _).trans (.of_eq ?_)
    rw [List.map_append, List.map_map, hXseg]
    rfl
  have hapart := hs.nodes.ascending.separated.perm (hperm.map (·.seg s.mem))
  obtain ⟨-, hXsep, hbX'⟩ := separated_append (l := [b.seg s.mem]).1 hapart
  have hsep : Separated ((alive t.mem ids).map (fun c => (t.mem.ranges c).seg) ++
      X.map (·.seg s.mem)) := by
    refine separated_append.2 ⟨?_, hXsep, fun e he d hd => ?_⟩
    · have hsub : (alive t.mem ids).Sublist ids := List.filter_sublist
      exact ⟨fun e he => htiles.separated.nonempty e ((hsub.map _).subset he),
        htiles.separated.apart.sublist (hsub.map _)⟩
    · obtain ⟨c, hc, rfl⟩ := List.mem_map.1 he
      have hc := List.mem_of_mem_filter hc
      have hcle := htiles.nonempty c hc
      have h₁ := (htiles.covers (t.mem.ranges c).start).2 ⟨c, hc, Nat.le_refl _, hcle⟩
      have h₂ := (htiles.covers (t.mem.ranges c).last).2 ⟨c, hc, hcle, Nat.le_refl _⟩
      have hbd : b.last < d.start ∨ d.last < b.start := hbX' _ (List.mem_singleton_self _) d hd
      show (t.mem.ranges c).last < d.start ∨ d.last < (t.mem.ranges c).start
      omega
  have hids : (s'.objects.map (·.prange)).Perm (alive t.mem ids ++ X.map (·.prange)) := by
    refine (hend.objects.map _).trans (.of_eq ?_)
    rw [List.map_append, List.map_map]
    exact congrArg (· ++ _) (List.map_id _)
  refine ⟨⟨⟨fun n hn => ?_, (hsep.perm hsegs.symm).ascending (List.pairwise_map.2 hend.sorted), ?_⟩,
    hend.linked, hend.list.trans hids.symm⟩, fun v x => ?_⟩
  · rw [ItNode.Ok, hseg, hend.seg, hend.next]
    rcases List.mem_append.1 (hend.objects.mem_iff.1 hn) with hn | hn
    · obtain ⟨c, hc, rfl⟩ := List.mem_map.1 hn
      exact ⟨htiles.lt c (List.mem_of_mem_filter hc), rfl⟩
    · rw [ItNode.seg, hold n hn]
      exact ⟨Nat.lt_of_lt_of_le (hXlt n hn) hok.next_le, (hs.nodes.ok n (hXs n hn)).2⟩
  · refine hids.nodup_iff.2 (List.nodup_append.2 ⟨htiles.nodup.filter _, hXnodup, ?_⟩)
    intro c hc k hk hck
    obtain ⟨d, hd, rfl⟩ := List.mem_map.1 hk
    have hd' := hXlt d hd
    rcases List.mem_cons.1 (hp.mem_iff.1 (List.mem_of_mem_filter hc)) with rfl | hc
    · exact hX d hd hck.symm
    · have := hok.fresh c hc
      omega
  · have hsplit : At s.segs v x ↔ ((b.seg s.mem).Has v ∧ (b.seg s.mem).val = x) ∨
        At (X.map (·.seg s.mem)) v x := by
      unfold Svms.segs
      rw [at_perm (hperm.map (·.seg s.mem)), List.map_cons, at_cons]
    rw [at_perm hsegs, at_append, h.at_alive hp, hsplit, or_and_right]
    refine or_congr_right ⟨fun hd => ⟨hd, ?_⟩, And.left⟩
    rintro ⟨q, hq, hqv⟩
    obtain ⟨d, hd, hdv, -⟩ := hd
    obtain ⟨hlo, -, hhi⟩ := hl q hq
    have hbd : b.last < d.start ∨ d.last < b.start := hbX' _ (List.mem_singleton_self _) d hd
    unfold Seg.Has at hdv
    omega

/-- The notifications and the work after them. -/
theorem Idle.work (hidle : Idle s b) (hs : Registered s) (hb : b ∈ s.objects)
    (hl : ∀ q ∈ l, q.Within b) (h₀ : b.start ≠ 0) (hrun : unmapAll p b.prange l s = some t) :
    Registered (svmRangeDeferredListWork p t) ∧ ∀ v x,
      At (svmRangeDeferredListWork p t).segs v x ↔ At s.segs v x ∧ ¬Unmapped l v := by
  by_cases hne : l = []
  · subst hne
    obtain rfl := Option.some.inj hrun
    unfold svmRangeDeferredListWork
    rw [hidle.deferred]
    exact ⟨hs, fun v x => by simp [handleRanges, Unmapped]⟩
  · exact ((hidle.notified hs hb).run hl hrun).work hs hb hidle hl hne h₀

/-- **What the CPU unmaps is unregistered**, whatever notifications come for a registered range
before the deferred work runs.  After each of them the range and its children tile the interval it
was registered with.  After the work the registered pages are those that were and that none of the
notifications covers, each with the attributes it had, if the range does not start at page 0.  With
enough memory all the splits succeed. -/
theorem unmapped_pages_gone (hs : Registered s) (hb : b ∈ s.objects) (hidle : Idle s b)
    (hl : ∀ q ∈ l, q.Within b) :
    (∀ l₁ l₂ t, l = l₁ ++ l₂ → unmapAll p b.prange l₁ s = some t →
      Tiles t.mem (b.prange :: (t.mem.ranges b.prange).child_list) b.start b.last
        (s.mem.ranges b.prange).toSvmAttrs) ∧
      (b.start ≠ 0 → ∀ t, unmapAll p b.prange l s = some t →
        Registered (svmRangeDeferredListWork p t) ∧ ∀ v x,
          At (svmRangeDeferredListWork p t).segs v x ↔ At s.segs v x ∧ ¬Unmapped l v) ∧
      ((∀ j, s.mem.answer j = true) → ∃ t, unmapAll p b.prange l s = some t) := by
  have hbegin := hidle.notified hs hb
  refine ⟨fun l₁ l₂ t hl' hrun => ?_, fun h₀ t hrun => hidle.work hs hb hl h₀ hrun,
    hbegin.run_succeeds hl⟩
  subst hl'
  exact (hbegin.run (fun q hq => hl q (List.mem_append_left _ hq)) hrun).ok.tiles

/-- Two notifications for a range of the pages 1 to 4: page 4 stays. -/
theorem unmapped_pages_gone_twice :
    ∃ t, unmapAll cpuProcess 0 [⟨2, 3⟩, ⟨1, 2⟩] (svmRangeAddNotifierLocked (oneRange {}) 0) =
        some t ∧
      Registered (svmRangeDeferredListWork cpuProcess t) ∧
      At (svmRangeDeferredListWork cpuProcess t).segs 4 {} ∧
      ¬At (svmRangeDeferredListWork cpuProcess t).segs 3 {} := by
  have hone := registered_oneRange {}
  have hs : Registered (svmRangeAddNotifierLocked (oneRange {}) 0) := by
    refine ⟨⟨fun n hn => ?_, hone.nodes.ascending, hone.nodes.nodup⟩, fun n hn => ?_, hone.list⟩
    · obtain rfl := List.mem_singleton.1 hn
      exact ⟨Nat.zero_lt_one, rfl⟩
    · obtain rfl := List.mem_singleton.1 hn
      exact ⟨rfl, rfl⟩
  have hidle : Idle (svmRangeAddNotifierLocked (oneRange {}) 0) ⟨1, 4, 0⟩ :=
    ⟨rfl, rfl, by decide, by decide⟩
  obtain ⟨-, hafter, hruns⟩ := unmapped_pages_gone (p := cpuProcess) (l := [⟨2, 3⟩, ⟨1, 2⟩]) hs
    (List.mem_singleton_self _) hidle (by simp [UnmapEvent.Within])
  obtain ⟨t, hrun⟩ := hruns fun _ => rfl
  obtain ⟨hreg, hat⟩ := hafter (by decide) t hrun
  refine ⟨t, hrun, hreg, (hat 4 {}).2 ⟨?_, by simp [Unmapped]⟩, fun h => ?_⟩
  · exact ⟨_, List.mem_singleton_self _, ⟨by decide, by decide⟩, rfl⟩
  · exact ((hat 3 {}).1 h).2 ⟨⟨2, 3⟩, by simp, by decide, by decide⟩

end

end Codrive.Svm
