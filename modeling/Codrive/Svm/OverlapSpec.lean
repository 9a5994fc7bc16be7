/-
# What handling the overlap does

The loop of `svm_range_handle_overlap` and the rest of `svm_range_add` compute an overlay of the
registered segments (`Codrive.Basis.Segments`): the ranges that stay, the new ranges and, for
those on the update list, the attributes they are about to get are the parts of
`fill (updatedAttrs p attrs) (svmRangeApplyAttrs p attrs (defaultAttrs p))`.

`updatedAttrs` is what the test `svm_range_is_same_attrs` makes of the attributes of a registered
range: a range it takes for up to date is not put on the update list.
-/

import Codrive.Svm.RangeSpec
import Codrive.Svm.SetAttr

namespace Codrive.Svm

open Codrive.Basis

/-- What a request makes of the attributes of a registered range. -/
def updatedAttrs (p : OpuProcess) (attrs : List SvmAttribute) (x : SvmAttrs) : SvmAttrs :=
  if svmRangeIsSameAttrs x (svmRangeApplyAttrs p attrs {}) then x else svmRangeApplyAttrs p attrs x

/-- The interval and the attributes of range `k` once the update list `u` is carried out. -/
def outSeg (f : SvmAttrs → SvmAttrs) (m : Mem) (u : List ℕ) (k : ℕ) : Seg SvmAttrs :=
  ⟨(m.ranges k).start, (m.ranges k).last,
    if k ∈ u then f (m.ranges k).toSvmAttrs else (m.ranges k).toSvmAttrs⟩

/-- The segment a node of the tree stands for. -/
def ItNode.seg (m : Mem) (n : ItNode) : Seg SvmAttrs :=
  ⟨n.start, n.last, (m.ranges n.prange).toSvmAttrs⟩

/-- The node sticks out of `[start, last]`. -/
def ItNode.Sticks (start last : ℕ) (n : ItNode) : Prop := n.start < start ∨ n.last > last

instance (start last : ℕ) (n : ItNode) : Decidable (n.Sticks start last) :=
  inferInstanceAs (Decidable (_ ∨ _))

/-- The node and the range it is part of agree. -/
def ItNode.Ok (m : Mem) (n : ItNode) : Prop :=
  n.prange < m.next ∧ (m.ranges n.prange).seg = n.seg m

/-- From `o` to `o'` the ranges `i` are new, the lists grew by `u`, `i` and `r`, and what was
there before has not changed. -/
structure Grows (o o' : Overlap) (u i r : List ℕ) : Prop where
  update : o'.update_list = u ++ o.update_list
  insert : o'.insert_list = i ++ o.insert_list
  remove : o'.remove_list = r ++ o.remove_list
  next_le : o.mem.next ≤ o'.mem.next
  fresh : ∀ k ∈ i, o.mem.next ≤ k ∧ k < o'.mem.next
  nodup : i.Nodup
  old : ∀ k < o.mem.next, o'.mem.ranges k = o.mem.ranges k

theorem Grows.refl (o : Overlap) : Grows o o [] [] [] :=
  ⟨rfl, rfl, rfl, Nat.le_refl _, by simp, .nil, fun _ _ => rfl⟩

theorem Grows.trans {o o' o'' : Overlap} {u u' i i' r r' : List ℕ} (h : Grows o o' u i r)
    (h' : Grows o' o'' u' i' r') : Grows o o'' (u' ++ u) (i' ++ i) (r' ++ r) where
  update := by rw [h'.update, h.update, List.append_assoc]
  insert := by rw [h'.insert, h.insert, List.append_assoc]
  remove := by rw [h'.remove, h.remove, List.append_assoc]
  next_le := Nat.le_trans h.next_le h'.next_le
  fresh k hk := by
    have h₁ := h.next_le
    have h₂ := h'.next_le
    rcases List.mem_append.1 hk with hk | hk
    · have := h'.fresh k hk
      omega
    · have := h.fresh k hk
      omega
  nodup := List.nodup_append.2 ⟨h'.nodup, h.nodup, fun k hk l hl => by
    have := h'.fresh k hk
    have := h.fresh l hl
    omega⟩
  old k hk := by rw [h'.old k (Nat.lt_of_lt_of_le hk h.next_le), h.old k hk]

section

variable {p : OpuProcess} {o o' : Overlap}

/-- From `o` to `o'` the range `k` was cut down to `kept`; the ranges `l` are new and have what it
lost. -/
structure CutOff (k : ℕ) (o o' : Overlap) (l : List ℕ) (kept : Seg SvmAttrs)
    (lost : List (Seg SvmAttrs)) : Prop where
  update : o'.update_list = o.update_list
  insert : o'.insert_list = l ++ o.insert_list
  remove : o'.remove_list = o.remove_list
  next_le : o.mem.next ≤ o'.mem.next
  fresh : ∀ j ∈ l, o.mem.next ≤ j ∧ j < o'.mem.next
  nodup : l.Nodup
  other : ∀ j < o.mem.next, j ≠ k → o'.mem.ranges j = o.mem.ranges j
  kept : (o'.mem.ranges k).seg = kept
  lost : l.map (fun j => (o'.mem.ranges j).seg) = lost

/-- A split that succeeds cuts off one range. -/
theorem CutOff.of_split {k a b n : ℕ} {m : Mem} (hk : k < o.mem.next)
    (h : svmRangeSplit p k a b o.mem = (.ok n, m)) :
    CutOff k o { o with mem := m, insert_list := n :: o.insert_list } [n]
      ⟨a, b, (o.mem.ranges k).toSvmAttrs⟩ [(m.ranges n).seg] := by
  obtain ⟨hmade, hkept, -, -, -⟩ := svmRangeSplit_ok hk h
  have hid := hmade.id
  have hnext := hmade.next
  refine ⟨rfl, rfl, rfl, by dsimp only; omega, fun j hj => ?_, by simp, fun j hj hjk => ?_, hkept,
    rfl⟩
  · obtain rfl := List.mem_singleton.1 hj
    dsimp only
    omega
  · exact hmade.other j (by omega) (by simpa using hjk)

theorem CutOff.refl (k : ℕ) (o : Overlap) : CutOff k o o [] (o.mem.ranges k).seg [] :=
  ⟨rfl, rfl, rfl, Nat.le_refl _, by simp, .nil, fun _ _ _ => rfl, rfl, rfl⟩

/-- "change old range start" -/
theorem splitHead_ok {k start : ℕ} {s : Seg SvmAttrs} (hk : k < o.mem.next)
    (hs : (o.mem.ranges k).seg = s)
    (h : (if s.start < start then svmRangeSplitHead p k start o else (none, o)) = (none, o')) :
    ∃ l, CutOff k o o' l ⟨max start s.start, s.last, s.val⟩
      (if s.start < start then [⟨s.start, start - 1, s.val⟩] else []) := by
  subst hs
  split_ifs at h ⊢ with hlt
  · unfold svmRangeSplitHead at h
    split at h
    · simp at h
    · rename_i head m hsplit
      simp only [Prod.mk.injEq, true_and] at h
      subst h
      obtain ⟨-, -, -, hnew, -⟩ := svmRangeSplit_ok hk hsplit
      have hc := CutOff.of_split hk hsplit
      have hlt : (o.mem.ranges k).start < start := hlt
      rw [hnew, if_neg (Nat.ne_of_lt hlt)] at hc
      rw [show max start (o.mem.ranges k).seg.start = start from max_eq_left hlt.le]
      exact ⟨_, hc⟩
  · simp only [Prod.mk.injEq, true_and] at h
    subst h
    rw [show max start (o.mem.ranges k).seg.start = (o.mem.ranges k).seg.start by omega]
    exact ⟨_, .refl k o⟩

/-- "change old range last" -/
theorem splitTail_ok {k last : ℕ} {s : Seg SvmAttrs} (hk : k < o.mem.next)
    (hs : (o.mem.ranges k).seg = s)
    (h : (if s.last > last then svmRangeSplitTail p k last o else (none, o)) = (none, o')) :
    ∃ l, CutOff k o o' l ⟨s.start, min last s.last, s.val⟩
      (if last < s.last then [⟨last + 1, s.last, s.val⟩] else []) := by
  subst hs
  split_ifs at h ⊢ with hlt
  · unfold svmRangeSplitTail at h
    split at h
    · simp at h
    · rename_i tail m hsplit
      simp only [Prod.mk.injEq, true_and] at h
      subst h
      obtain ⟨-, -, -, hnew, -⟩ := svmRangeSplit_ok hk hsplit
      have hc := CutOff.of_split hk hsplit
      have hlt : last < (o.mem.ranges k).last := hlt
      rw [hnew, if_pos rfl] at hc
      rw [show min last (o.mem.ranges k).seg.last = last from min_eq_left hlt.le]
      exact ⟨_, hc⟩
  · simp only [Prod.mk.injEq, true_and] at h
    subst h
    rw [show min last (o.mem.ranges k).seg.last = (o.mem.ranges k).seg.last by omega]
    exact ⟨_, .refl k o⟩

/-- **A node that sticks out**: the clone is what lies inside, the ranges `l` are what does
not. -/
theorem cloneAndSplit_ok {start last k : ℕ} {node : ItNode} (hok : node.Ok o.mem)
    (h : cloneAndSplit p start last node o = (.ok k, o')) :
    ∃ l, Grows o o' [] (l ++ [k]) [node.prange] ∧
      (o'.mem.ranges k).seg = ⟨max start node.start, min last node.last,
        (o.mem.ranges node.prange).toSvmAttrs⟩ ∧
      (l.map fun j => (o'.mem.ranges j).seg) =
        (if last < node.last then
          [⟨last + 1, node.last, (o.mem.ranges node.prange).toSvmAttrs⟩] else []) ++
        (if node.start < start then
          [⟨node.start, start - 1, (o.mem.ranges node.prange).toSvmAttrs⟩] else []) := by
  obtain ⟨hlt, hseg⟩ := hok
  unfold cloneAndSplit at h
  split at h
  · simp at h
  · rename_i n m hclone
    obtain ⟨hmade, hs, -⟩ := svmRangeClone_ok hclone
    rw [hseg] at hs
    simp only at h
    split at h
    · simp at h
    · rename_i o₁ hhead
      split at h
      · simp at h
      · rename_i o₂ htail
        simp only [Prod.mk.injEq, Except.ok.injEq] at h
        obtain ⟨rfl, rfl⟩ := h
        have hid := hmade.id
        have hnext := hmade.next
        have hn : n < m.next := by omega
        obtain ⟨l₁, h₁⟩ := splitHead_ok (s := node.seg o.mem) hn hs hhead
        have hle₁ : m.next ≤ o₁.mem.next := h₁.next_le
        obtain ⟨l₂, h₂⟩ := splitTail_ok (by omega) h₁.kept htail
        have hle₂ := h₂.next_le
        -- the ranges the head split made are not touched by the tail split
        have hl₁ : l₁.map (fun j => (o₂.mem.ranges j).seg) =
            l₁.map fun j => (o₁.mem.ranges j).seg := by
          refine List.map_congr_left fun j hj => ?_
          have hj' : m.next ≤ j ∧ j < o₁.mem.next := h₁.fresh j hj
          rw [h₂.other j hj'.2 (by omega)]
        refine ⟨l₂ ++ l₁, ⟨?_, ?_, ?_, by omega, ?_, ?_, ?_⟩, h₂.kept, ?_⟩
        · rw [h₂.update, h₁.update]
          rfl
        · rw [h₂.insert, h₁.insert]
          simp
        · rw [h₂.remove, h₁.remove]
          rfl
        · intro j hj
          simp only [List.mem_append, List.mem_singleton] at hj
          rcases hj with (hj | hj) | rfl
          · have := h₂.fresh j hj
            omega
          · have : m.next ≤ j ∧ j < o₁.mem.next := h₁.fresh j hj
            omega
          · omega
        · refine List.nodup_append.2 ⟨List.nodup_append.2 ⟨h₂.nodup, h₁.nodup, ?_⟩, by simp, ?_⟩
          · intro j hj j' hj'
            have := h₂.fresh j hj
            have : m.next ≤ j' ∧ j' < o₁.mem.next := h₁.fresh j' hj'
            omega
          · intro j hj j' hj'
            obtain rfl := List.mem_singleton.1 hj'
            rcases List.mem_append.1 hj with hj | hj
            · have := h₂.fresh j hj
              omega
            · have : m.next ≤ j ∧ j < o₁.mem.next := h₁.fresh j hj
              omega
        · intro j hj
          rw [h₂.other j (by omega) (by omega)]
          exact (h₁.other j (by show j < m.next; omega) (by omega)).trans (hmade.of_lt hj)
        · rw [List.map_append, hl₁, h₂.lost, h₁.lost]
          rfl

/-! ### One node -/

theorem outSeg_of_mem {f : SvmAttrs → SvmAttrs} {m : Mem} {u : List ℕ} {k : ℕ} (hk : k ∈ u) :
    outSeg f m u k = ⟨(m.ranges k).start, (m.ranges k).last, f (m.ranges k).toSvmAttrs⟩ := by
  rw [outSeg, if_pos hk]

theorem outSeg_of_not_mem {f : SvmAttrs → SvmAttrs} {m : Mem} {u : List ℕ} {k : ℕ} (hk : k ∉ u) :
    outSeg f m u k = (m.ranges k).seg := by
  rw [outSeg, if_neg hk]
  rfl

theorem outSeg_congr {f : SvmAttrs → SvmAttrs} {m m' : Mem} {u u' : List ℕ} {k : ℕ}
    (hr : m'.ranges k = m.ranges k) (hu : k ∈ u' ↔ k ∈ u) : outSeg f m' u' k = outSeg f m u k := by
  rw [outSeg, outSeg, hr, if_congr hu rfl rfl]

/-- "insert a new node if needed" -/
theorem fillGap_ok {start : ℕ} {node : ItNode} (h : fillGap p start node o = (none, o')) :
    ∃ l, Grows o o' l l [] ∧ ∀ f u, (∀ k ∈ l, k ∈ u) →
      l.map (outSeg f o'.mem u) = if start < node.start then
        [⟨start, node.start - 1, f (defaultAttrs p)⟩] else [] := by
  unfold fillGap at h
  split_ifs at h with hlt
  · split at h
    · simp at h
    · rename_i n m hnew
      simp only [Prod.mk.injEq, true_and] at h
      subst h
      obtain ⟨hmade, hr⟩ := svmRangeNew_ok hnew
      have hid := hmade.id
      have hnext := hmade.next
      refine ⟨[n], ⟨rfl, rfl, rfl, by dsimp only; omega, fun k hk => ?_, by simp,
        fun k hk => hmade.of_lt hk⟩, fun f u hu => ?_⟩
      · obtain rfl := List.mem_singleton.1 hk
        dsimp only
        omega
      · rw [if_pos hlt, List.map_singleton, outSeg_of_mem (hu n (by simp)), hr]
  · simp only [Prod.mk.injEq, true_and] at h
    subst h
    exact ⟨[], .refl o, fun f u _ => by rw [if_neg hlt]; rfl⟩

/-- The range of the node that lies in the request. -/
theorem innerRange_ok {start last k : ℕ} {node : ItNode} (hok : node.Ok o.mem)
    (h : innerRange p start last node o = (.ok k, o')) :
    ∃ i l, Grows o o' [] i (if node.Sticks start last then [node.prange] else []) ∧
      k ∉ l ∧
      (o'.mem.ranges k).seg = ⟨max start node.start, min last node.last,
        (o.mem.ranges node.prange).toSvmAttrs⟩ ∧
      ((if node.Sticks start last then [] else [node.prange]) ++ i).Perm (k :: l) ∧
      (l.map fun j => (o'.mem.ranges j).seg) =
        (if last < node.last then
          [⟨last + 1, node.last, (o.mem.ranges node.prange).toSvmAttrs⟩] else []) ++
        (if node.start < start then
          [⟨node.start, start - 1, (o.mem.ranges node.prange).toSvmAttrs⟩] else []) := by
  unfold innerRange at h
  split_ifs at h with hst
  · have hst : node.Sticks start last := hst
    obtain ⟨l, hg, hk, hl⟩ := cloneAndSplit_ok hok h
    rw [if_pos hst, if_pos hst]
    refine ⟨l ++ [k], l, hg, ?_, hk, ?_, hl⟩
    · obtain ⟨-, -, hd⟩ := List.nodup_append.1 hg.nodup
      exact fun hkl => hd k hkl k (by simp) rfl
    · simp
  · simp only [Prod.mk.injEq, Except.ok.injEq] at h
    obtain ⟨rfl, rfl⟩ := h
    have hst' : ¬node.Sticks start last := hst
    rw [if_neg hst', if_neg hst']
    refine ⟨[], [], .refl o, by simp, ?_, .refl _, ?_⟩
    · rw [hok.2, ItNode.seg, show max start node.start = node.start by omega,
        show min last node.last = node.last by omega]
    · rw [if_neg (by omega), if_neg (by omega)]
      rfl

theorem addToUpdateList_mem (new : SvmAttrs) (k : ℕ) (o : Overlap) :
    (addToUpdateList new k o).mem = o.mem := by
  unfold addToUpdateList
  split_ifs <;> rfl

/-- What the update list grows by. -/
theorem Grows.addToUpdateList {i r : List ℕ} (h : Grows o o' [] i r) (new : SvmAttrs) (k : ℕ) :
    Grows o (addToUpdateList new k o')
      (if svmRangeIsSameAttrs (o'.mem.ranges k).toSvmAttrs new then [] else [k]) i r := by
  unfold Svm.addToUpdateList
  split_ifs
  · exact h
  · exact ⟨congrArg (k :: ·) h.update, h.insert, h.remove, h.next_le, h.fresh, h.nodup, h.old⟩

/-- **One round of the loop**: what stays of the node and the new ranges are the parts of the gap
before it and of the node. -/
theorem overlapNode_ok {attrs : List SvmAttribute} {start last : ℕ} {node : ItNode}
    (hok : node.Ok o.mem)
    (h : overlapNode p (svmRangeApplyAttrs p attrs {}) start last node o = (none, o')) :
    ∃ u i, Grows o o' u i (if node.Sticks start last then [node.prange] else []) ∧
      u ⊆ (if node.Sticks start last then [] else [node.prange]) ++ i ∧ u.Nodup ∧
      (((if node.Sticks start last then [] else [node.prange]) ++ i).map
          (outSeg (svmRangeApplyAttrs p attrs) o'.mem u)).Perm
        (gap (svmRangeApplyAttrs p attrs (defaultAttrs p)) start (node.seg o.mem) ++
          cut (updatedAttrs p attrs) start last (node.seg o.mem)) := by
  unfold overlapNode at h
  split at h
  · simp at h
  · rename_i k o₁ hinner
    obtain ⟨i, l, hg, hkl, hseg, hperm, hl⟩ := innerRange_ok hok hinner
    have hgu := hg.addToUpdateList (svmRangeApplyAttrs p attrs {}) k
    have hmem := addToUpdateList_mem (svmRangeApplyAttrs p attrs {}) k o₁
    obtain ⟨u, hu⟩ : ∃ u, u = if svmRangeIsSameAttrs (o₁.mem.ranges k).toSvmAttrs
      (svmRangeApplyAttrs p attrs {}) then [] else [k] := ⟨_, rfl⟩
    rw [← hu] at hgu
    obtain ⟨l', hgap, hl'⟩ := fillGap_ok h
    -- the new ranges are apart from what the node's range was cut into
    have hlt : ∀ j ∈ k :: l, j < o₁.mem.next := by
      intro j hj
      have hj := hperm.mem_iff.2 hj
      rcases List.mem_append.1 hj with hj | hj
      · split_ifs at hj
        · simp at hj
        · obtain rfl := List.mem_singleton.1 hj
          exact Nat.lt_of_lt_of_le hok.1 hg.next_le
      · exact (hg.fresh j hj).2
    have hold : ∀ j ∈ k :: l, o'.mem.ranges j = o₁.mem.ranges j := fun j hj => by
      rw [hgap.old j (by rw [hmem]; exact hlt j hj), hmem]
    have hnot : ∀ j ∈ k :: l, j ∉ l' := fun j hj hj' => by
      have h₁ := hlt j hj
      have h₂ := (hgap.fresh j hj').1
      rw [hmem] at h₂
      omega
    have hmid : outSeg (svmRangeApplyAttrs p attrs) o'.mem (l' ++ u) k =
        ⟨max start node.start, min last node.last,
          updatedAttrs p attrs (o.mem.ranges node.prange).toSvmAttrs⟩ := by
      have hval : (o₁.mem.ranges k).toSvmAttrs = (o.mem.ranges node.prange).toSvmAttrs :=
        congrArg Seg.val hseg
      have hku : k ∈ l' ++ u ↔ svmRangeIsSameAttrs (o.mem.ranges node.prange).toSvmAttrs
          (svmRangeApplyAttrs p attrs {}) = false := by
        rw [List.mem_append, hu, hval]
        simp [hnot k (by simp)]
      rw [outSeg, hold k (by simp), updatedAttrs, hval]
      have h₁ : (o₁.mem.ranges k).start = max start node.start := congrArg Seg.start hseg
      have h₂ : (o₁.mem.ranges k).last = min last node.last := congrArg Seg.last hseg
      rw [h₁, h₂]
      congr 1
      by_cases hsame : svmRangeIsSameAttrs (o.mem.ranges node.prange).toSvmAttrs
        (svmRangeApplyAttrs p attrs {}) = true
      · rw [if_neg (by rw [hku, hsame]; simp), if_pos hsame]
      · rw [if_pos (hku.2 (Bool.not_eq_true _ ▸ hsame)), if_neg hsame]
    have hout : l.map (outSeg (svmRangeApplyAttrs p attrs) o'.mem (l' ++ u)) =
        l.map fun j => (o₁.mem.ranges j).seg := by
      refine List.map_congr_left fun j hj => ?_
      have hj' := List.mem_cons_of_mem k hj
      rw [outSeg_of_not_mem, hold j hj']
      rw [List.mem_append, hu]
      rintro (hjl | hju)
      · exact hnot j hj' hjl
      · split_ifs at hju
        · simp at hju
        · exact hkl (List.mem_singleton.1 hju ▸ hj)
    refine ⟨l' ++ u, l' ++ i, hgu.trans hgap, ?_, ?_, ?_⟩
    · intro j hj
      rcases List.mem_append.1 hj with hj | hj
      · exact List.mem_append_right _ (List.mem_append_left _ hj)
      · have hjk : j = k := by
          rw [hu] at hj
          split_ifs at hj
          · simp at hj
          · exact List.mem_singleton.1 hj
        have hki := hperm.mem_iff.2 (List.mem_cons_self (a := k) (l := l))
        rw [hjk]
        rcases List.mem_append.1 hki with hki | hki
        · exact List.mem_append_left _ hki
        · exact List.mem_append_right _ (List.mem_append_right _ hki)
    · refine List.nodup_append.2 ⟨hgap.nodup, ?_, fun j hj j' hj' => ?_⟩
      · rw [hu]
        split_ifs <;> simp
      · rw [hu] at hj'
        split_ifs at hj'
        · simp at hj'
        · obtain rfl := List.mem_singleton.1 hj'
          exact fun he => hnot j' (by simp) (he ▸ hj)
    · have hp : ((if node.Sticks start last then [] else [node.prange]) ++ (l' ++ i)).Perm
          (l' ++ k :: l) :=
        List.perm_append_comm_assoc .. |>.trans (hperm.append_left l')
      refine (hp.map _).trans ?_
      rw [List.map_append, hl' _ _ (fun j hj => List.mem_append_left _ hj), List.map_cons, hmid,
        hout, hl, ← List.cons_append]
      exact List.perm_append_comm.append_left _

/-! ### The loop -/

/-- The nodes that meet `[start, last]`. -/
def meeting (start last : ℕ) (nodes : List ItNode) : List ItNode :=
  nodes.filter fun n => n.start ≤ last ∧ start ≤ n.last

/-- The ranges of the nodes of a list that stay. -/
def staying (start last : ℕ) (nodes : List ItNode) : List ℕ :=
  (nodes.filter (¬·.Sticks start last)).map (·.prange)

/-- The ranges of the nodes of a list that are replaced. -/
def replaced (start last : ℕ) (nodes : List ItNode) : List ℕ :=
  (nodes.filter (·.Sticks start last)).map (·.prange)

theorem staying_cons (start last : ℕ) (n : ItNode) (nodes : List ItNode) :
    staying start last (n :: nodes) =
      (if n.Sticks start last then [] else [n.prange]) ++ staying start last nodes := by
  unfold staying
  rw [List.filter_cons]
  split_ifs <;> simp_all

theorem replaced_cons (start last : ℕ) (n : ItNode) (nodes : List ItNode) :
    replaced start last (n :: nodes) =
      (if n.Sticks start last then [n.prange] else []) ++ replaced start last nodes := by
  unfold replaced
  rw [List.filter_cons]
  split_ifs <;> simp_all

theorem mem_of_mem_staying {start last k : ℕ} {nodes : List ItNode}
    (h : k ∈ staying start last nodes) : k ∈ nodes.map (·.prange) := by
  obtain ⟨n, hn, rfl⟩ := List.mem_map.1 h
  exact List.mem_map_of_mem (List.mem_of_mem_filter hn)

theorem meeting_subset {start last : ℕ} {nodes : List ItNode} :
    meeting start last nodes ⊆ nodes :=
  fun _ h => List.mem_of_mem_filter h

/-- Nodes the tree has in order, each of which agrees with its range. -/
structure Nodes (m : Mem) (nodes : List ItNode) : Prop where
  ok : ∀ n ∈ nodes, n.Ok m
  ascending : Ascending (nodes.map (·.seg m))
  nodup : (nodes.map (·.prange)).Nodup

theorem Nodes.tail {m : Mem} {n : ItNode} {nodes : List ItNode} (h : Nodes m (n :: nodes)) :
    Nodes m nodes :=
  ⟨fun k hk => h.ok k (List.mem_cons_of_mem _ hk), (ascending_cons.1 h.ascending).2.2,
    (List.nodup_cons.1 h.nodup).2⟩

theorem Nodes.behind {m : Mem} {n : ItNode} {nodes : List ItNode} (h : Nodes m (n :: nodes)) :
    ∀ b ∈ nodes, n.last < b.start ∧ b.start ≤ b.last := fun b hb =>
  ⟨(ascending_cons.1 h.ascending).2.1 _ (List.mem_map_of_mem hb),
    h.ascending.nonempty (b.seg m) (List.mem_map_of_mem (List.mem_cons_of_mem _ hb))⟩

theorem Nodes.seg_eq {m m' : Mem} {nodes : List ItNode} (h : Nodes m nodes)
    (hold : ∀ k < m.next, m'.ranges k = m.ranges k) :
    nodes.map (·.seg m') = nodes.map (·.seg m) :=
  List.map_congr_left fun n hn => by
    rw [ItNode.seg, ItNode.seg, hold _ (h.ok n hn).1]

/-- What a step that only makes ranges leaves as it was. -/
theorem Nodes.mono {m m' : Mem} {nodes : List ItNode} (h : Nodes m nodes)
    (hle : m.next ≤ m'.next) (hold : ∀ k < m.next, m'.ranges k = m.ranges k) : Nodes m' nodes := by
  refine ⟨fun n hn => ?_, by rw [h.seg_eq hold]; exact h.ascending, h.nodup⟩
  obtain ⟨hlt, hseg⟩ := h.ok n hn
  refine ⟨Nat.lt_of_lt_of_le hlt hle, ?_⟩
  rw [hold _ hlt, hseg, ItNode.seg, ItNode.seg, hold _ hlt]

/-- The nodes behind one that was handled, seen from where the loop goes on. -/
theorem Nodes.go_on {m : Mem} {n : ItNode} {nodes : List ItNode} (h : Nodes m (n :: nodes))
    {start last : ℕ} (hn : start ≤ n.last) :
    meeting (min n.last last + 1) last nodes = meeting start last nodes ∧
      (∀ b ∈ nodes, b.Sticks (min n.last last + 1) last ↔ b.Sticks start last) := by
  have hb := h.behind
  constructor
  · refine List.filter_congr fun b hb' => ?_
    obtain ⟨h₁, h₂⟩ := hb b hb'
    rw [decide_eq_decide]
    omega
  · intro b hb'
    obtain ⟨h₁, h₂⟩ := hb b hb'
    unfold ItNode.Sticks
    omega

theorem staying_congr {start start' last : ℕ} {nodes : List ItNode}
    (h : ∀ b ∈ nodes, b.Sticks start' last ↔ b.Sticks start last) :
    staying start' last nodes = staying start last nodes ∧
      replaced start' last nodes = replaced start last nodes := by
  constructor
  · refine congrArg (List.map _) (List.filter_congr fun b hb => ?_)
    rw [decide_eq_decide, h b hb]
  · refine congrArg (List.map _) (List.filter_congr fun b hb => ?_)
    rw [decide_eq_decide, h b hb]

/-- Two stretches of the loop do not see each other's ranges: `A` and `K` are ranges of nodes that
stay, `i` and `i'` the new ones. -/
theorem Grows.apart {o o₁ o' : Overlap} {u i r u' i' r' A K : List ℕ} (hg : Grows o o₁ u i r)
    (hg' : Grows o₁ o' u' i' r') (hA : ∀ k ∈ A, k < o.mem.next) (hK : ∀ k ∈ K, k < o.mem.next)
    (hAK : ∀ k ∈ A, k ∉ K) : ∀ k ∈ A ++ i, k < o₁.mem.next ∧ k ∉ K ++ i' := by
  have hle := hg.next_le
  intro k hk
  have hk₁ : k < o₁.mem.next := by
    rcases List.mem_append.1 hk with hk | hk
    · exact Nat.lt_of_lt_of_le (hA k hk) hle
    · exact (hg.fresh k hk).2
  refine ⟨hk₁, fun hk' => ?_⟩
  rcases List.mem_append.1 hk' with hk' | hk'
  · rcases List.mem_append.1 hk with hk | hk
    · exact hAK k hk hk'
    · have h₁ := hK k hk'
      have h₂ := (hg.fresh k hk).1
      omega
  · have := (hg'.fresh k hk').1
    omega

/-- **The loop**: what stays and what is new are the parts of the nodes that meet the request and
of the gaps before them. -/
theorem overlapLoop_ok {attrs : List SvmAttribute} {last : ℕ} {nodes : List ItNode}
    {seek start start' : ℕ} (hn : Nodes o.mem nodes) (hle : seek ≤ start)
    (hsl : start ≤ last + 1)
    (hseek : ∀ b ∈ nodes, b.start ≤ last → seek ≤ b.last → start ≤ b.last)
    (h : overlapLoop p (svmRangeApplyAttrs p attrs {}) last seek start nodes o =
      (none, start', o')) :
    ∃ u i r, Grows o o' u i r ∧ u.Nodup ∧
      u ⊆ staying start last (meeting start last nodes) ++ i ∧
      r.Perm (replaced start last (meeting start last nodes)) ∧
      ((staying start last (meeting start last nodes) ++ i).map
          (outSeg (svmRangeApplyAttrs p attrs) o'.mem u) ++
        fill (updatedAttrs p attrs) (svmRangeApplyAttrs p attrs (defaultAttrs p)) last start'
          []).Perm
        (fill (updatedAttrs p attrs) (svmRangeApplyAttrs p attrs (defaultAttrs p)) last start
          ((meeting start last nodes).map (·.seg o.mem))) := by
  induction nodes generalizing seek start o with
  | nil =>
    simp only [overlapLoop, Prod.mk.injEq, true_and] at h
    obtain ⟨rfl, rfl⟩ := h
    exact ⟨[], [], [], .refl o, .nil, by simp, .nil, .refl _⟩
  | cons n nodes ih =>
    rw [overlapLoop] at h
    have hbehind := hn.behind
    split_ifs at h with hmeet
    · -- a round for `n`
      split at h
      · simp at h
      · rename_i o₁ hnode
        have hnl := hseek n (by simp) hmeet.1 hmeet.2
        obtain ⟨hmeq, hsticks⟩ := hn.go_on hnl
        have hsticks' : ∀ b ∈ meeting start last nodes, b.Sticks (min n.last last + 1) last ↔
            b.Sticks start last := fun b hb => hsticks b (meeting_subset hb)
        obtain ⟨u, i, hg, hu, hnd, hperm⟩ := overlapNode_ok (hn.ok n (by simp)) hnode
        obtain ⟨u', i', r', hg', hnd', hu', hr', hperm'⟩ := ih (hn.tail.mono hg.next_le hg.old)
          (by omega) (by omega) (fun b hb hbl hbs => by have := hbehind b hb; omega) h
        rw [hmeq, (staying_congr hsticks').1] at hu' hperm'
        rw [hmeq, (staying_congr hsticks').2] at hr'
        have hseg : (meeting start last nodes).map (·.seg o₁.mem) =
            (meeting start last nodes).map (·.seg o.mem) :=
          List.map_congr_left fun b hb => by
            rw [ItNode.seg, ItNode.seg, hg.old _ (hn.tail.ok b (meeting_subset hb)).1]
        rw [hseg] at hperm'
        have hm : meeting start last (n :: nodes) = n :: meeting start last nodes :=
          List.filter_cons_of_pos (by simp [hmeet.1, hnl])
        rw [hm, staying_cons, replaced_cons]
        -- the ranges the round left and those of the rest
        set A := if n.Sticks start last then [] else [n.prange] with hAdef
        set K := staying start last (meeting start last nodes) with hKdef
        have hA : ∀ k ∈ A, k = n.prange := by
          intro k hk
          rw [hAdef] at hk
          split_ifs at hk
          · simp at hk
          · exact List.mem_singleton.1 hk
        have hK : ∀ k ∈ K, k ∈ nodes.map (·.prange) := fun k hk => by
          obtain ⟨b, hb, rfl⟩ := List.mem_map.1 (mem_of_mem_staying hk)
          exact List.mem_map_of_mem (meeting_subset hb)
        have hap := hg.apart hg' (fun k hk => by rw [hA k hk]; exact (hn.ok n (by simp)).1)
          (fun k hk => by
            obtain ⟨b, hb, rfl⟩ := List.mem_map.1 (hK k hk)
            exact (hn.tail.ok b hb).1)
          (fun k hk hk' => by
            rw [hA k hk] at hk'
            exact (List.nodup_cons.1 hn.nodup).1 (hK _ hk'))
        have h₁ : (A ++ i).map (outSeg (svmRangeApplyAttrs p attrs) o'.mem (u' ++ u)) =
            (A ++ i).map (outSeg (svmRangeApplyAttrs p attrs) o₁.mem u) := by
          refine List.map_congr_left fun k hk => outSeg_congr (hg'.old k (hap k hk).1) ?_
          rw [List.mem_append, or_iff_right]
          exact fun hk' => (hap k hk).2 (hu' hk')
        have h₂ : (K ++ i').map (outSeg (svmRangeApplyAttrs p attrs) o'.mem (u' ++ u)) =
            (K ++ i').map (outSeg (svmRangeApplyAttrs p attrs) o'.mem u') := by
          refine List.map_congr_left fun k hk => outSeg_congr rfl ?_
          rw [List.mem_append, or_iff_left]
          exact fun hk' => (hap k (hu hk')).2 hk
        refine ⟨u' ++ u, i' ++ i, _, hg.trans hg', ?_, ?_, ?_, ?_⟩
        · refine List.nodup_append.2 ⟨hnd', hnd, fun k hk l hl => ?_⟩
          rintro rfl
          exact (hap k (hu hl)).2 (hu' hk)
        · intro k hk
          have : k ∈ (K ++ i') ++ (A ++ i) := by
            rcases List.mem_append.1 hk with hk | hk
            · exact List.mem_append_left _ (hu' hk)
            · exact List.mem_append_right _ (hu hk)
          simp only [List.mem_append] at this ⊢
          rcases this with (h | h) | h | h <;> simp [h]
        · exact (List.perm_append_comm).trans (hr'.append_left _)
        · have hsplit : ((A ++ K) ++ (i' ++ i)).Perm ((A ++ i) ++ (K ++ i')) := by
            refine List.perm_iff_count.2 fun k => ?_
            simp only [List.count_append]
            omega
          refine ((hsplit.map _).append_right _).trans ?_
          rw [List.map_append, h₁, h₂, List.append_assoc, List.map_cons, fill]
          exact hperm.append hperm'
    · have hm : meeting start last (n :: nodes) = meeting start last nodes :=
        List.filter_cons_of_neg (by simp only [decide_eq_true_eq]; omega)
      rw [hm]
      exact ih hn.tail hle hsl (fun b hb => hseek b (List.mem_cons_of_mem _ hb)) h

end

end Codrive.Svm
