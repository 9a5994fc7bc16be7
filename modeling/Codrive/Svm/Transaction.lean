/-
# The transaction of a request

What `svm_range_set_attr` makes of the registered ranges.  The registered ranges are a map from
pages to attributes (`Svms.segs`); a request that is carried through replaces it by its overlay
with `updatedAttrs` on the requested pages (`setAttr_segs`), and keeps the interval tree and the
list of ranges in step (`Registered`).  `svm_range_unlink` takes an interval tree node that starts
at page 0 for one that is not in the tree: such nodes stay (`stale`).
-/

import Codrive.Svm.OverlapSpec

namespace Codrive.Svm

open Codrive.Basis

section

variable {p : OpuProcess} {attrs : List SvmAttribute}

/-- **`svm_range_add`** computes the parts of the registered ranges that meet the request and of
the gaps between them. -/
theorem svmRangeAdd_ok {s : Svms} {start size : ℕ} {o : Overlap} (hn : Nodes s.mem s.objects)
    (hsize : 0 < size) (h : svmRangeAdd p s start size attrs = (none, o)) :
    Grows { mem := s.mem } o o.update_list o.insert_list o.remove_list ∧ o.update_list.Nodup ∧
      o.update_list ⊆
        staying start (start + size - 1) (meeting start (start + size - 1) s.objects) ++
        o.insert_list ∧
      o.remove_list.Perm
        (replaced start (start + size - 1) (meeting start (start + size - 1) s.objects)) ∧
      ((staying start (start + size - 1) (meeting start (start + size - 1) s.objects) ++
          o.insert_list).map (outSeg (svmRangeApplyAttrs p attrs) o.mem o.update_list)).Perm
        (fill (updatedAttrs p attrs) (svmRangeApplyAttrs p attrs (defaultAttrs p))
          (start + size - 1) start
          ((meeting start (start + size - 1) s.objects).map (·.seg s.mem))) := by
  unfold svmRangeAdd svmRangeHandleOverlap at h
  generalize hlast : start + size - 1 = last at h ⊢
  simp only at h
  split at h
  · rename_i e o₁ left hov
    split at hov <;> simp at hov h
  · rename_i o₁ left hov
    split at hov
    · simp at hov
    · rename_i start' o₂ hloop
      simp only [Prod.mk.injEq, true_and] at hov
      obtain ⟨rfl, rfl⟩ := hov
      obtain ⟨u, i, r, hg, hnd, hu, hr, hperm⟩ := overlapLoop_ok hn (Nat.le_refl _) (by omega)
        (fun _ _ _ h => h) hloop
      have hu' : o₂.update_list = u := by simpa using hg.update
      have hi' : o₂.insert_list = i := by simpa using hg.insert
      have hr' : o₂.remove_list = r := by simpa using hg.remove
      subst hu' hi' hr'
      rw [fill] at hperm
      by_cases hleft : start' ≤ last
      · -- the pages behind the last node
        rw [if_pos hleft] at h hperm
        rw [if_pos (by omega)] at h
        split at h
        · simp at h
        · rename_i k m hnew
          simp only [Prod.mk.injEq, true_and] at h
          subst h
          obtain ⟨hmade, hk⟩ := svmRangeNew_ok hnew
          have hid := hmade.id
          have hnext := hmade.next
          have hlt : ∀ j ∈ staying start last (meeting start last s.objects) ++ o₂.insert_list,
              j < o₂.mem.next := by
            intro j hj
            rcases List.mem_append.1 hj with hj | hj
            · obtain ⟨n, hn', rfl⟩ := List.mem_map.1 (mem_of_mem_staying hj)
              exact Nat.lt_of_lt_of_le (hn.ok n (meeting_subset hn')).1 hg.next_le
            · exact (hg.fresh j hj).2
          refine ⟨?_, ?_, ?_, hr, ?_⟩
          · have hlast : Grows o₂ { o₂ with
                mem := m, insert_list := k :: o₂.insert_list,
                update_list := k :: o₂.update_list } [k] [k] [] := by
              refine ⟨rfl, rfl, rfl, by dsimp only; omega, fun j hj => ?_, by simp,
                fun j hj => hmade.of_lt hj⟩
              obtain rfl := List.mem_singleton.1 hj
              dsimp only
              omega
            exact hg.trans hlast
          · refine List.nodup_cons.2 ⟨fun hk' => ?_, hnd⟩
            have := hlt k (hu hk')
            omega
          · intro j hj
            rcases List.mem_cons.1 hj with rfl | hj
            · simp
            · rcases List.mem_append.1 (hu hj) with hj | hj <;> simp [hj]
          · have hcongr : (staying start last (meeting start last s.objects) ++
                o₂.insert_list).map (outSeg (svmRangeApplyAttrs p attrs) m (k :: o₂.update_list)) =
                (staying start last (meeting start last s.objects) ++ o₂.insert_list).map
                  (outSeg (svmRangeApplyAttrs p attrs) o₂.mem o₂.update_list) := by
              refine List.map_congr_left fun j hj => outSeg_congr (hmade.of_lt (hlt j hj)) ?_
              have := hlt j hj
              simp [show j ≠ k by omega]
            refine .trans ?_ hperm
            refine ((List.perm_middle (a := k)).map _).trans ?_
            rw [List.map_cons, hcongr, outSeg_of_mem (by simp), hk,
              show last + 1 - (last - start' + 1) = start' by omega]
            exact (List.perm_append_singleton ..).symm
      · rw [if_neg hleft] at h hperm
        simp only [ne_eq, not_true_eq_false, if_false, Prod.mk.injEq, true_and] at h
        subst h
        rw [List.append_nil] at hperm
        exact ⟨hg, hnd, hu, hr, hperm⟩

/-! ### The steps of the transaction -/

/-- The node `svm_range_add_to_svms` makes for range `k`. -/
def ItNode.of (m : Mem) (k : ℕ) : ItNode := ⟨(m.ranges k).start, (m.ranges k).last, k⟩

theorem perm_intervalTreeInsert (n : ItNode) (l : List ItNode) :
    (intervalTreeInsert n l).Perm (n :: l) :=
  List.perm_orderedInsert _ n l

/-- The tree stays in the order of the starts. -/
theorem pairwise_intervalTreeInsert {n : ItNode} {l : List ItNode}
    (h : l.Pairwise fun a b => a.start ≤ b.start) :
    (intervalTreeInsert n l).Pairwise fun a b => a.start ≤ b.start := by
  induction l with
  | nil => simp [intervalTreeInsert]
  | cons b l ih =>
    obtain ⟨hb, hl⟩ := List.pairwise_cons.1 h
    unfold intervalTreeInsert
    rw [List.orderedInsert]
    split_ifs with hlt
    · refine .cons (fun c hc => ?_) h
      rcases List.mem_cons.1 hc with rfl | hc
      · exact hlt.le
      · exact hlt.le.trans (hb c hc)
    · refine .cons (fun c hc => ?_) (ih hl)
      rcases List.mem_cons.1 ((perm_intervalTreeInsert n l).mem_iff.1 hc) with rfl | hc
      · exact Nat.le_of_not_lt hlt
      · exact hb c hc

/-- What adding one range to the tree, the list and the notifiers does. -/
theorem addRange_ok (s : Svms) (k : ℕ) :
    (svmRangeAddNotifierLocked (svmRangeAddToSvms s k) k).mem.next = s.mem.next ∧
      (svmRangeAddNotifierLocked (svmRangeAddToSvms s k) k).objects =
        intervalTreeInsert (.of s.mem k) s.objects ∧
      (svmRangeAddNotifierLocked (svmRangeAddToSvms s k) k).list = s.list ++ [k] ∧
      (∀ j, j ≠ k → (svmRangeAddNotifierLocked (svmRangeAddToSvms s k) k).mem.ranges j =
        s.mem.ranges j) ∧
      ((svmRangeAddNotifierLocked (svmRangeAddToSvms s k) k).mem.ranges k).seg =
        (s.mem.ranges k).seg ∧
      ((svmRangeAddNotifierLocked (svmRangeAddToSvms s k) k).mem.ranges k).it_start =
        (s.mem.ranges k).start ∧
      ((svmRangeAddNotifierLocked (svmRangeAddToSvms s k) k).mem.ranges k).it_last =
        (s.mem.ranges k).last := by
  unfold svmRangeAddNotifierLocked svmRangeAddToSvms
  simp only
  split_ifs
  all_goals
    refine ⟨rfl, rfl, rfl, fun j hj => ?_, ?_, ?_, ?_⟩
    · dsimp only
      rw [Mem.setRange_of_ne _ _ hj, Mem.setRange_of_ne _ _ hj]
    · dsimp only
      rw [Mem.setRange_self, Mem.setRange_self]
      rfl
    · dsimp only
      rw [Mem.setRange_self, Mem.setRange_self]
    · dsimp only
      rw [Mem.setRange_self, Mem.setRange_self]

/-- **The inserts.** -/
theorem insertAll_ok {i : List ℕ} (hi : i.Nodup) (s : Svms) :
    (insertAll s i).mem.next = s.mem.next ∧
      (insertAll s i).objects.Perm (i.map (ItNode.of s.mem) ++ s.objects) ∧
      (insertAll s i).list = s.list ++ i ∧
      (∀ j, j ∉ i → (insertAll s i).mem.ranges j = s.mem.ranges j) ∧
      (∀ j, ((insertAll s i).mem.ranges j).seg = (s.mem.ranges j).seg) ∧
      (∀ j ∈ i, ((insertAll s i).mem.ranges j).it_start = (s.mem.ranges j).start ∧
        ((insertAll s i).mem.ranges j).it_last = (s.mem.ranges j).last) ∧
      (s.objects.Pairwise (fun a b => a.start ≤ b.start) →
        (insertAll s i).objects.Pairwise fun a b => a.start ≤ b.start) := by
  induction i generalizing s with
  | nil =>
    exact ⟨rfl, .refl _, (List.append_nil _).symm, fun _ _ => rfl, fun _ => rfl, by simp, id⟩
  | cons k i ih =>
    obtain ⟨hk, hi⟩ := List.nodup_cons.1 hi
    obtain ⟨h₁, h₂, h₃, h₄, h₅, h₆, h₇⟩ := addRange_ok s k
    obtain ⟨g₁, g₂, g₃, g₄, g₅, g₆, g₇⟩ :=
      ih hi (svmRangeAddNotifierLocked (svmRangeAddToSvms s k) k)
    rw [show insertAll s (k :: i) =
      insertAll (svmRangeAddNotifierLocked (svmRangeAddToSvms s k) k) i from rfl]
    generalize svmRangeAddNotifierLocked (svmRangeAddToSvms s k) k = s₁ at *
    have hne : ∀ j ∈ i, j ≠ k := fun j hj he => hk (he ▸ hj)
    have hof : i.map (ItNode.of s₁.mem) = i.map (ItNode.of s.mem) :=
        List.map_congr_left fun j hj => by
      rw [ItNode.of, ItNode.of, h₄ j (hne j hj)]
    refine ⟨g₁.trans h₁, ?_, ?_, fun j hj => ?_, fun j => ?_, fun j hj => ?_, fun hs => ?_⟩
    · refine g₂.trans ?_
      rw [hof, h₂]
      exact ((perm_intervalTreeInsert ..).append_left _).trans List.perm_middle
    · rw [g₃, h₃, List.append_assoc]
      rfl
    · obtain ⟨hjk, hji⟩ := List.ne_and_not_mem_of_not_mem_cons hj
      rw [g₄ j hji, h₄ j hjk]
    · rw [g₅ j]
      by_cases hjk : j = k
      · rw [hjk, h₅]
      · rw [h₄ j hjk]
    · rcases List.mem_cons.1 hj with rfl | hj
      · rw [g₄ j hk]
        exact ⟨h₆, h₇⟩
      · rw [← h₄ j (hne j hj)]
        exact g₆ j hj
    · refine g₇ ?_
      rw [h₂]
      exact pairwise_intervalTreeInsert hs

/-- **The updates.** -/
theorem updateAll_ok {u : List ℕ} (hu : u.Nodup) (s : Svms) :
    (updateAll p attrs s u).mem.next = s.mem.next ∧
      (updateAll p attrs s u).objects = s.objects ∧ (updateAll p attrs s u).list = s.list ∧
      ∀ j, (updateAll p attrs s u).mem.ranges j = { s.mem.ranges j with
        toSvmAttrs := if j ∈ u then svmRangeApplyAttrs p attrs (s.mem.ranges j).toSvmAttrs
          else (s.mem.ranges j).toSvmAttrs } := by
  induction u generalizing s with
  | nil => exact ⟨rfl, rfl, rfl, fun j => by rw [if_neg (by simp)]; rfl⟩
  | cons k u ih =>
    obtain ⟨hk, hu⟩ := List.nodup_cons.1 hu
    obtain ⟨h₁, h₂, h₃, h₄⟩ := ih hu { s with mem := s.mem.setRange k fun r =>
      { r with toSvmAttrs := svmRangeApplyAttrs p attrs r.toSvmAttrs } }
    refine ⟨h₁, h₂, h₃, fun j => ?_⟩
    refine (h₄ j).trans ?_
    by_cases hjk : j = k
    · subst hjk
      dsimp only
      rw [Mem.setRange_self, if_neg hk, if_pos (by simp)]
    · dsimp only
      rw [Mem.setRange_of_ne _ _ hjk]
      simp [hjk]

/-- Freeing a range changes what backs ranges only. -/
theorem svmRangeFree_same (p : OpuProcess) (m : Mem) (i : ℕ) :
    (svmRangeFree p m i).next = m.next ∧
      ∀ k, SameButBacking (m.ranges k) ((svmRangeFree p m i).ranges k) := by
  have hfold : ∀ (l : List ℕ) (m : Mem),
      (l.foldl (fun m i => m.setRange i fun r => { r with svm_bo := none }) m).next = m.next ∧
      ∀ k, SameButBacking (m.ranges k)
        ((l.foldl (fun m i => m.setRange i fun r => { r with svm_bo := none }) m).ranges k) := by
    intro l
    induction l with
    | nil => exact fun m => ⟨rfl, fun k => .refl _⟩
    | cons j l ih =>
      intro m
      obtain ⟨h₁, h₂⟩ := ih (m.setRange j fun r => { r with svm_bo := none })
      exact ⟨h₁, fun k => (SameButBacking.setRange m j k fun r => ⟨_, _, _, _, rfl⟩).trans (h₂ k)⟩
  have hbo : (svmRangeBoUnref m (m.ranges i).svm_bo).next = m.next ∧
      ∀ k, SameButBacking (m.ranges k)
        ((svmRangeBoUnref m (m.ranges i).svm_bo).ranges k) := by
    cases (m.ranges i).svm_bo with
    | none => exact ⟨rfl, fun k => .refl _⟩
    | some b =>
      rw [svmRangeBoUnref]
      split
      · exact hfold _ (m.setBo b fun bo => { bo with kref := bo.kref - 1 })
      · exact ⟨rfl, fun k => .refl _⟩
  have hnode : ∀ (m : Mem) (k : ℕ), SameButBacking (m.ranges k)
      ((m.setRange i fun r => { r with ttm_res := none }).ranges k) :=
    fun m k => .setRange m i k fun r => ⟨_, _, _, _, rfl⟩
  have hdma : ∀ (m : Mem) (k : ℕ),
      SameButBacking (m.ranges k) ((svmRangeFreeDmaMappings p m i).ranges k) :=
    fun m k => .setRange m i k fun r => ⟨_, _, _, _, rfl⟩
  exact ⟨hbo.1, fun k => ((hbo.2 k).trans (hnode _ k)).trans (hdma _ k)⟩

/-- Whether `svm_range_unlink` takes the range out of the tree. -/
def Unlinks (m : Mem) (k : ℕ) : Prop := (m.ranges k).it_start ≠ 0 ∧ (m.ranges k).it_last ≠ 0

instance (m : Mem) (k : ℕ) : Decidable (Unlinks m k) := inferInstanceAs (Decidable (_ ∧ _))

/-- What replacing one old range does. -/
theorem removeOld_ok (p : OpuProcess) (s : Svms) (k : ℕ) :
    (removeOld p s k).mem.next = s.mem.next ∧
      (removeOld p s k).objects =
        (if Unlinks s.mem k then intervalTreeRemove k s.objects else s.objects) ∧
      (removeOld p s k).list = s.list.erase k ∧
      ∀ j, SameButBacking (s.mem.ranges j) ((removeOld p s k).mem.ranges j) := by
  have hr : (svmRangeUnlink s k).mem.ranges = s.mem.ranges ∧
      (svmRangeUnlink s k).mem.next = s.mem.next := by
    unfold svmRangeUnlink
    simp only
    split <;> exact ⟨rfl, rfl⟩
  have hn : (svmRangeRemoveNotifier (svmRangeUnlink s k) k).mem = (svmRangeUnlink s k).mem ∧
      (svmRangeRemoveNotifier (svmRangeUnlink s k) k).objects = (svmRangeUnlink s k).objects ∧
      (svmRangeRemoveNotifier (svmRangeUnlink s k) k).list = (svmRangeUnlink s k).list := by
    unfold svmRangeRemoveNotifier
    simp only
    split <;> exact ⟨rfl, rfl, rfl⟩
  obtain ⟨hf₁, hf₂⟩ := svmRangeFree_same p (svmRangeRemoveNotifier (svmRangeUnlink s k) k).mem k
  refine ⟨hf₁.trans (by rw [hn.1, hr.2]), hn.2.1, hn.2.2, fun j => ?_⟩
  rw [← hr.1, ← hn.1]
  exact hf₂ j

theorem intervalTreeRemove_eq {k : ℕ} {l : List ItNode} (h : (l.map (·.prange)).Nodup) :
    intervalTreeRemove k l = l.filter (·.prange ≠ k) := by
  induction l with
  | nil => rfl
  | cons n l ih =>
    obtain ⟨hn, hl⟩ := List.nodup_cons.1 h
    unfold intervalTreeRemove at *
    by_cases hk : n.prange = k
    · rw [List.eraseP_cons_of_pos (by simpa using hk), List.filter_cons_of_neg (by simpa using hk)]
      refine (List.filter_eq_self.2 fun b hb => ?_).symm
      have hbk : b.prange ≠ k := by
        rintro rfl
        exact hn (List.mem_map.2 ⟨b, hb, hk.symm⟩)
      simpa using hbk
    · rw [List.eraseP_cons_of_neg (by simpa using hk), List.filter_cons_of_pos (by simpa using hk),
        ih hl]

/-- **The removals**: a node is gone if its range was replaced and `svm_range_unlink` took it for
one of the tree. -/
theorem removeAll_ok (p : OpuProcess) {l : List ℕ} {s : Svms}
    (hs : (s.objects.map (·.prange)).Nodup) :
    (l.foldl (removeOld p) s).mem.next = s.mem.next ∧
      (l.foldl (removeOld p) s).objects =
        s.objects.filter (fun n => ¬(n.prange ∈ l ∧ Unlinks s.mem n.prange)) ∧
      (l.foldl (removeOld p) s).list = s.list.diff l ∧
      ∀ j, SameButBacking (s.mem.ranges j) ((l.foldl (removeOld p) s).mem.ranges j) := by
  induction l generalizing s with
  | nil => exact ⟨rfl, by simp, by simp, fun j => .refl _⟩
  | cons k l ih =>
    obtain ⟨h₁, h₂, h₃, h₄⟩ := removeOld_ok p s k
    have hobj : (removeOld p s k).objects =
        s.objects.filter fun n => ¬(n.prange = k ∧ Unlinks s.mem k) := by
      rw [h₂, intervalTreeRemove_eq hs]
      split_ifs with hu <;> simp [hu]
    have hu : ∀ j, Unlinks (removeOld p s k).mem j ↔ Unlinks s.mem j := fun j => by
      obtain ⟨d, t, o, b, hj⟩ := h₄ j
      rw [Unlinks, Unlinks, hj]
    obtain ⟨g₁, g₂, g₃, g₄⟩ := ih (s := removeOld p s k) (by
      rw [hobj]
      exact hs.sublist (List.filter_sublist.map _))
    refine ⟨g₁.trans h₁, ?_, ?_, fun j => (h₄ j).trans (g₄ j)⟩
    · rw [List.foldl_cons, g₂, hobj, List.filter_filter]
      refine List.filter_congr fun n _ => ?_
      rw [Bool.eq_iff_iff]
      simp only [Bool.and_eq_true, decide_eq_true_eq, hu, List.mem_cons]
      constructor
      · rintro ⟨ha, hb⟩ ⟨hc | hc, hd⟩
        · exact hb ⟨hc, hc ▸ hd⟩
        · exact ha ⟨hc, hd⟩
      · intro ha
        exact ⟨fun ⟨hb, hc⟩ => ha ⟨.inr hb, hc⟩, fun ⟨hb, hc⟩ => ha ⟨.inl hb, hb ▸ hc⟩⟩
    · rw [List.foldl_cons, g₃, h₃, List.diff_cons]

end

/-! ### The registered ranges -/

/-- The map from pages to attributes the registered ranges are. -/
def Svms.segs (s : Svms) : List (Seg SvmAttrs) := s.objects.map (·.seg s.mem)

/-- The registered ranges: the interval tree has them in order and pairwise disjoint, and its
nodes, the ranges and the list of ranges agree. -/
structure Registered (s : Svms) : Prop where
  nodes : Nodes s.mem s.objects
  linked : ∀ n ∈ s.objects,
    (s.mem.ranges n.prange).it_start = n.start ∧ (s.mem.ranges n.prange).it_last = n.last
  list : s.list.Perm (s.objects.map (·.prange))

/-- The nodes at page 0 that meet `[start, last]`. -/
def stale (start last : ℕ) (objects : List ItNode) : List ItNode :=
  (meeting start last objects).filter (·.start = 0)

section

variable {p : OpuProcess} {attrs : List SvmAttribute} {mm : List Vma} {s t : Svms}
  {start size : ℕ}

/-- The lists of a request that is carried through, and the transaction over them. -/
theorem setAttr_cases (h : svmRangeSetAttr p mm s start size attrs = (none, t)) :
    ∃ o, svmRangeAdd p s start size attrs = (none, o) ∧
      t = o.remove_list.foldl (removeOld p)
        (updateAll p attrs (insertAll { s with mem := o.mem } o.insert_list) o.update_list) := by
  unfold svmRangeSetAttr at h
  split at h
  · simp at h
  · split at h
    · simp at h
    · split at h
      · simp at h
      · rename_i o hadd
        obtain ⟨-, rfl⟩ := Prod.mk.inj h
        exact ⟨o, hadd, rfl⟩

/-- **The tree and the ranges after a request.** -/
theorem setAttr_effect (hs : Registered s) (hsize : 0 < size)
    (h : svmRangeSetAttr p mm s start size attrs = (none, t)) :
    ∃ o, svmRangeAdd p s start size attrs = (none, o) ∧ t.mem.next = o.mem.next ∧
      t.objects.Perm (o.insert_list.map (ItNode.of o.mem) ++
        s.objects.filter fun n => ¬(n.prange ∈ o.remove_list ∧ n.start ≠ 0 ∧ n.last ≠ 0)) ∧
      t.list = (s.list ++ o.insert_list).diff o.remove_list ∧
      (t.objects.Pairwise fun a b => a.start ≤ b.start) ∧
      (∀ k, (t.mem.ranges k).seg = outSeg (svmRangeApplyAttrs p attrs) o.mem o.update_list k) ∧
      (∀ k ∈ o.insert_list, (t.mem.ranges k).it_start = (o.mem.ranges k).start ∧
        (t.mem.ranges k).it_last = (o.mem.ranges k).last) ∧
      (∀ n ∈ s.objects, (t.mem.ranges n.prange).it_start = n.start ∧
        (t.mem.ranges n.prange).it_last = n.last) := by
  obtain ⟨o, hadd, rfl⟩ := setAttr_cases h
  obtain ⟨hg, hnd, hu, hr, -⟩ := svmRangeAdd_ok hs.nodes hsize hadd
  obtain ⟨i₁, i₂, i₃, i₄, i₅, i₆, i₇⟩ := insertAll_ok hg.nodup { s with mem := o.mem }
  obtain ⟨u₁, u₂, u₃, u₄⟩ := @updateAll_ok p attrs _ hnd
    (insertAll { s with mem := o.mem } o.insert_list)
  generalize insertAll { s with mem := o.mem } o.insert_list = s₁ at *
  generalize updateAll p attrs s₁ o.update_list = s₂ at *
  dsimp only at i₁ i₂ i₃ i₄ i₅ i₆ i₇
  -- the new ranges are none of the registered ones
  have hlt : ∀ n ∈ s.objects, n.prange < s.mem.next := fun n hn => (hs.nodes.ok n hn).1
  have hni : ∀ n ∈ s.objects, n.prange ∉ o.insert_list := fun n hn hi => by
    have h₁ := hlt n hn
    have h₂ := (hg.fresh _ hi).1
    dsimp only at h₂
    omega
  have hir : ∀ k ∈ o.insert_list, k ∉ o.remove_list := fun k hk hkr => by
    obtain ⟨n, hn, rfl⟩ := List.mem_map.1 (hr.mem_iff.1 hkr)
    exact hni n (meeting_subset (List.mem_of_mem_filter hn)) hk
  have hids : (s₂.objects.map (·.prange)).Nodup := by
    rw [u₂]
    refine ((i₂.map _).nodup_iff).2 ?_
    rw [List.map_append, List.map_map]
    refine List.nodup_append.2 ⟨by simpa [Function.comp_def, ItNode.of] using hg.nodup,
      hs.nodes.nodup, ?_⟩
    intro k hk j hj
    obtain ⟨k', hk', rfl⟩ := List.mem_map.1 hk
    obtain ⟨n, hn, rfl⟩ := List.mem_map.1 hj
    rintro (he : k' = n.prange)
    exact hni n hn (he ▸ hk')
  obtain ⟨r₁, r₂, r₃, r₄⟩ := removeAll_ok p (l := o.remove_list) hids
  have hit : ∀ n ∈ s.objects, (s₂.mem.ranges n.prange).it_start = n.start ∧
      (s₂.mem.ranges n.prange).it_last = n.last := fun n hn => by
    rw [u₄, i₄ _ (hni n hn), hg.old _ (hlt n hn)]
    exact hs.linked n hn
  refine ⟨o, hadd, ?_, ?_, ?_, ?_, fun k => ?_, fun k hk => ?_, fun n hn => ?_⟩
  · rw [r₁, u₁, i₁]
  · rw [r₂, u₂]
    refine (i₂.filter _).trans ?_
    rw [List.filter_append]
    refine .append (.of_eq (List.filter_eq_self.2 fun n hn => ?_))
      (.of_eq (List.filter_congr fun n hn => ?_))
    · obtain ⟨k, hk, rfl⟩ := List.mem_map.1 hn
      simp [ItNode.of, hir k hk]
    · obtain ⟨h₁, h₂⟩ := hit n hn
      rw [decide_eq_decide, Unlinks, h₁, h₂]
  · rw [r₃, u₃, i₃]
  · rw [r₂, u₂]
    refine List.Pairwise.filter _ (i₇ ?_)
    refine (List.pairwise_map.1 hs.nodes.ascending.lt).imp_of_mem fun {a b} ha hb hab => ?_
    exact Nat.le_trans (hs.nodes.ascending.nonempty _ (List.mem_map_of_mem ha)) hab.le
  · obtain ⟨d, t, b, c, hk⟩ := r₄ k
    have h₁ : (s₁.mem.ranges k).start = (o.mem.ranges k).start := congrArg Seg.start (i₅ k)
    have h₂ : (s₁.mem.ranges k).last = (o.mem.ranges k).last := congrArg Seg.last (i₅ k)
    have h₃ : (s₁.mem.ranges k).toSvmAttrs = (o.mem.ranges k).toSvmAttrs :=
      congrArg Seg.val (i₅ k)
    rw [hk, u₄, SvmRange.seg, outSeg, ← h₁, ← h₂, ← h₃]
  · obtain ⟨d, t, b, c, hj⟩ := r₄ k
    rw [hj, u₄]
    exact i₆ k hk
  · obtain ⟨d, t, b, c, hj⟩ := r₄ n.prange
    rw [hj]
    exact hit n hn

/-- A list of two kinds of elements. -/
theorem filter_perm_of_or {α : Type*} {l : List α} {q : α → Bool} (q₁ q₂ : α → Bool)
    (h : ∀ a ∈ l, q a = (q₁ a || q₂ a)) (hd : ∀ a ∈ l, q₁ a = true → q₂ a = false) :
    (l.filter q).Perm (l.filter q₁ ++ l.filter q₂) := by
  induction l with
  | nil => exact .nil
  | cons a l ih =>
    have hrest := ih (fun b hb => h b (List.mem_cons_of_mem _ hb))
      (fun b hb => hd b (List.mem_cons_of_mem _ hb))
    have ha := h a (by simp)
    cases h₁ : q₁ a
    · cases h₂ : q₂ a
      · rw [h₁, h₂] at ha
        simpa [List.filter_cons, ha, h₁, h₂] using hrest
      · rw [h₁, h₂] at ha
        simp only [List.filter_cons, ha, h₁, h₂]
        exact (hrest.cons a).trans List.perm_middle.symm
    · have h₂ := hd a (by simp) h₁
      rw [h₁, h₂] at ha
      simpa [List.filter_cons, ha, h₁, h₂] using hrest

/-- The range of a node was replaced just if the node meets the request and sticks out of it. -/
theorem mem_replaced {start last : ℕ} {nodes : List ItNode} (hn : (nodes.map (·.prange)).Nodup)
    {n : ItNode} (h : n ∈ nodes) : n.prange ∈ replaced start last (meeting start last nodes) ↔
      (n.start ≤ last ∧ start ≤ n.last) ∧ n.Sticks start last := by
  unfold replaced meeting
  constructor
  · intro hk
    obtain ⟨b, hb, he⟩ := List.mem_map.1 hk
    obtain ⟨hb, hst⟩ := List.mem_filter.1 hb
    obtain ⟨hb, hm⟩ := List.mem_filter.1 hb
    obtain rfl := List.inj_on_of_nodup_map hn hb h he
    exact ⟨of_decide_eq_true hm, of_decide_eq_true hst⟩
  · rintro ⟨hm, hst⟩
    exact List.mem_map_of_mem (List.mem_filter.2
      ⟨List.mem_filter.2 ⟨h, decide_eq_true hm⟩, decide_eq_true hst⟩)

/-- The nodes the transaction leaves in the tree: those that do not meet the request, those that
lie in it, and those that should be gone. -/
theorem kept_perm (hs : Registered s) (hstart : 0 < start) {last : ℕ} {r : List ℕ}
    (hr : r.Perm (replaced start last (meeting start last s.objects))) :
    (s.objects.filter fun n => ¬(n.prange ∈ r ∧ n.start ≠ 0 ∧ n.last ≠ 0)).Perm
      ((s.objects.filter fun n => ¬(n.start ≤ last ∧ start ≤ n.last)) ++
        ((meeting start last s.objects).filter (¬·.Sticks start last) ++
          stale start last s.objects)) := by
  have hiff : ∀ n ∈ s.objects, n.prange ∈ r ↔
      (n.start ≤ last ∧ start ≤ n.last) ∧ n.Sticks start last := fun n hn => by
    rw [hr.mem_iff, mem_replaced hs.nodes.nodup hn]
  refine (filter_perm_of_or (fun n => ¬(n.start ≤ last ∧ start ≤ n.last))
    (fun n => (n.start ≤ last ∧ start ≤ n.last) ∧ (¬n.Sticks start last ∨ n.start = 0))
    (fun n hn => ?_) (fun n hn h => ?_)).trans (.append_left _ ?_)
  · rw [Bool.eq_iff_iff]
    simp only [Bool.or_eq_true, decide_eq_true_eq, hiff n hn]
    unfold ItNode.Sticks
    omega
  · simp only [decide_eq_true_eq] at h
    simp [h]
  · unfold stale meeting
    rw [List.filter_filter, List.filter_filter]
    refine filter_perm_of_or _ _ (fun n _ => ?_) (fun n _ h => ?_)
    · rw [Bool.eq_iff_iff]
      simp only [Bool.or_eq_true, Bool.and_eq_true, decide_eq_true_eq]
      unfold ItNode.Sticks
      omega
    · unfold ItNode.Sticks at h
      simp only [Bool.and_eq_true, decide_eq_true_eq, Bool.and_eq_false_iff,
        decide_eq_false_iff_not] at h ⊢
      omega

/-- **A request overlays the registered ranges**, but for the nodes at page 0 that stay in the
tree. -/
theorem setAttr_segs (hs : Registered s) (hstart : 0 < start) (hsize : 0 < size)
    (h : svmRangeSetAttr p mm s start size attrs = (none, t)) :
    t.segs.Perm (overlay (updatedAttrs p attrs) (svmRangeApplyAttrs p attrs (defaultAttrs p)) start
        (start + size - 1) s.segs ++
      (stale start (start + size - 1) s.objects).map (·.seg s.mem)) := by
  obtain ⟨o, hadd, -, hobj, -, -, hseg, -, -⟩ := setAttr_effect hs hsize h
  obtain ⟨hg, -, hu, hr, hfill⟩ := svmRangeAdd_ok hs.nodes hsize hadd
  generalize hlast : start + size - 1 = last at *
  have hval : ∀ k, (t.mem.ranges k).toSvmAttrs =
      (outSeg (svmRangeApplyAttrs p attrs) o.mem o.update_list k).val := fun k =>
    congrArg Seg.val (hseg k)
  -- a node of the tree and its range say the same
  have hold : ∀ n ∈ s.objects, n.seg t.mem =
      outSeg (svmRangeApplyAttrs p attrs) o.mem o.update_list n.prange := fun n hn => by
    obtain ⟨hlt, hok⟩ := hs.nodes.ok n hn
    have h₁ : (o.mem.ranges n.prange).start = n.start := by
      rw [hg.old _ hlt]
      exact congrArg Seg.start hok
    have h₂ : (o.mem.ranges n.prange).last = n.last := by
      rw [hg.old _ hlt]
      exact congrArg Seg.last hok
    rw [ItNode.seg, hval, outSeg, h₁, h₂]
  have hnew : (o.insert_list.map (ItNode.of o.mem)).map (·.seg t.mem) =
      o.insert_list.map (outSeg (svmRangeApplyAttrs p attrs) o.mem o.update_list) := by
    rw [List.map_map]
    refine List.map_congr_left fun k _ => ?_
    show (⟨_, _, (t.mem.ranges k).toSvmAttrs⟩ : Seg SvmAttrs) = _
    rw [hval]
    rfl
  -- and nothing happened to one that is not on the update list
  have hsame : ∀ n ∈ s.objects, n.prange ∉ o.update_list → n.seg t.mem = n.seg s.mem :=
    fun n hn hnu => by
      rw [hold n hn, outSeg_of_not_mem hnu, hg.old _ (hs.nodes.ok n hn).1, (hs.nodes.ok n hn).2]
  have hnu : ∀ n ∈ s.objects, (¬(n.start ≤ last ∧ start ≤ n.last) ∨ n.Sticks start last) →
      n.prange ∉ o.update_list := fun n hn hn' hnu => by
    rcases List.mem_append.1 (hu hnu) with hk | hk
    · obtain ⟨b, hb, he⟩ := List.mem_map.1 hk
      obtain ⟨hb, hst⟩ := List.mem_filter.1 hb
      obtain ⟨hb, hm⟩ := List.mem_filter.1 hb
      obtain rfl := List.inj_on_of_nodup_map hs.nodes.nodup hb hn he
      rcases hn' with hn' | hn'
      · exact hn' (of_decide_eq_true hm)
      · exact (of_decide_eq_true hst) hn'
    · have h₁ := (hs.nodes.ok n hn).1
      have h₂ := (hg.fresh _ hk).1
      dsimp only at h₂
      omega
  have hout : (s.objects.filter fun n => ¬(n.start ≤ last ∧ start ≤ n.last)).map (·.seg t.mem) =
      s.segs.filter (¬Meets start last ·) := by
    rw [Svms.segs, List.filter_map]
    refine List.map_congr_left fun n hn => ?_
    obtain ⟨hn, hm⟩ := List.mem_filter.1 hn
    exact hsame n hn (hnu n hn (.inl (of_decide_eq_true hm)))
  have hin : (meeting start last s.objects).map (·.seg s.mem) =
      s.segs.filter (Meets start last ·) := by
    rw [Svms.segs, List.filter_map]
    rfl
  have hstay : ((meeting start last s.objects).filter (¬·.Sticks start last)).map (·.seg t.mem) =
      (staying start last (meeting start last s.objects)).map
        (outSeg (svmRangeApplyAttrs p attrs) o.mem o.update_list) := by
    rw [staying, List.map_map]
    exact List.map_congr_left fun n hn => hold n (meeting_subset (List.mem_of_mem_filter hn))
  have hstale : (stale start last s.objects).map (·.seg t.mem) =
      (stale start last s.objects).map (·.seg s.mem) := by
    refine List.map_congr_left fun n hn => ?_
    obtain ⟨hn, h0⟩ := List.mem_filter.1 hn
    have h0 : n.start = 0 := of_decide_eq_true h0
    exact hsame n (meeting_subset hn)
      (hnu n (meeting_subset hn) (.inr (.inl (by omega))))
  rw [hin] at hfill
  have hkept := (kept_perm hs hstart hr).map (·.seg t.mem)
  rw [List.map_append, List.map_append, hout, hstay, hstale] at hkept
  have h₁ := (hobj.map (·.seg t.mem))
  rw [List.map_append, hnew] at h₁
  refine (h₁.trans (hkept.append_left _)).trans ?_
  rw [List.map_append] at hfill
  unfold overlay
  rw [List.append_assoc]
  refine List.perm_append_comm_assoc .. |>.trans (.append_left _ ?_)
  rw [← List.append_assoc]
  exact (List.perm_append_comm.trans hfill).append_right _

end

end Codrive.Svm
