/-
# What making, splitting and cloning a range does

One lemma for each of `svm_range_new`, `svm_range_split` and `svm_range_clone` when it succeeds:
which range is new, what the interval and the attributes of the ranges involved are afterwards,
and that no other range has changed.
-/

import Codrive.Basis.Segments
import Codrive.Svm.Range

namespace Codrive.Svm

open Codrive.Basis

/-- The interval of a range with its attributes. -/
def SvmRange.seg (r : SvmRange) : Seg SvmAttrs := ⟨r.start, r.last, r.toSvmAttrs⟩

/-- From `m` to `m'` the range `i` is new, and only it and `touched` have changed. -/
structure Made (m m' : Mem) (i : ℕ) (touched : List ℕ) : Prop where
  id : i = m.next
  next : m'.next = m.next + 1
  other : ∀ k, k ≠ i → k ∉ touched → m'.ranges k = m.ranges k

theorem Made.of_lt {m m' : Mem} {i : ℕ} (h : Made m m' i []) {k : ℕ} (hk : k < m.next) :
    m'.ranges k = m.ranges k :=
  h.other k (by have := h.id; omega) (by simp)

section

variable {p : OpuProcess} {m m' : Mem}

/-- **A new range** has the default attributes. -/
theorem svmRangeNew_ok {start last i : ℕ} (h : svmRangeNew p start last m = (some i, m')) :
    Made m m' i [] ∧ m'.ranges i =
      { defaultAttrs p with start := start, last := last, npages := last - start + 1 } := by
  unfold svmRangeNew at h
  split at h
  · simp at h
  · rename_i m₁ hm
    have hr : m₁ = m.kalloc.2 := by rw [hm]
    subst hr
    simp only [Prod.mk.injEq, Option.some.injEq] at h
    obtain ⟨rfl, rfl⟩ := h
    exact ⟨⟨rfl, rfl, fun k hk _ => Function.update_of_ne hk ..⟩, Function.update_self ..⟩

/-- Two ranges that differ in what backs their pages at most: the DMA addresses and the buffer. -/
def SameButBacking (r r' : SvmRange) : Prop :=
  ∃ d t o b, r' = { r with dma_addr := d, ttm_res := t, offset := o, svm_bo := b }

theorem SameButBacking.refl (r : SvmRange) : SameButBacking r r := ⟨_, _, _, _, rfl⟩

theorem SameButBacking.trans {r r' r'' : SvmRange} (h : SameButBacking r r')
    (h' : SameButBacking r' r'') : SameButBacking r r'' := by
  obtain ⟨d, t, o, b, rfl⟩ := h
  obtain ⟨d', t', o', b', rfl⟩ := h'
  exact ⟨d', t', o', b', rfl⟩

theorem SameButBacking.setRange (m : Mem) (i k : ℕ) {f : SvmRange → SvmRange}
    (hf : ∀ r, SameButBacking r (f r)) :
    SameButBacking (m.ranges k) ((m.setRange i f).ranges k) := by
  by_cases hk : k = i
  · subst hk
    rw [Mem.setRange_self]
    exact hf _
  · rw [Mem.setRange_of_ne m _ hk]
    exact .refl _

/-- From `m` to `m'` no range is new, none but `i` and `j` has changed, and they in what backs
them at most. -/
structure Backed (m m' : Mem) (i j : ℕ) : Prop where
  next : m'.next = m.next
  other : ∀ k, k ≠ i → k ≠ j → m'.ranges k = m.ranges k
  same : ∀ k, SameButBacking (m.ranges k) (m'.ranges k)

theorem Backed.of_ranges {m m' : Mem} (i j : ℕ) (hr : m'.ranges = m.ranges)
    (hn : m'.next = m.next) : Backed m m' i j :=
  ⟨hn, fun k _ _ => by rw [hr], fun k => by rw [hr]; exact .refl _⟩

theorem Backed.trans {m m' m'' : Mem} {i j : ℕ} (h : Backed m m' i j) (h' : Backed m' m'' i j) :
    Backed m m'' i j :=
  ⟨h'.next.trans h.next, fun k hi hj => (h'.other k hi hj).trans (h.other k hi hj),
    fun k => (h.same k).trans (h'.same k)⟩

theorem Backed.setRange (m : Mem) {i j k : ℕ} (hk : k = i ∨ k = j) {f : SvmRange → SvmRange}
    (hf : ∀ r, SameButBacking r (f r)) : Backed m (m.setRange k f) i j := by
  refine ⟨rfl, fun l hi hj => m.setRange_of_ne f ?_, fun l => .setRange m k l hf⟩
  rcases hk with rfl | rfl
  · exact hi
  · exact hj

theorem svmRangeSplitArray_ranges (a : Option (List ℕ)) (s n s' n' : ℕ) (m : Mem) :
    (svmRangeSplitArray a s n s' n' m).2.ranges = m.ranges ∧
      (svmRangeSplitArray a s n s' n' m).2.next = m.next := by
  unfold svmRangeSplitArray
  split
  · exact ⟨rfl, rfl⟩
  · split
    · rename_i h
      obtain rfl : _ = _ := congrArg Prod.snd h
      exact ⟨rfl, rfl⟩
    · rename_i h
      obtain rfl : _ = _ := congrArg Prod.snd h
      split
      · rename_i h
        obtain rfl : _ = _ := congrArg Prod.snd h
        exact ⟨rfl, rfl⟩
      · rename_i h
        obtain rfl : _ = _ := congrArg Prod.snd h
        exact ⟨rfl, rfl⟩

/-- Splitting the pages changes what backs the two ranges only. -/
theorem splitPagesLoop_backed (new old n : ℕ) (gpus : List ℕ) (m : Mem) :
    Backed m (splitPagesLoop new old n gpus m).2 new old := by
  induction gpus generalizing m with
  | nil => exact .of_ranges new old rfl rfl
  | cons i gpus ih =>
    have hset : ∀ (m' : Mem) (k : ℕ), k = new ∨ k = old → ∀ a, Backed m' (m'.setRange k fun r =>
        { r with dma_addr := Function.update r.dma_addr i a }) new old :=
      fun m' k hk a => .setRange m' hk fun r => ⟨_, _, _, _, rfl⟩
    rw [splitPagesLoop]
    have hs := svmRangeSplitArray_ranges ((m.ranges old).dma_addr i) (m.ranges old).start n
      (m.ranges new).start (m.ranges new).npages m
    split
    · rename_i e m₁ h
      rw [h] at hs
      exact .of_ranges new old hs.1 hs.2
    · rename_i aold anew m₁ h
      rw [h] at hs
      have hm : Backed m m₁ new old := .of_ranges new old hs.1 hs.2
      split
      · exact hm.trans (ih m₁)
      · exact ((hm.trans (hset m₁ old (.inr rfl) _)).trans (hset _ new (.inl rfl) _)).trans (ih _)

theorem svmRangeBoRef_ranges (m : Mem) (bo : Option ℕ) (i : ℕ) :
    (svmRangeBoRef m bo i).ranges = m.ranges := by
  cases bo <;> rfl

theorem svmRangeBoRef_next (m : Mem) (bo : Option ℕ) (i : ℕ) :
    (svmRangeBoRef m bo i).next = m.next := by
  cases bo <;> rfl

/-- So does splitting the nodes. -/
theorem svmRangeSplitNodes_backed (new old start last : ℕ) (m : Mem) :
    Backed m (svmRangeSplitNodes new old start last m) new old := by
  unfold svmRangeSplitNodes
  have hb : ∀ r : SvmRange, ∀ t o b,
      SameButBacking r { r with ttm_res := t, offset := o, svm_bo := b } :=
    fun r t o b => ⟨_, _, _, _, rfl⟩
  have hset : ∀ m' : Mem, Backed m m' new old → Backed m (m'.setRange new fun r =>
      { r with svm_bo := (m.ranges old).svm_bo, ttm_res := (m.ranges old).ttm_res }) new old :=
    fun m' h => h.trans (.setRange m' (.inl rfl) fun r => hb r ..)
  have hoff : Backed m (if (m.ranges new).start = (m.ranges old).start then
      (m.setRange new fun r => { r with offset := (m.ranges old).offset }).setRange old fun r =>
        { r with offset := r.offset + (m.ranges new).npages }
      else m.setRange new fun r =>
        { r with offset := (m.ranges old).offset + (last - start + 1) }) new old := by
    split_ifs
    · exact (Backed.setRange m (.inl rfl) fun r => hb r ..).trans
        (.setRange _ (.inr rfl) fun r => hb r ..)
    · exact .setRange m (.inl rfl) fun r => hb r ..
  exact (hset _ hoff).trans
    (.of_ranges new old (svmRangeBoRef_ranges ..) (svmRangeBoRef_next ..))

/-- How a range is linked up: its nodes in the trees, its pending work, its children. -/
def SvmRange.links (r : SvmRange) : (ℕ × ℕ) × (ℕ × ℕ) × WorkOp × List ℕ :=
  ((r.it_start, r.it_last), (r.notifier_start, r.notifier_last), r.op, r.child_list)

/-- **Adjusting two ranges**: `old` is cut down, `new` gets its attributes. -/
theorem svmRangeSplitAdjust_ok {new old start last : ℕ} (hne : new ≠ old)
    (h : svmRangeSplitAdjust new old start last m = (none, m')) :
    m'.next = m.next ∧ (∀ k, k ≠ new → k ≠ old → m'.ranges k = m.ranges k) ∧
      (m'.ranges old).seg = ⟨start, last, (m.ranges old).toSvmAttrs⟩ ∧
      (m'.ranges old).links = (m.ranges old).links ∧
      (m'.ranges new).seg =
        ⟨(m.ranges new).start, (m.ranges new).last, (m.ranges old).toSvmAttrs⟩ ∧
      (m'.ranges new).links = (m.ranges new).links := by
  unfold svmRangeSplitAdjust svmRangeSplitPages at h
  split at h
  · simp at h
  · have hp := splitPagesLoop_backed new old (last - start + 1) (List.range MAX_GPU_INSTANCE) m
    split at h
    · simp at h
    · rename_i m₁ h₁
      rw [h₁] at hp
      -- whether the nodes are split or not, the two ranges keep what is not backing
      have hb : ∃ m₂, Backed m m₂ new old ∧ m' = splitFields new old start last m₂ := by
        obtain ⟨-, rfl⟩ := Prod.mk.inj h
        refine ⟨_, ?_, rfl⟩
        split_ifs
        · exact hp.trans (svmRangeSplitNodes_backed ..)
        · exact hp
      obtain ⟨m₂, hb, rfl⟩ := hb
      obtain ⟨d, t, o, b, ho⟩ := hb.same old
      obtain ⟨d', t', o', b', hn⟩ := hb.same new
      unfold splitFields
      refine ⟨hb.next, fun k hk hk' => ?_, ?_, ?_, ?_, ?_⟩
      · rw [Mem.setRange_of_ne _ _ hk, Mem.setRange_of_ne _ _ hk', hb.other k hk hk']
      · rw [Mem.setRange_of_ne _ _ hne.symm, Mem.setRange_self, ho]
        rfl
      · rw [Mem.setRange_of_ne _ _ hne.symm, Mem.setRange_self, ho]
        rfl
      · rw [Mem.setRange_self, Mem.setRange_of_ne _ _ hne, Mem.setRange_self, hn, ho]
        rfl
      · rw [Mem.setRange_self, Mem.setRange_of_ne _ _ hne, hn]
        rfl

/-- **A split**: `i` is cut down to `[start, last]`, and `n` is new and gets the rest. -/
theorem svmRangeSplit_ok {i start last n : ℕ} (hi : i < m.next)
    (h : svmRangeSplit p i start last m = (.ok n, m')) :
    Made m m' n [i] ∧
      (m'.ranges i).seg = ⟨start, last, (m.ranges i).toSvmAttrs⟩ ∧
      (m'.ranges i).links = (m.ranges i).links ∧
      (m'.ranges n).seg = (if (m.ranges i).start = start then
          ⟨last + 1, (m.ranges i).last, (m.ranges i).toSvmAttrs⟩
        else ⟨(m.ranges i).start, start - 1, (m.ranges i).toSvmAttrs⟩) ∧
      (m'.ranges n).links = ({} : SvmRange).links := by
  unfold svmRangeSplit at h
  simp only at h
  split at h
  · simp at h
  · split at h
    · simp at h
    · split at h
      · simp at h
      · rename_i new m₁ hnew
        -- the new range, whichever side it is on
        obtain ⟨a, b, hab, hseg⟩ : ∃ a b, svmRangeNew p a b m = (some new, m₁) ∧
            ((⟨a, b, (m.ranges i).toSvmAttrs⟩ : Seg SvmAttrs) =
              if (m.ranges i).start = start then
                ⟨last + 1, (m.ranges i).last, (m.ranges i).toSvmAttrs⟩
              else ⟨(m.ranges i).start, start - 1, (m.ranges i).toSvmAttrs⟩) := by
          split_ifs at hnew ⊢ with hs
          · exact ⟨_, _, hnew, rfl⟩
          · exact ⟨_, _, hnew, rfl⟩
        obtain ⟨hmade, hr⟩ := svmRangeNew_ok hab
        have hne : new ≠ i := by have := hmade.id; omega
        split at h
        · simp at h
        · rename_i m₂ hadj
          simp only [Prod.mk.injEq, Except.ok.injEq] at h
          obtain ⟨rfl, rfl⟩ := h
          obtain ⟨hn, hother, h₁, h₂, h₃, h₄⟩ := svmRangeSplitAdjust_ok hne hadj
          have hold := hmade.of_lt hi
          rw [hold] at h₁ h₂ h₃
          rw [hr] at h₃ h₄
          refine ⟨⟨hmade.id, by rw [hn, hmade.next], fun k hk hk' => ?_⟩, h₁, h₂, ?_, h₄⟩
          · rw [hother k hk (by simpa using hk'), hmade.other k hk (by simp)]
          · rw [h₃, ← hseg]

theorem cloneBo_backed (o : SvmRange) (new : ℕ) (m : Mem) : Backed m (cloneBo o new m) new new := by
  unfold cloneBo
  split
  · exact .of_ranges new new rfl rfl
  · exact (Backed.setRange m (.inl rfl) fun r => ⟨_, _, _, _, rfl⟩).trans
      (.of_ranges new new rfl rfl)

/-- **A clone** has the interval and the attributes of the range it was made of. -/
theorem svmRangeClone_ok {old n : ℕ} (h : svmRangeClone p old m = (some n, m')) :
    Made m m' n [] ∧ (m'.ranges n).seg = (m.ranges old).seg ∧
      (m'.ranges n).links = ({} : SvmRange).links := by
  unfold svmRangeClone at h
  simp only at h
  split at h
  · simp at h
  · rename_i new m₁ hnew
    obtain ⟨hmade, hr⟩ := svmRangeNew_ok hnew
    simp only [Prod.mk.injEq, Option.some.injEq] at h
    obtain ⟨rfl, rfl⟩ := h
    have hb := cloneBo_backed (m.ranges old) new m₁
    obtain ⟨d, t, o, b, hn⟩ := hb.same new
    rw [hr] at hn
    refine ⟨⟨hmade.id, hb.next.trans hmade.next, fun k hk hk' => ?_⟩, ?_, ?_⟩
    · rw [Mem.setRange_of_ne _ _ hk, hb.other k hk hk, hmade.other k hk hk']
    · rw [Mem.setRange_self, hn]
      rfl
    · rw [Mem.setRange_self, hn]
      rfl

end

end Codrive.Svm
