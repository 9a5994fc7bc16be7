/-
# Splitting the arrays of a range

`svm_range_split_pages` splits the DMA address arrays of the GPUs in place, one after the other
(`splitPagesLoop`).  It needs two allocations for each array.  When one of them fails, the arrays
before it stay split: nothing is changed just if it was one of the first two
(`splitPagesLoop_error`).
-/

import Codrive.Svm.RangeSpec

namespace Codrive.Svm

open Codrive.Basis

/-- What the `j`-th allocation from now answers. -/
def Mem.answer (m : Mem) (j : ℕ) : Bool := m.allocs.getD j true

/-- The GPUs of a list that a range has an array for. -/
def SvmRange.arrays (r : SvmRange) (gpus : List ℕ) : List ℕ :=
  gpus.filter fun i => (r.dma_addr i).isSome

/-! ### The arrays -/

section

variable {m m' : Mem} {new old npages : ℕ} {gpus : List ℕ}

theorem Mem.kalloc_fst (m : Mem) : m.kalloc.1 = m.answer 0 := by
  unfold kalloc answer
  cases m.allocs <;> rfl

theorem Mem.answer_kalloc (m : Mem) (j : ℕ) : m.kalloc.2.answer j = m.answer (j + 1) := by
  unfold kalloc answer
  cases m.allocs <;> simp

/-- What is left to the old range of its array. -/
def keptPart (r n : SvmRange) (npages : ℕ) (l : List ℕ) : List ℕ :=
  (l.drop (if n.start = r.start then n.npages else 0)).take npages

/-- What the new range gets of it. -/
def movedPart (r n : SvmRange) (l : List ℕ) : List ℕ := (l.drop (n.start - r.start)).take n.npages

/-- Whether the array of one GPU is split. -/
theorem svmRangeSplitArray_eq (r n : SvmRange) (i : ℕ) :
    svmRangeSplitArray (r.dma_addr i) r.start npages n.start n.npages m =
      match r.dma_addr i with
      | none => (.ok (none, none), m)
      | some l =>
        if m.answer 0 = false then (.error .enomem, m.kalloc.2)
        else if m.answer 1 = false then (.error .enomem, m.kalloc.2.kalloc.2)
        else (.ok (some (keptPart r n npages l), some (movedPart r n l)), m.kalloc.2.kalloc.2) := by
  unfold svmRangeSplitArray
  cases r.dma_addr i with
  | none => rfl
  | some l =>
    have h₀ := m.kalloc_fst
    have h₁ := m.kalloc.2.kalloc_fst
    rw [m.answer_kalloc] at h₁
    dsimp only
    rcases hk : m.kalloc with ⟨b, m₁⟩
    rw [hk] at h₀ h₁
    dsimp only at h₀ h₁ ⊢
    subst h₀
    cases m.answer 0 with
    | false => rfl
    | true =>
      dsimp only
      rcases hk' : m₁.kalloc with ⟨b', m₂⟩
      rw [hk'] at h₁
      dsimp only at h₁
      subst h₁
      cases m.answer 1 <;> rfl

/-- An allocation or two change nothing but what the next ones answer. -/
structure SameButAllocs (m m' : Mem) : Prop where
  ranges : m'.ranges = m.ranges
  bos : m'.bos = m.bos
  next : m'.next = m.next
  freed : m'.freed = m.freed

theorem SameButAllocs.refl (m : Mem) : SameButAllocs m m := ⟨rfl, rfl, rfl, rfl⟩

theorem Mem.sameButAllocs_kalloc (m : Mem) : SameButAllocs m m.kalloc.2 := ⟨rfl, rfl, rfl, rfl⟩

/-- What the loop over the GPUs changes, whether it comes to its end or not: the arrays of the two
ranges, on the GPUs of the loop. -/
structure ArraysOnly (new old : ℕ) (gpus : List ℕ) (m m' : Mem) : Prop where
  other : ∀ k, k ≠ new → k ≠ old → m'.ranges k = m.ranges k
  old : ∃ d, m'.ranges old = { m.ranges old with dma_addr := d } ∧
    ∀ i, i ∉ gpus → d i = (m.ranges old).dma_addr i
  new : ∃ d, m'.ranges new = { m.ranges new with dma_addr := d } ∧
    ∀ i, i ∉ gpus → d i = (m.ranges new).dma_addr i
  bos : m'.bos = m.bos
  next : m'.next = m.next
  freed : m'.freed = m.freed

theorem ArraysOnly.of_same (h : SameButAllocs m m') : ArraysOnly new old gpus m m' :=
  ⟨fun k _ _ => by rw [h.ranges], ⟨_, by rw [h.ranges], fun _ _ => rfl⟩,
    ⟨_, by rw [h.ranges], fun _ _ => rfl⟩, h.bos, h.next, h.freed⟩

theorem ArraysOnly.after {m₁ : Mem} (h' : ArraysOnly new old gpus m₁ m')
    (h : SameButAllocs m m₁) : ArraysOnly new old gpus m m' := by
  obtain ⟨hother, hold, hnew, hbos, hnext, hfreed⟩ := h'
  rw [h.ranges] at hother hold hnew
  exact ⟨hother, hold, hnew, hbos.trans h.bos, hnext.trans h.next, hfreed.trans h.freed⟩

theorem ArraysOnly.mono {gpus' : List ℕ} (h : ArraysOnly new old gpus m m')
    (hsub : gpus ⊆ gpus') : ArraysOnly new old gpus' m m' := by
  obtain ⟨hother, ⟨d, hold, hd⟩, ⟨d', hnew, hd'⟩, hbos, hnext, hfreed⟩ := h
  exact ⟨hother, ⟨d, hold, fun i hi => hd i fun h => hi (hsub h)⟩,
    ⟨d', hnew, fun i hi => hd' i fun h => hi (hsub h)⟩, hbos, hnext, hfreed⟩

/-- The memory after the array of a GPU is split. -/
def Mem.setArrays (m : Mem) (new old i : ℕ) (kept moved : List ℕ) : Mem :=
  (m.setRange old fun r =>
    { r with dma_addr := Function.update r.dma_addr i (some kept) }).setRange
    new fun r => { r with dma_addr := Function.update r.dma_addr i (some moved) }

theorem Mem.setArrays_old {i : ℕ} {kept moved : List ℕ} (hne : new ≠ old) :
    (m.setArrays new old i kept moved).ranges old = { m.ranges old with
      dma_addr := Function.update (m.ranges old).dma_addr i (some kept) } := by
  unfold setArrays
  rw [Mem.setRange_of_ne _ _ hne.symm, Mem.setRange_self]

theorem Mem.setArrays_new {i : ℕ} {kept moved : List ℕ} (hne : new ≠ old) :
    (m.setArrays new old i kept moved).ranges new = { m.ranges new with
      dma_addr := Function.update (m.ranges new).dma_addr i (some moved) } := by
  unfold setArrays
  rw [Mem.setRange_self, Mem.setRange_of_ne _ _ hne]

theorem Mem.setArrays_other {i k : ℕ} {kept moved : List ℕ} (hk : k ≠ new) (hk' : k ≠ old) :
    (m.setArrays new old i kept moved).ranges k = m.ranges k := by
  unfold setArrays
  rw [Mem.setRange_of_ne _ _ hk, Mem.setRange_of_ne _ _ hk']

/-- A round of the loop that splits an array, and the rounds after it. -/
theorem ArraysOnly.cons {i : ℕ} {kept moved : List ℕ} (hne : new ≠ old)
    (h : ArraysOnly new old gpus (m.setArrays new old i kept moved) m') :
    ArraysOnly new old (i :: gpus) m m' := by
  obtain ⟨hother, ⟨d, hold, hd⟩, ⟨d', hnew, hd'⟩, hbos, hnext, hfreed⟩ := h
  rw [Mem.setArrays_old hne] at hold hd
  rw [Mem.setArrays_new hne] at hnew hd'
  refine ⟨fun k hk hk' => (hother k hk hk').trans (Mem.setArrays_other hk hk'),
    ⟨d, hold, fun j hj => ?_⟩, ⟨d', hnew, fun j hj => ?_⟩, hbos, hnext, hfreed⟩
  · obtain ⟨hji, hj⟩ := not_or.1 (fun h => hj (List.mem_cons.2 h))
    exact (hd j hj).trans (Function.update_of_ne hji ..)
  · obtain ⟨hji, hj⟩ := not_or.1 (fun h => hj (List.mem_cons.2 h))
    exact (hd' j hj).trans (Function.update_of_ne hji ..)

/-- One round of the loop. -/
theorem splitPagesLoop_cons (i : ℕ) (gpus : List ℕ) :
    splitPagesLoop new old npages (i :: gpus) m =
      match (m.ranges old).dma_addr i with
      | none => splitPagesLoop new old npages gpus m
      | some l =>
        if m.answer 0 = false then (some .enomem, m.kalloc.2)
        else if m.answer 1 = false then (some .enomem, m.kalloc.2.kalloc.2)
        else splitPagesLoop new old npages gpus (m.kalloc.2.kalloc.2.setArrays new old i
          (keptPart (m.ranges old) (m.ranges new) npages l)
          (movedPart (m.ranges old) (m.ranges new) l)) := by
  rw [splitPagesLoop]
  dsimp only
  rw [svmRangeSplitArray_eq]
  cases (m.ranges old).dma_addr i with
  | none => rfl
  | some l =>
    dsimp only
    by_cases h₀ : m.answer 0 = false
    · rw [if_pos h₀, if_pos h₀]
    by_cases h₁ : m.answer 1 = false
    · rw [if_neg h₀, if_neg h₀, if_pos h₁, if_pos h₁]
    · rw [if_neg h₀, if_neg h₀, if_neg h₁, if_neg h₁]
      rfl

/-- **The loop changes arrays only.** -/
theorem splitPagesLoop_only (hne : new ≠ old) :
    ArraysOnly new old gpus m (splitPagesLoop new old npages gpus m).2 := by
  induction gpus generalizing m with
  | nil => exact .of_same (.refl m)
  | cons i gpus ih =>
    rw [splitPagesLoop_cons]
    split
    · exact (@ih m).mono (List.subset_cons_self i gpus)
    split_ifs
    · exact .of_same m.sameButAllocs_kalloc
    · exact .of_same ⟨rfl, rfl, rfl, rfl⟩
    · exact (ArraysOnly.cons hne (@ih (m.kalloc.2.kalloc.2.setArrays ..))).after
        ⟨rfl, rfl, rfl, rfl⟩

/-- The memory in which the loop goes on when it has split an array. -/
def Mem.afterSplit (m : Mem) (new old npages i : ℕ) (l : List ℕ) : Mem :=
  m.kalloc.2.kalloc.2.setArrays new old i (keptPart (m.ranges old) (m.ranges new) npages l)
    (movedPart (m.ranges old) (m.ranges new) l)

theorem Mem.answer_afterSplit (i j : ℕ) (l : List ℕ) :
    (m.afterSplit new old npages i l).answer j = m.answer (j + 2) := by
  show m.kalloc.2.kalloc.2.answer j = _
  rw [Mem.answer_kalloc, Mem.answer_kalloc]

theorem arrays_afterSplit {i : ℕ} (l : List ℕ) (hne : new ≠ old) (hi : i ∉ gpus) :
    ((m.afterSplit new old npages i l).ranges old).arrays gpus = (m.ranges old).arrays gpus := by
  unfold Mem.afterSplit SvmRange.arrays
  rw [Mem.setArrays_old hne]
  refine List.filter_congr fun j hj => ?_
  have hji : j ≠ i := fun h => hi (h ▸ hj)
  exact congrArg Option.isSome (Function.update_of_ne hji ..)

/-- The parts are computed from what the loop does not change. -/
theorem keptPart_afterSplit {i : ℕ} (l : List ℕ) (hne : new ≠ old) :
    keptPart ((m.afterSplit new old npages i l).ranges old)
      ((m.afterSplit new old npages i l).ranges new) =
        keptPart (m.ranges old) (m.ranges new) ∧
    movedPart ((m.afterSplit new old npages i l).ranges old)
      ((m.afterSplit new old npages i l).ranges new) =
        movedPart (m.ranges old) (m.ranges new) := by
  unfold Mem.afterSplit
  rw [Mem.setArrays_old hne, Mem.setArrays_new hne]
  exact ⟨rfl, rfl⟩

/-- **Which answers the loop needs**: two for each array. -/
theorem splitPagesLoop_none_iff (hne : new ≠ old) (hgpus : gpus.Nodup) :
    (splitPagesLoop new old npages gpus m).1 = none ↔
      ∀ j, j < 2 * ((m.ranges old).arrays gpus).length → m.answer j = true := by
  induction gpus generalizing m with
  | nil => simp [splitPagesLoop, SvmRange.arrays]
  | cons i gpus ih =>
    obtain ⟨hi, hgpus⟩ := List.nodup_cons.1 hgpus
    rw [splitPagesLoop_cons]
    cases hd : (m.ranges old).dma_addr i with
    | none =>
      have harrays : (m.ranges old).arrays (i :: gpus) = (m.ranges old).arrays gpus := by
        simp [SvmRange.arrays, hd]
      rw [harrays]
      exact ih hgpus
    | some l =>
      have harrays : (m.ranges old).arrays (i :: gpus) = i :: (m.ranges old).arrays gpus := by
        simp [SvmRange.arrays, hd]
      rw [harrays, List.length_cons]
      dsimp only
      split_ifs with h₀ h₁
      · refine ⟨fun h => (by cases h), fun h => ?_⟩
        rw [h 0 (by omega)] at h₀
        cases h₀
      · refine ⟨fun h => (by cases h), fun h => ?_⟩
        rw [h 1 (by omega)] at h₁
        cases h₁
      · have hrest := @ih (m.afterSplit new old npages i l) hgpus
        rw [arrays_afterSplit l hne hi] at hrest
        refine hrest.trans ⟨fun h j hj => ?_, fun h j hj => ?_⟩
        · rcases j with _ | _ | j
          · simpa using h₀
          · simpa using h₁
          · rw [← Mem.answer_afterSplit i j l]
            exact h j (by omega)
        · rw [Mem.answer_afterSplit]
          exact h (j + 2) (by omega)

/-- **What the loop leaves when it comes to its end.** -/
theorem splitPagesLoop_ok (hne : new ≠ old) (hgpus : gpus.Nodup)
    (h : (splitPagesLoop new old npages gpus m).1 = none) (i : ℕ) :
    (((splitPagesLoop new old npages gpus m).2.ranges old).dma_addr i =
      if i ∈ gpus then ((m.ranges old).dma_addr i).map
        (keptPart (m.ranges old) (m.ranges new) npages)
      else (m.ranges old).dma_addr i) ∧
    (((splitPagesLoop new old npages gpus m).2.ranges new).dma_addr i =
      if i ∈ (m.ranges old).arrays gpus
      then ((m.ranges old).dma_addr i).map (movedPart (m.ranges old) (m.ranges new))
      else (m.ranges new).dma_addr i) := by
  induction gpus generalizing m with
  | nil => exact ⟨rfl, rfl⟩
  | cons g gpus ih =>
    obtain ⟨hg, hgpus⟩ := List.nodup_cons.1 hgpus
    rw [splitPagesLoop_cons] at h ⊢
    cases hd : (m.ranges old).dma_addr g with
    | none =>
      rw [hd] at h
      obtain ⟨hold, hnew⟩ := ih hgpus h
      have harrays : (m.ranges old).arrays (g :: gpus) = (m.ranges old).arrays gpus := by
        simp [SvmRange.arrays, hd]
      refine ⟨hold.trans ?_, by rw [harrays]; exact hnew⟩
      by_cases hig : i = g
      · subst hig
        rw [if_neg hg, if_pos List.mem_cons_self, hd]
        rfl
      · simp [hig]
    | some l =>
      rw [hd] at h
      dsimp only at h ⊢
      by_cases h₀ : m.answer 0 = false
      · rw [if_pos h₀] at h
        cases h
      by_cases h₁ : m.answer 1 = false
      · rw [if_neg h₀, if_pos h₁] at h
        cases h
      rw [if_neg h₀, if_neg h₁] at h ⊢
      obtain ⟨hold, hnew⟩ := @ih (m.afterSplit new old npages g l) hgpus h
      obtain ⟨hkept, hmoved⟩ := @keptPart_afterSplit m new old npages g l hne
      rw [hkept] at hold
      rw [hmoved, arrays_afterSplit l hne hg] at hnew
      have harrays : (m.ranges old).arrays (g :: gpus) = g :: (m.ranges old).arrays gpus := by
        simp [SvmRange.arrays, hd]
      rw [harrays]
      refine ⟨hold.trans ?_, hnew.trans ?_⟩
      all_goals
        unfold Mem.afterSplit
        rw [Mem.setArrays_old hne]
      · by_cases hig : i = g
        · subst hig
          simp [hg, hd]
        · simp [hig]
      · have hg' : g ∉ (m.ranges old).arrays gpus := fun hmem => hg (List.mem_of_mem_filter hmem)
        rw [Mem.setArrays_new hne]
        by_cases hig : i = g
        · subst hig
          simp [hg', hd]
        · simp [hig]

/-- **What the loop leaves when it fails.**  It fails before it has split an array, or the first
array is split and stays so. -/
theorem splitPagesLoop_error (hne : new ≠ old) (hgpus : gpus.Nodup)
    (h : (splitPagesLoop new old npages gpus m).1 ≠ none) :
    (m.answer 0 = false ∨ m.answer 1 = false) ∧
        SameButAllocs m (splitPagesLoop new old npages gpus m).2 ∨
      m.answer 0 = true ∧ m.answer 1 = true ∧ ∃ i l, (m.ranges old).dma_addr i = some l ∧
        ((splitPagesLoop new old npages gpus m).2.ranges old).dma_addr i =
          some (keptPart (m.ranges old) (m.ranges new) npages l) := by
  induction gpus generalizing m with
  | nil => exact absurd rfl h
  | cons i gpus ih =>
    obtain ⟨hi, hgpus⟩ := List.nodup_cons.1 hgpus
    rw [splitPagesLoop_cons] at h ⊢
    cases hd : (m.ranges old).dma_addr i with
    | none =>
      rw [hd] at h
      exact ih hgpus h
    | some l =>
      dsimp only
      by_cases h₀ : m.answer 0 = false
      · rw [if_pos h₀]
        exact .inl ⟨.inl h₀, m.sameButAllocs_kalloc⟩
      by_cases h₁ : m.answer 1 = false
      · rw [if_neg h₀, if_pos h₁]
        exact .inl ⟨.inr h₁, ⟨rfl, rfl, rfl, rfl⟩⟩
      · rw [if_neg h₀, if_neg h₁]
        refine .inr ⟨by simpa using h₀, by simpa using h₁, i, l, hd, ?_⟩
        -- the rest of the loop does not come to this GPU again
        obtain ⟨d, hold, hsame⟩ :=
          (@splitPagesLoop_only (m.afterSplit new old npages i l) new old npages gpus hne).old
        show ((splitPagesLoop new old npages gpus (m.afterSplit new old npages i l)).2.ranges
          old).dma_addr i = _
        rw [hold]
        refine (hsame i hi).trans ?_
        unfold Mem.afterSplit
        rw [Mem.setArrays_old hne]
        exact Function.update_self ..

end

end Codrive.Svm
