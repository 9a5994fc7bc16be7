/-
# The references of the buffers

A range with a buffer holds one of its references and is on its list of ranges.  `Accounted` says
this of all ranges there are, and the lemmas here say what each function of a request does to it.
The pages of the device that lie in a buffer hold references of it as well
(`svm_migrate_get_vram_page`); their number is `pages b`.
-/

import Codrive.Svm.Splits
import Codrive.Svm.CarriedOut

namespace Codrive.Svm

open Codrive.Basis

/-- The range was made and not freed. -/
def Mem.Live (m : Mem) (k : ℕ) : Prop := k < m.next ∧ k ∉ m.freed

instance (m : Mem) (k : ℕ) : Decidable (m.Live k) := inferInstanceAs (Decidable (_ ∧ _))

/-- **The buffers are accounted for**: the ranges of a buffer's list are those that exist and have
it, each once, and the buffer's references are theirs and those of its pages. -/
structure Accounted (pages : ℕ → ℕ) (m : Mem) : Prop where
  nodup : ∀ b, (m.bos b).range_list.Nodup
  mem_iff : ∀ b k, k ∈ (m.bos b).range_list ↔ m.Live k ∧ (m.ranges k).svm_bo = some b
  kref : ∀ b, (m.bos b).kref = (m.bos b).range_list.length + pages b
  held : ∀ k, m.Live k → (m.ranges k).ttm_res.isSome = (m.ranges k).svm_bo.isSome
  freed_lt : ∀ k ∈ m.freed, k < m.next

/-- The ranges that exist and have the buffer. -/
def Mem.holders (m : Mem) (b : ℕ) : List ℕ :=
  (List.range m.next).filter fun k => k ∉ m.freed ∧ (m.ranges k).svm_bo = some b

/-- From `m` to `m'` nothing happens to the buffers and to what ranges have of them. -/
structure SameBuffers (m m' : Mem) : Prop where
  bos : m'.bos = m.bos
  next : m'.next = m.next
  freed : m'.freed = m.freed
  ranges : ∀ k, (m'.ranges k).svm_bo = (m.ranges k).svm_bo ∧
    (m'.ranges k).ttm_res = (m.ranges k).ttm_res

/-- From `m` to `m'` there is one more range, `m.next`, with nothing of its own. -/
structure Fresh (m m' : Mem) : Prop where
  bos : m'.bos = m.bos
  next : m'.next = m.next + 1
  freed : m'.freed = m.freed
  other : ∀ k, k ≠ m.next → m'.ranges k = m.ranges k
  svm_bo : (m'.ranges m.next).svm_bo = none
  ttm_res : (m'.ranges m.next).ttm_res = none
  dma_addr : (m'.ranges m.next).dma_addr = fun _ => none
  answer : ∀ j, m'.answer j = m.answer (j + 1)

/-- From `m` to `m'` range `k` gets a reference of buffer `b` and joins its list. -/
structure Joined (m m' : Mem) (k b : ℕ) : Prop where
  bos : m'.bos = Function.update m.bos b
    { kref := (m.bos b).kref + 1, range_list := k :: (m.bos b).range_list }
  next : m'.next = m.next
  freed : m'.freed = m.freed
  svm_bo : (m'.ranges k).svm_bo = some b
  ttm_res : (m'.ranges k).ttm_res.isSome = true
  other : ∀ j, j ≠ k → (m'.ranges j).svm_bo = (m.ranges j).svm_bo ∧
    (m'.ranges j).ttm_res = (m.ranges j).ttm_res

section

variable {pages : ℕ → ℕ} {p : OpuProcess} {m m' m'' : Mem} {k b : ℕ}

theorem Accounted.perm_holders (h : Accounted pages m) (b : ℕ) :
    (m.bos b).range_list.Perm (m.holders b) := by
  unfold Mem.holders
  refine (List.perm_ext_iff_of_nodup (h.nodup b) (List.nodup_range.filter _)).2 fun k => ?_
  rw [h.mem_iff, List.mem_filter, List.mem_range, decide_eq_true_eq, Mem.Live,
    and_assoc]

/-! ### What keeps the account -/

theorem SameBuffers.refl (m : Mem) : SameBuffers m m := ⟨rfl, rfl, rfl, fun _ => ⟨rfl, rfl⟩⟩

theorem SameBuffers.trans (h : SameBuffers m m') (h' : SameBuffers m' m'') : SameBuffers m m'' :=
  ⟨h'.bos.trans h.bos, h'.next.trans h.next, h'.freed.trans h.freed, fun k =>
    ⟨(h'.ranges k).1.trans (h.ranges k).1, (h'.ranges k).2.trans (h.ranges k).2⟩⟩

theorem SameBuffers.setRange (m : Mem) (k : ℕ) {f : SvmRange → SvmRange}
    (hf : ∀ r, (f r).svm_bo = r.svm_bo ∧ (f r).ttm_res = r.ttm_res) :
    SameBuffers m (m.setRange k f) := by
  refine ⟨rfl, rfl, rfl, fun j => ?_⟩
  by_cases hj : j = k
  · subst hj
    rw [Mem.setRange_self]
    exact hf _
  · rw [Mem.setRange_of_ne _ _ hj]
    exact ⟨rfl, rfl⟩

theorem SameBuffers.live (h : SameBuffers m m') : m'.Live k ↔ m.Live k := by
  unfold Mem.Live
  rw [h.next, h.freed]

theorem Accounted.frame (h : Accounted pages m) (hs : SameBuffers m m') : Accounted pages m' where
  nodup b := by
    rw [hs.bos]
    exact h.nodup b
  mem_iff b k := by
    rw [hs.bos, h.mem_iff, hs.live, (hs.ranges k).1]
  kref b := by
    rw [hs.bos]
    exact h.kref b
  held k hk := by
    rw [(hs.ranges k).1, (hs.ranges k).2]
    exact h.held k (hs.live.1 hk)
  freed_lt := by
    rw [hs.freed, hs.next]
    exact h.freed_lt

theorem sameBuffers_kalloc (m : Mem) : SameBuffers m m.kalloc.2 :=
  ⟨rfl, rfl, rfl, fun _ => ⟨rfl, rfl⟩⟩

/-- The next range is none that exists. -/
theorem Mem.not_live_next (m : Mem) : ¬m.Live m.next := fun h => Nat.lt_irrefl _ h.1

theorem Fresh.live (h : Fresh m m') (ha : Accounted pages m) :
    m'.Live k ↔ m.Live k ∨ k = m.next := by
  have hlt : m.next ∉ m.freed := fun hk => Nat.lt_irrefl _ (ha.freed_lt _ hk)
  unfold Mem.Live
  rw [h.next, h.freed]
  constructor
  · rintro ⟨h₁, h₂⟩
    rcases Nat.lt_succ_iff_lt_or_eq.1 h₁ with h₁ | h₁
    · exact .inl ⟨h₁, h₂⟩
    · exact .inr h₁
  · rintro (⟨h₁, h₂⟩ | rfl)
    · exact ⟨Nat.lt_succ_of_lt h₁, h₂⟩
    · exact ⟨Nat.lt_succ_self _, hlt⟩

/-- **A range is made.** -/
theorem Accounted.fresh (h : Accounted pages m) (hf : Fresh m m') : Accounted pages m' where
  nodup b := by
    rw [hf.bos]
    exact h.nodup b
  mem_iff b k := by
    rw [hf.bos, h.mem_iff, hf.live h]
    by_cases hk : k = m.next
    · subst hk
      simp [hf.svm_bo, Mem.not_live_next]
    · simp [hk, hf.other k hk]
  kref b := by
    rw [hf.bos]
    exact h.kref b
  held k hk := by
    by_cases hkn : k = m.next
    · rw [hkn, hf.svm_bo, hf.ttm_res]
    · rw [hf.other k hkn]
      exact h.held k (((hf.live h).1 hk).resolve_right hkn)
  freed_lt k hk := by
    rw [hf.freed] at hk
    rw [hf.next]
    exact Nat.lt_succ_of_lt (h.freed_lt k hk)

/-- **A range gets a buffer.** -/
theorem Accounted.joined (h : Accounted pages m) (hk : m.Live k)
    (hnone : (m.ranges k).svm_bo = none) (hj : Joined m m' k b) : Accounted pages m' := by
  have hlive : ∀ j, m'.Live j ↔ m.Live j := fun j => by
    unfold Mem.Live
    rw [hj.next, hj.freed]
  have hnot : ∀ b, k ∉ (m.bos b).range_list := fun b hmem => by
    have hb := ((h.mem_iff b k).1 hmem).2
    rw [hnone] at hb
    cases hb
  refine ⟨fun b' => ?_, fun b' j => ?_, fun b' => ?_, fun j hjl => ?_, fun j => ?_⟩
  · rw [hj.bos, Function.update_apply]
    split_ifs with hb
    · exact List.nodup_cons.2 ⟨hnot b, h.nodup b⟩
    · exact h.nodup b'
  · rw [hlive, hj.bos, Function.update_apply]
    by_cases hjk : j = k
    · subst hjk
      rw [hj.svm_bo, Option.some.injEq]
      split_ifs with hb
      · simp [hk, hb]
      · have hb' : b ≠ b' := fun e => hb e.symm
        simp [hnot b', hb']
    · rw [(hj.other j hjk).1, ← h.mem_iff]
      split_ifs with hb
      · simp [hjk, hb]
      · rfl
  · rw [hj.bos, Function.update_apply]
    split_ifs with hb
    · dsimp only
      rw [h.kref b, hb, List.length_cons]
      omega
    · exact h.kref b'
  · by_cases hjk : j = k
    · rw [hjk, hj.svm_bo, hj.ttm_res]
      rfl
    · rw [(hj.other j hjk).1, (hj.other j hjk).2]
      exact h.held j ((hlive j).1 hjl)
  · rw [hj.freed, hj.next]
    exact h.freed_lt j

/-- **A range without a buffer is freed.** -/
theorem Accounted.free (h : Accounted pages m) (hk : m.Live k)
    (hnone : (m.ranges k).svm_bo = none) : Accounted pages (svmRangeFree p m k) := by
  obtain ⟨hbos, hnext, hfreed, hother⟩ := svmRangeFree_of_none (p := p) hnone
  have hlive : ∀ j, (svmRangeFree p m k).Live j ↔ m.Live j ∧ j ≠ k := fun j => by
    unfold Mem.Live
    rw [hnext, hfreed, List.mem_cons, not_or]
    tauto
  refine ⟨fun b => ?_, fun b j => ?_, fun b => ?_, fun j hj => ?_, fun j hj => ?_⟩
  · rw [hbos]
    exact h.nodup b
  · rw [hbos, h.mem_iff, hlive]
    by_cases hjk : j = k
    · subst hjk
      simp [hnone]
    · simp [hjk, hother j hjk]
  · rw [hbos]
    exact h.kref b
  · obtain ⟨hj, hjk⟩ := (hlive j).1 hj
    rw [hother j hjk]
    exact h.held j hj
  · rw [hnext]
    rw [hfreed] at hj
    rcases List.mem_cons.1 hj with rfl | hj
    · exact hk.1
    · exact h.freed_lt j hj

/-- A reference is dropped: the list of the buffer is empty when it was the last one. -/
theorem svmRangeBoUnref_eq (h : (m.bos b).kref ≤ 1 → (m.bos b).range_list = []) :
    svmRangeBoUnref m (some b) = m.setBo b fun bo => { bo with kref := bo.kref - 1 } := by
  rw [svmRangeBoUnref]
  split_ifs with h₀
  · have hlist := h (by simp only [Mem.setBo, Function.update_self] at h₀; omega)
    simp [svmRangeBoRelease, Mem.setBo, hlist]
  · rfl

/-- Freeing a range that is on no list. -/
theorem svmRangeFree_of_some (hb : (m.ranges k).svm_bo = some b)
    (h : (m.bos b).kref ≤ 1 → (m.bos b).range_list = []) :
    (svmRangeFree p m k).bos = Function.update m.bos b
        { kref := (m.bos b).kref - 1, range_list := (m.bos b).range_list } ∧
      (svmRangeFree p m k).next = m.next ∧ (svmRangeFree p m k).freed = k :: m.freed ∧
      ∀ j, j ≠ k → (svmRangeFree p m k).ranges j = m.ranges j := by
  unfold svmRangeFree svmRangeFreeDmaMappings svmRangeVramNodeFree
  rw [hb, svmRangeBoUnref_eq h]
  refine ⟨rfl, rfl, rfl, fun j hj => ?_⟩
  dsimp only
  rw [Mem.setRange_of_ne _ _ hj, Mem.setRange_of_ne _ _ hj, Mem.setBo_ranges]

/-- **A range is taken off its buffer and freed.** -/
theorem Accounted.removeOld {s : Svms} (h : Accounted pages s.mem) (hk : s.mem.Live k) :
    Accounted pages (removeOld p s k).mem ∧ (removeOld p s k).mem.freed = k :: s.mem.freed := by
  have hmem : ∀ s : Svms, (svmRangeRemoveNotifier s k).mem = s.mem := fun s => by
    unfold svmRangeRemoveNotifier
    dsimp only
    split_ifs <;> rfl
  unfold Svm.removeOld
  dsimp only
  rw [hmem]
  unfold svmRangeUnlink
  dsimp only
  cases hb : (s.mem.ranges k).svm_bo with
  | none =>
    dsimp only
    exact ⟨h.free hk hb, (svmRangeFree_of_none hb).2.2.1⟩
  | some b =>
    dsimp only
    have hin : k ∈ (s.mem.bos b).range_list := (h.mem_iff b k).2 ⟨hk, hb⟩
    have hlen : ((s.mem.bos b).range_list.erase k).length + 1 = (s.mem.bos b).range_list.length :=
      List.length_erase_add_one hin
    have hkref := h.kref b
    generalize hm₁ : s.mem.setBo b (fun bo =>
      { bo with range_list := bo.range_list.erase k }) = m₁
    have hbos₁ : m₁.bos = Function.update s.mem.bos b
        { kref := (s.mem.bos b).kref, range_list := (s.mem.bos b).range_list.erase k } := by
      rw [← hm₁]
      rfl
    have hself : m₁.bos b =
        { kref := (s.mem.bos b).kref, range_list := (s.mem.bos b).range_list.erase k } := by
      rw [hbos₁, Function.update_self]
    have hranges₁ : m₁.ranges = s.mem.ranges := by rw [← hm₁]; rfl
    have hnext₁ : m₁.next = s.mem.next := by rw [← hm₁]; rfl
    have hfreed₁ : m₁.freed = s.mem.freed := by rw [← hm₁]; rfl
    obtain ⟨hbos, hnext, hfreed, hother⟩ := @svmRangeFree_of_some p m₁ k b (by rw [hranges₁, hb])
      fun hle => by
        rw [hself] at hle ⊢
        exact List.length_eq_zero_iff.1 (by dsimp only at hle ⊢; omega)
    rw [hself, hbos₁, Function.update_idem] at hbos
    dsimp only at hbos
    rw [hnext₁] at hnext
    rw [hfreed₁] at hfreed
    rw [hranges₁] at hother
    have hlive : ∀ j, (svmRangeFree p m₁ k).Live j ↔ s.mem.Live j ∧ j ≠ k := fun j => by
      unfold Mem.Live
      rw [hnext, hfreed, List.mem_cons, not_or]
      tauto
    refine ⟨⟨fun b' => ?_, fun b' j => ?_, fun b' => ?_, fun j hj => ?_, fun j hj => ?_⟩, hfreed⟩
    · rw [hbos, Function.update_apply]
      split_ifs
      · exact (h.nodup b).erase k
      · exact h.nodup b'
    · rw [hbos, Function.update_apply, hlive]
      by_cases hjk : j = k
      · subst hjk
        simp only [ne_eq, not_true_eq_false, and_false, false_and, iff_false]
        split_ifs with hb'
        · exact (h.nodup b).not_mem_erase
        · intro hin'
          have hb'' := ((h.mem_iff b' j).1 hin').2
          rw [hb, Option.some.injEq] at hb''
          exact hb' hb''.symm
      · rw [hother j hjk, and_iff_left hjk, ← h.mem_iff]
        split_ifs with hb'
        · rw [hb']
          exact List.mem_erase_of_ne hjk
        · rfl
    · rw [hbos, Function.update_apply]
      split_ifs with hb'
      · rw [hb']
        dsimp only
        omega
      · exact h.kref b'
    · obtain ⟨hj, hjk⟩ := (hlive j).1 hj
      rw [hother j hjk]
      exact h.held j hj
    · rw [hnext]
      rw [hfreed] at hj
      rcases List.mem_cons.1 hj with rfl | hj
      · exact hk.1
      · exact h.freed_lt j hj

/-- **The references of one buffer change** with its pages. -/
theorem Accounted.recount {pages' : ℕ → ℕ} {x : ℕ} (h : Accounted pages m)
    (hx : x = (m.bos b).range_list.length + pages' b)
    (hpages : ∀ b', b' ≠ b → pages' b' = pages b') :
    Accounted pages' (m.setBo b fun bo => { bo with kref := x }) := by
  have hlist : ∀ b', ((m.setBo b fun bo => { bo with kref := x }).bos b').range_list =
      (m.bos b').range_list := fun b' => by
    unfold Mem.setBo
    dsimp only
    rw [Function.update_apply]
    split_ifs with hb
    · rw [hb]
    · rfl
  refine ⟨fun b' => ?_, fun b' k => ?_, fun b' => ?_, h.held, h.freed_lt⟩
  · rw [hlist]
    exact h.nodup b'
  · rw [hlist]
    exact h.mem_iff b' k
  · rw [hlist]
    unfold Mem.setBo
    dsimp only
    rw [Function.update_apply]
    split_ifs with hb
    · rw [hb]
      exact hx
    · rw [hpages b' hb]
      exact h.kref b'

/-- **A range gives up its VRAM** and with it the last reference of its buffer. -/
theorem Accounted.vramNodeFree (h : Accounted pages m) (hk : m.Live k)
    (hlast : ∀ b, (m.ranges k).svm_bo = some b → (m.bos b).kref = 1) :
    Accounted pages (svmRangeVramNodeFree m k) ∧
      (svmRangeVramNodeFree m k).next = m.next ∧ (svmRangeVramNodeFree m k).freed = m.freed ∧
      ∀ j, SameButBacking (m.ranges j) ((svmRangeVramNodeFree m k).ranges j) := by
  cases hb : (m.ranges k).svm_bo with
  | none =>
    have hres : (m.ranges k).ttm_res = none := by
      have hheld := h.held k hk
      rw [hb] at hheld
      exact Option.isSome_eq_false_iff.1 hheld |> Option.isNone_iff_eq_none.1
    unfold svmRangeVramNodeFree
    rw [hb]
    refine ⟨h.frame ⟨rfl, rfl, rfl, fun j => ?_⟩, rfl, rfl, fun j =>
      .setRange m k j fun r => ⟨_, _, _, _, rfl⟩⟩
    show ((m.setRange k _).ranges j).svm_bo = _ ∧ ((m.setRange k _).ranges j).ttm_res = _
    by_cases hj : j = k
    · rw [hj, Mem.setRange_self, hres]
      exact ⟨rfl, rfl⟩
    · rw [Mem.setRange_of_ne _ _ hj]
      exact ⟨rfl, rfl⟩
  | some b =>
    have hkref := h.kref b
    have hin : k ∈ (m.bos b).range_list := (h.mem_iff b k).2 ⟨hk, hb⟩
    have hpos := List.length_pos_of_mem hin
    rw [hlast b hb] at hkref
    have hlist : (m.bos b).range_list = [k] := by
      obtain ⟨j, hj⟩ := List.length_eq_one_iff.1
        (show (m.bos b).range_list.length = 1 by omega)
      rw [hj, List.mem_singleton] at hin
      rw [hj, hin]
    have heq : svmRangeVramNodeFree m k = (((m.setBo b fun bo => { bo with
        kref := bo.kref - 1 }).setRange k fun r => { r with svm_bo := none }).setBo b fun bo =>
        { bo with range_list := [] }).setRange k fun r => { r with ttm_res := none } := by
      have hself : (m.setBo b fun bo => { bo with kref := bo.kref - 1 }).bos b =
          { kref := 0, range_list := [k] } := by
        simp [Mem.setBo, hlast b hb, hlist]
      unfold svmRangeVramNodeFree svmRangeBoUnref svmRangeBoRelease
      rw [hb]
      dsimp only
      rw [if_pos (by rw [hself]), hself]
      rfl
    have hbos : (svmRangeVramNodeFree m k).bos = Function.update m.bos b {} := by
      rw [heq]
      simp [Mem.setBo, Mem.setRange, hlast b hb]
    have hself : ((svmRangeVramNodeFree m k).ranges k).svm_bo = none ∧
        ((svmRangeVramNodeFree m k).ranges k).ttm_res = none := by
      rw [heq, Mem.setRange_self, Mem.setBo_ranges, Mem.setRange_self]
      exact ⟨rfl, rfl⟩
    have hother : ∀ j, j ≠ k → (svmRangeVramNodeFree m k).ranges j = m.ranges j := fun j hj => by
      rw [heq, Mem.setRange_of_ne _ _ hj, Mem.setBo_ranges, Mem.setRange_of_ne _ _ hj,
        Mem.setBo_ranges]
    have hnext : (svmRangeVramNodeFree m k).next = m.next := by
      rw [heq]
      rfl
    have hfreed : (svmRangeVramNodeFree m k).freed = m.freed := by
      rw [heq]
      rfl
    have hlive : ∀ j, (svmRangeVramNodeFree m k).Live j ↔ m.Live j := fun j => by
      unfold Mem.Live
      rw [hnext, hfreed]
    refine ⟨⟨fun b' => ?_, fun b' j => ?_, fun b' => ?_, fun j hj => ?_, ?_⟩, hnext, hfreed,
      fun j => ?_⟩
    · rw [hbos, Function.update_apply]
      split_ifs
      · exact .nil
      · exact h.nodup b'
    · rw [hbos, Function.update_apply, hlive]
      by_cases hjk : j = k
      · subst hjk
        rw [hself.1]
        split_ifs with hb'
        · simp
        · have hnot := (h.mem_iff b' j).not
          have hbb : b ≠ b' := fun e => hb' e.symm
          rw [hb, Option.some.injEq] at hnot
          simp [hnot, hbb]
      · rw [hother j hjk, ← h.mem_iff]
        split_ifs with hb'
        · rw [hb', hlist, List.mem_singleton, iff_false_intro hjk]
          simp
        · rfl
    · rw [hbos, Function.update_apply]
      split_ifs with hb'
      · rw [hb']
        show 0 = 0 + pages b
        omega
      · exact h.kref b'
    · by_cases hjk : j = k
      · rw [hjk, hself.1, hself.2]
      · rw [hother j hjk]
        exact h.held j ((hlive j).1 hj)
    · rw [hfreed, hnext]
      exact h.freed_lt
    · by_cases hjk : j = k
      · rw [hjk, heq, Mem.setRange_self, Mem.setBo_ranges, Mem.setRange_self, Mem.setBo_ranges]
        exact ⟨_, _, _, _, rfl⟩
      · rw [hother j hjk]
        exact .refl _

/-! ### The functions of a request -/

/-- `svm_range_new`. -/
theorem svmRangeNew_fresh {a c i : ℕ} (h : svmRangeNew p a c m = (some i, m')) :
    i = m.next ∧ m.answer 0 = true ∧ Fresh m m' := by
  rw [svmRangeNew_eq] at h
  split_ifs at h with h₀
  · cases h
  obtain ⟨hi, rfl⟩ := Prod.mk.inj h
  have hself : ∀ f : SvmRange → SvmRange, (m.kalloc.2.setRange m.next f).ranges m.next =
      f (m.ranges m.next) := fun f => Mem.setRange_self ..
  refine ⟨(Option.some.inj hi).symm, by simpa using h₀, rfl, rfl, rfl, fun k hk => ?_, ?_, ?_, ?_,
    fun j => m.answer_kalloc j⟩
  all_goals dsimp only
  · exact Mem.setRange_of_ne m.kalloc.2 _ hk
  all_goals rw [hself]

theorem svmRangeNew_fails {a c : ℕ} (h : svmRangeNew p a c m = (none, m')) :
    m.answer 0 = false ∧ m' = m.kalloc.2 := by
  rw [svmRangeNew_eq] at h
  split_ifs at h with h₀
  · exact ⟨h₀, (Prod.mk.inj h).2.symm⟩
  · cases h

/-- What `svm_range_clone` gives the clone of a range with a buffer. -/
theorem joined_cloneBo {o : SvmRange} (h : o.svm_bo = some b) (hres : o.ttm_res.isSome = true) :
    Joined m (cloneBo o k m) k b := by
  unfold cloneBo svmRangeBoRef
  rw [h]
  dsimp only
  refine ⟨rfl, rfl, rfl, ?_, ?_, fun j hj => ?_⟩
  · rw [Mem.setBo_ranges, Mem.setRange_self]
  · rw [Mem.setBo_ranges, Mem.setRange_self]
    exact hres
  · rw [Mem.setBo_ranges, Mem.setRange_of_ne _ _ hj]
    exact ⟨rfl, rfl⟩

/-- What `svm_range_split_nodes` gives the new range. -/
theorem joined_svmRangeSplitNodes {new old a c : ℕ} (hne : new ≠ old)
    (h : (m.ranges old).svm_bo = some b) (hres : (m.ranges old).ttm_res.isSome = true) :
    Joined m (svmRangeSplitNodes new old a c m) new b := by
  obtain ⟨hold, hnew⟩ := @ranges_svmRangeSplitNodes m new old a c hne
  refine ⟨?_, (svmRangeSplitNodes_backed ..).next, ?_, ?_, ?_, fun j hj => ?_⟩
  · unfold svmRangeSplitNodes svmRangeBoRef
    dsimp only
    rw [h]
    dsimp only
    split_ifs <;> rfl
  · unfold svmRangeSplitNodes svmRangeBoRef
    dsimp only
    rw [h]
    dsimp only
    split_ifs <;> rfl
  · rw [hnew]
    exact h
  · rw [hnew]
    exact hres
  · by_cases hjo : j = old
    · subst hjo
      rw [hold]
      exact ⟨rfl, rfl⟩
    · rw [(svmRangeSplitNodes_backed ..).other j hj hjo]
      exact ⟨rfl, rfl⟩

theorem allocs_svmRangeSplitNodes (new old a c : ℕ) (m : Mem) :
    (svmRangeSplitNodes new old a c m).allocs = m.allocs := by
  unfold svmRangeSplitNodes svmRangeBoRef
  dsimp only
  split_ifs
  all_goals
    cases (m.ranges old).svm_bo
    all_goals rfl

/-- Without arrays the loop over the GPUs allocates nothing. -/
theorem splitPagesLoop_of_none {new old npages : ℕ} {gpus : List ℕ}
    (h : (m.ranges old).dma_addr = fun _ => none) :
    splitPagesLoop new old npages gpus m = (none, m) := by
  induction gpus with
  | nil => rfl
  | cons i gpus ih => rw [splitPagesLoop_cons, h, ih]

theorem sameBuffers_splitFields (new old a c : ℕ) (m : Mem) :
    SameBuffers m (splitFields new old a c m) := by
  unfold splitFields
  refine .trans (.setRange m old (f := fun r =>
    { r with npages := c - a + 1, start := a, last := c }) fun _ => ⟨rfl, rfl⟩) ?_
  exact .setRange _ new fun _ => ⟨rfl, rfl⟩

theorem Joined.trans (h : Joined m m' k b) (h' : SameBuffers m' m'') : Joined m m'' k b :=
  ⟨h'.bos.trans h.bos, h'.next.trans h.next, h'.freed.trans h.freed,
    (h'.ranges k).1.trans h.svm_bo, (congrArg _ (h'.ranges k).2).trans h.ttm_res, fun j hj =>
    ⟨(h'.ranges j).1.trans (h.other j hj).1, (h'.ranges j).2.trans (h.other j hj).2⟩⟩

/-- A range without arrays is cut down to `[a, c]`, and `m.next` is what it lost. -/
structure Cut (pages : ℕ → ℕ) (m m' : Mem) (k a c : ℕ) : Prop where
  accounted : Accounted pages m'
  next : m'.next = m.next + 1
  freed : m'.freed = m.freed
  other : ∀ j, j < m.next → j ≠ k → m'.ranges j = m.ranges j
  interval : (m'.ranges k).start = a ∧ (m'.ranges k).last = c
  dma_addr : (m'.ranges k).dma_addr = fun _ => none
  svm_bo : (m'.ranges k).svm_bo = (m.ranges k).svm_bo
  new_dma_addr : (m'.ranges m.next).dma_addr = fun _ => none
  /-- Nothing happens to the buffers if the range has none. -/
  clean : (m.ranges k).svm_bo = none → m'.bos = m.bos ∧ (m'.ranges m.next).svm_bo = none
  answer : ∀ j, m'.answer j = m.answer (j + 1)

/-- **`svm_range_split`** of a range without arrays takes one allocation. -/
theorem Accounted.split {a c : ℕ} {r : Except Errno ℕ} (h : Accounted pages m) (hk : m.Live k)
    (hd : (m.ranges k).dma_addr = fun _ => none) (hs : (m.ranges k).SplitPoint a c)
    (hsplit : svmRangeSplit p k a c m = (r, m')) :
    (r = .error .enomem ∧ m.answer 0 = false ∧ m' = m.kalloc.2) ∨
      (r = .ok m.next ∧ m.answer 0 = true ∧ Cut pages m m' k a c) := by
  rw [svmRangeSplit_eq hs] at hsplit
  split at hsplit
  · rename_i m₁ hnew
    obtain ⟨h₀, rfl⟩ := svmRangeNew_fails hnew
    cases hsplit
    exact .inl ⟨rfl, h₀, rfl⟩
  · rename_i new m₁ hnew
    obtain ⟨rfl, h₀, hf⟩ := svmRangeNew_fresh hnew
    obtain ⟨-, hr⟩ := svmRangeNew_ok hnew
    have hne : m.next ≠ k := Nat.ne_of_gt hk.1
    have hold : m₁.ranges k = m.ranges k := hf.other k hne.symm
    have hadjust : svmRangeSplitAdjust m.next k a c m₁ = (none, splitFields m.next k a c
        (if (m₁.ranges k).InVram then svmRangeSplitNodes m.next k a c m₁ else m₁)) := by
      unfold svmRangeSplitAdjust svmRangeSplitPages
      rw [splitPagesLoop_of_none (by rw [hold, hd]), if_neg]
      · rfl
      · rw [hold, hr]
        unfold SvmRange.SplitPoint at hs
        unfold SvmRange.lost
        dsimp only
        split_ifs <;> dsimp only <;> omega
    rw [hadjust] at hsplit
    cases hsplit
    refine .inr ⟨rfl, h₀, ?_⟩
    obtain ⟨hkept, hmoved⟩ :=
      @ranges_splitRest m₁ m.next k a c _ _ (m₁.ranges k) (m₁.ranges m.next) hne rfl rfl
    change (splitFields m.next k a c (if (m₁.ranges k).InVram
      then svmRangeSplitNodes m.next k a c m₁ else m₁)).ranges k = _ at hkept
    change (splitFields m.next k a c (if (m₁.ranges k).InVram
      then svmRangeSplitNodes m.next k a c m₁ else m₁)).ranges m.next = _ at hmoved
    obtain ⟨hnext, hother, -⟩ := svmRangeSplitAdjust_ok hne hadjust
    have hacc₁ := h.fresh hf
    have hlive₁ : m₁.Live m.next := (hf.live h).2 (.inr rfl)
    -- the buffers: with and without pages in VRAM
    have hbuffers : Accounted pages (splitFields m.next k a c
          (if (m₁.ranges k).InVram then svmRangeSplitNodes m.next k a c m₁ else m₁)) ∧
        (splitFields m.next k a c (if (m₁.ranges k).InVram
          then svmRangeSplitNodes m.next k a c m₁ else m₁)).freed = m.freed ∧
        ((m.ranges k).svm_bo = none → (splitFields m.next k a c (if (m₁.ranges k).InVram
          then svmRangeSplitNodes m.next k a c m₁ else m₁)).bos = m.bos) := by
      have hheld := h.held k hk
      split_ifs with hv
      · have hres : (m₁.ranges k).ttm_res.isSome = true := hv.2
        obtain ⟨b, hb⟩ := Option.isSome_iff_exists.1 (hheld ▸ hold ▸ hres)
        have hj := (joined_svmRangeSplitNodes (a := a) (c := c) hne (hold ▸ hb) hres).trans
          (sameBuffers_splitFields m.next k a c _)
        exact ⟨hacc₁.joined hlive₁ hf.svm_bo hj, hj.freed.trans hf.freed, fun hn => by
          rw [hb] at hn
          cases hn⟩
      · have hsame := sameBuffers_splitFields m.next k a c m₁
        exact ⟨hacc₁.frame hsame, hsame.freed.trans hf.freed, fun _ => hsame.bos.trans hf.bos⟩
    obtain ⟨hacc, hfreed, hbos⟩ := hbuffers
    have hallocs : (splitFields m.next k a c (if (m₁.ranges k).InVram
        then svmRangeSplitNodes m.next k a c m₁ else m₁)).allocs = m₁.allocs := by
      split_ifs
      · exact allocs_svmRangeSplitNodes ..
      · rfl
    refine ⟨hacc, hnext.trans hf.next, hfreed, fun j hj hjk => ?_, ?_, ?_, ?_, ?_, fun hn => ?_,
      fun j => ?_⟩
    · exact (hother j (by omega) hjk).trans (hf.other j (by omega))
    · rw [hkept]
      exact ⟨rfl, rfl⟩
    · have hdma : (m₁.ranges k).dma_addr = fun _ => none := (congrArg _ hold).trans hd
      rw [hkept]
      exact hdma
    · have hbo : (m₁.ranges k).svm_bo = (m.ranges k).svm_bo := congrArg _ hold
      rw [hkept]
      exact hbo
    · rw [hmoved]
      exact hf.dma_addr
    · refine ⟨hbos hn, ?_⟩
      rw [hmoved]
      unfold movedRange
      dsimp only
      split_ifs
      · exact hold ▸ hn
      · exact hf.svm_bo
    · rw [← hf.answer]
      unfold Mem.answer
      rw [hallocs]

/-- `m.next` is a clone of range `k`. -/
structure Cloned (pages : ℕ → ℕ) (m m' : Mem) (k : ℕ) : Prop where
  accounted : Accounted pages m'
  next : m'.next = m.next + 1
  freed : m'.freed = m.freed
  other : ∀ j, j < m.next → m'.ranges j = m.ranges j
  interval : (m'.ranges m.next).start = (m.ranges k).start ∧
    (m'.ranges m.next).last = (m.ranges k).last
  dma_addr : (m'.ranges m.next).dma_addr = fun _ => none
  svm_bo : (m'.ranges m.next).svm_bo = (m.ranges k).svm_bo
  /-- Nothing happens to the buffers if the range has none. -/
  clean : (m.ranges k).svm_bo = none → m'.bos = m.bos
  answer : ∀ j, m'.answer j = m.answer (j + 1)

/-- **`svm_range_clone`** takes one allocation. -/
theorem Accounted.clone {r : Option ℕ} (h : Accounted pages m) (hk : m.Live k)
    (hclone : svmRangeClone p k m = (r, m')) :
    (r = none ∧ m.answer 0 = false ∧ m' = m.kalloc.2) ∨
      (r = some m.next ∧ m.answer 0 = true ∧ Cloned pages m m' k) := by
  have hok := @svmRangeClone_ok p m m' k
  unfold svmRangeClone at hclone
  dsimp only at hclone
  split at hclone
  · rename_i m₁ hnew
    obtain ⟨h₀, rfl⟩ := svmRangeNew_fails hnew
    cases hclone
    exact .inl ⟨rfl, h₀, rfl⟩
  · rename_i new m₁ hnew
    obtain ⟨rfl, h₀, hf⟩ := svmRangeNew_fresh hnew
    obtain ⟨-, hr⟩ := svmRangeNew_ok hnew
    cases hclone
    refine .inr ⟨rfl, h₀, ?_⟩
    have hacc₁ := h.fresh hf
    have hlive₁ : m₁.Live m.next := (hf.live h).2 (.inr rfl)
    have hfields (m : Mem) (o : SvmRange) (new : ℕ) : SameBuffers m (m.setRange new fun r =>
        { r with toSvmAttrs := o.toSvmAttrs, actual_loc := o.actual_loc }) :=
      .setRange m new fun _ => ⟨rfl, rfl⟩
    have hheld := h.held k hk
    have hback := cloneBo_backed (m.ranges k) m.next m₁
    have hself : ((cloneBo (m.ranges k) m.next m₁).ranges m.next).start = (m.ranges k).start ∧
        ((cloneBo (m.ranges k) m.next m₁).ranges m.next).last = (m.ranges k).last ∧
        ((cloneBo (m.ranges k) m.next m₁).ranges m.next).dma_addr = fun _ => none := by
      unfold cloneBo svmRangeBoRef
      split
      · rw [hr]
        exact ⟨rfl, rfl, rfl⟩
      · dsimp only
        rw [Mem.setBo_ranges, Mem.setRange_self, hr]
        exact ⟨rfl, rfl, rfl⟩
    have hallocs : (cloneBo (m.ranges k) m.next m₁).allocs = m₁.allocs := by
      unfold cloneBo svmRangeBoRef
      split <;> rfl
    have hother : ∀ j, j < m.next → ((cloneBo (m.ranges k) m.next m₁).setRange m.next fun r =>
        { r with
          toSvmAttrs := (m.ranges k).toSvmAttrs
          actual_loc := (m.ranges k).actual_loc }).ranges j = m.ranges j := fun j hj => by
      have hjn := Nat.ne_of_lt hj
      rw [Mem.setRange_of_ne _ _ hjn, hback.other j hjn hjn, hf.other j hjn]
    have hanswer : ∀ j, ((cloneBo (m.ranges k) m.next m₁).setRange m.next fun r =>
        { r with
          toSvmAttrs := (m.ranges k).toSvmAttrs
          actual_loc := (m.ranges k).actual_loc }).answer j = m.answer (j + 1) := fun j => by
      rw [← hf.answer]
      unfold Mem.answer
      show (cloneBo (m.ranges k) m.next m₁).allocs.getD j true = _
      rw [hallocs]
    obtain ⟨hstart, hlast, hdma⟩ := hself
    cases hb : (m.ranges k).svm_bo with
    | none =>
      have hclone : cloneBo (m.ranges k) m.next m₁ = m₁ := by
        unfold cloneBo
        rw [hb]
      rw [hclone] at hother hanswer hstart hlast hdma ⊢
      have hsame := hfields m₁ (m.ranges k) m.next
      refine ⟨hacc₁.frame hsame, hsame.next.trans hf.next, hsame.freed.trans hf.freed, hother,
        ?_, ?_, ?_, fun _ => hsame.bos.trans hf.bos, hanswer⟩
      · rw [Mem.setRange_self]
        exact ⟨hstart, hlast⟩
      · rw [Mem.setRange_self]
        exact hdma
      · rw [Mem.setRange_self, hb]
        exact hf.svm_bo
    | some b =>
      have hj := (joined_cloneBo (m := m₁) (k := m.next) hb (by rw [hheld, hb]; rfl)).trans
        (hfields _ (m.ranges k) m.next)
      refine ⟨hacc₁.joined hlive₁ hf.svm_bo hj, hj.next.trans hf.next, hj.freed.trans hf.freed,
        hother, ?_, ?_, hj.svm_bo.trans hb.symm, fun hn => ?_, hanswer⟩
      · rw [Mem.setRange_self]
        exact ⟨hstart, hlast⟩
      · rw [Mem.setRange_self]
        exact hdma
      · rw [hb] at hn
        cases hn

end

end Codrive.Svm
