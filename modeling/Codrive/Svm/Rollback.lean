/-
# A request that runs out of memory

`svm_range_handle_overlap` works on clones and frees them when an allocation fails.  A clone of a
range with a buffer is on the buffer's list of ranges by then, and `svm_range_free` does not take
it off.  So a failure undoes everything if no such clone is on the insert list (`Failed`).  `plan`
says for each allocation of a request whether one is, and `Spared` that none of these allocations
is the first to fail.
-/

import Codrive.Svm.Accounts

namespace Codrive.Svm

open Codrive.Basis

/-! ### The allocations of a request -/

/-- Handling the node puts a clone of a range with a buffer on the insert list. -/
def ItNode.backs (m : Mem) (start last : ℕ) (n : ItNode) : Bool :=
  n.Sticks start last && (m.ranges n.prange).svm_bo.isSome

/-- The allocations of one round of `svm_range_handle_overlap`: for each, whether a clone of a
range with a buffer is on the insert list.  It is `before` the round and `after` the node is
cloned. -/
def roundPlan (start last : ℕ) (n : ItNode) (before after : Bool) : List Bool :=
  (if n.Sticks start last then
    before :: ((if n.start < start then [after] else []) ++ if n.last > last then [after] else [])
    else []) ++
  if n.start > start then [after] else []

/-- The allocations of a request, in the order of `overlapLoop`.  The last one, for the pages behind
the last node, must not fail whatever is on the insert list. -/
def plan (m : Mem) (last : ℕ) : ℕ → ℕ → List ItNode → Bool → List Bool
  | _, start, [], _ => if start ≤ last then [true] else []
  | seek, start, n :: nodes, backed =>
    if n.start ≤ last ∧ seek ≤ n.last then
      roundPlan start last n backed (backed || n.backs m start last) ++
        plan m last start (min n.last last + 1) nodes (backed || n.backs m start last)
    else plan m last seek start nodes backed

/-- If an allocation fails, the first that does is one the plan says `false` of. -/
def Spared : List Bool → (ℕ → Bool) → Prop
  | [], _ => True
  | backed :: rest, answers =>
    if answers 0 then Spared rest fun j => answers (j + 1) else backed = false

instance Spared.decidable : (l : List Bool) → (answers : ℕ → Bool) → Decidable (Spared l answers)
  | [], _ => .isTrue trivial
  | backed :: rest, answers =>
    have := Spared.decidable rest fun j => answers (j + 1)
    inferInstanceAs (Decidable
      (if answers 0 then Spared rest fun j => answers (j + 1) else backed = false))

theorem spared_cons_of_true {backed : Bool} {rest : List Bool} {answers : ℕ → Bool}
    (h : answers 0 = true) :
    Spared (backed :: rest) answers ↔ Spared rest fun j => answers (j + 1) := by
  rw [Spared, if_pos h]

theorem eq_false_of_spared {backed : Bool} {rest : List Bool} {answers : ℕ → Bool}
    (h : Spared (backed :: rest) answers) (h₀ : answers 0 = false) : backed = false := by
  rwa [Spared, if_neg (by rw [h₀]; exact Bool.false_ne_true)] at h

/-! ### What the loop has made -/

/-- The ranges made since `m₀` are those of the insert list, and the ranges of `m₀` are as they
were. -/
structure Pending (pages : ℕ → ℕ) (m₀ : Mem) (o : Overlap) : Prop where
  accounted : Accounted pages o.mem
  next_le : m₀.next ≤ o.mem.next
  old : ∀ k < m₀.next, o.mem.ranges k = m₀.ranges k
  freed : o.mem.freed = m₀.freed
  freed_lt : ∀ k ∈ m₀.freed, k < m₀.next
  mem_insert : ∀ k, k ∈ o.insert_list ↔ m₀.next ≤ k ∧ k < o.mem.next
  nodup : o.insert_list.Nodup
  dma_addr : ∀ k ∈ o.insert_list, (o.mem.ranges k).dma_addr = fun _ => none

/-- No range of the insert list has a buffer, and nothing has happened to the buffers. -/
structure Clean (m₀ : Mem) (o : Overlap) : Prop where
  bos : o.mem.bos = m₀.bos
  svm_bo : ∀ k ∈ o.insert_list, (o.mem.ranges k).svm_bo = none

/-- The request goes on: the insert list has a clone with a buffer only if `backed` says so, and
`rest` are the allocations to come. -/
structure Ready (pages : ℕ → ℕ) (m₀ : Mem) (backed : Bool) (rest : List Bool) (o : Overlap) :
    Prop where
  pending : Pending pages m₀ o
  clean : backed = false → Clean m₀ o
  spared : Spared rest o.mem.answer

/-- The request fails, and freeing the insert list undoes it. -/
structure Failed (pages : ℕ → ℕ) (m₀ : Mem) (o : Overlap) : Prop where
  pending : Pending pages m₀ o
  clean : Clean m₀ o

/-- What a step of the request leads to. -/
def After (pages : ℕ → ℕ) (m₀ : Mem) (backed : Bool) (rest : List Bool) :
    Option Errno × Overlap → Prop
  | (some _, o) => Failed pages m₀ o
  | (none, o) => Ready pages m₀ backed rest o

section

variable {pages : ℕ → ℕ} {m₀ m : Mem} {backed : Bool} {rest : List Bool} {o o' : Overlap}
  {p : OpuProcess} {k : ℕ}

theorem Pending.live (h : Pending pages m₀ o) (hk : k ∈ o.insert_list) : o.mem.Live k := by
  obtain ⟨h₁, h₂⟩ := (h.mem_insert k).1 hk
  refine ⟨h₂, fun hf => ?_⟩
  rw [h.freed] at hf
  have := h.freed_lt k hf
  omega

theorem Pending.live_old (h : Pending pages m₀ o) (hk : m₀.Live k) : o.mem.Live k :=
  ⟨Nat.lt_of_lt_of_le hk.1 h.next_le, by rw [h.freed]; exact hk.2⟩

/-- An allocation that fails. -/
theorem Ready.fails (h : Ready pages m₀ backed (backed :: rest) o) (h₀ : o.mem.answer 0 = false) :
    Failed pages m₀ { o with mem := o.mem.kalloc.2 } := by
  obtain ⟨h₁, h₂, h₃, h₄, h₅, h₆, h₇, h₈⟩ := h.pending
  obtain ⟨hbos, hsvm⟩ := h.clean (eq_false_of_spared h.spared h₀)
  exact ⟨⟨h₁.frame (sameBuffers_kalloc _), h₂, h₃, h₄, h₅, h₆, h₇, h₈⟩, hbos, hsvm⟩

/-- A range more on the insert list. -/
theorem Pending.push (h : Pending pages m₀ o) (hacc : Accounted pages o'.mem)
    (hnext : o'.mem.next = o.mem.next + 1) (hfreed : o'.mem.freed = o.mem.freed)
    (hold : ∀ j < m₀.next, o'.mem.ranges j = o.mem.ranges j)
    (hdma : ∀ j ∈ o.insert_list, (o'.mem.ranges j).dma_addr = fun _ => none)
    (hnew : (o'.mem.ranges o.mem.next).dma_addr = fun _ => none)
    (hinsert : o'.insert_list = o.mem.next :: o.insert_list) : Pending pages m₀ o' := by
  have hle := h.next_le
  refine ⟨hacc, by omega, fun j hj => (hold j hj).trans (h.old j hj), hfreed.trans h.freed,
    h.freed_lt, fun j => ?_, ?_, fun j hj => ?_⟩
  · rw [hinsert, List.mem_cons, h.mem_insert, hnext]
    omega
  · rw [hinsert]
    refine List.nodup_cons.2 ⟨fun hmem => ?_, h.nodup⟩
    have := (h.mem_insert _).1 hmem
    omega
  · rw [hinsert] at hj
    rcases List.mem_cons.1 hj with rfl | hj
    · exact hnew
    · exact hdma j hj

/-- **A new range** for a gap. -/
theorem Ready.fresh {backed' : Bool} (h : Ready pages m₀ backed (backed' :: rest) o)
    (hf : Fresh o.mem m) (h₀ : o.mem.answer 0 = true) (u : List ℕ) :
    Ready pages m₀ backed rest { o with
      mem := m, insert_list := o.mem.next :: o.insert_list, update_list := u } := by
  have hlt : ∀ j ∈ o.insert_list, j ≠ o.mem.next := fun j hj =>
    Nat.ne_of_lt ((h.pending.mem_insert j).1 hj).2
  have hle := h.pending.next_le
  refine ⟨h.pending.push (h.pending.accounted.fresh hf) hf.next hf.freed (fun j hj => ?_)
    (fun j hj => ?_) hf.dma_addr rfl, fun hb => ⟨hf.bos.trans (h.clean hb).bos, fun j hj => ?_⟩, ?_⟩
  · exact hf.other j (by omega)
  · dsimp only
    rw [hf.other j (hlt j hj)]
    exact h.pending.dma_addr j hj
  · rcases List.mem_cons.1 hj with rfl | hj
    · exact hf.svm_bo
    · dsimp only
      rw [hf.other j (hlt j hj)]
      exact (h.clean hb).svm_bo j hj
  · have hspared := (spared_cons_of_true h₀).1 h.spared
    rwa [show (fun j => o.mem.answer (j + 1)) = m.answer from funext fun j => (hf.answer j).symm]
      at hspared

/-- **A range of the insert list is split.** -/
theorem Ready.split {a c : ℕ} (h : Ready pages m₀ backed (backed :: rest) o)
    (hk : k ∈ o.insert_list) (hs : (o.mem.ranges k).SplitPoint a c) :
    match svmRangeSplit p k a c o.mem with
    | (.error _, m) => Failed pages m₀ { o with mem := m }
    | (.ok n, m) => Ready pages m₀ backed rest
        { o with mem := m, insert_list := n :: o.insert_list } := by
  rcases hsplit : svmRangeSplit p k a c o.mem with ⟨r, m⟩
  rcases h.pending.accounted.split (h.pending.live hk) (h.pending.dma_addr k hk) hs hsplit with
    ⟨rfl, h₀, rfl⟩ | ⟨rfl, h₀, hc⟩
  · exact h.fails h₀
  · have hkm := (h.pending.mem_insert k).1 hk
    have hlt : ∀ j ∈ o.insert_list, j < o.mem.next := fun j hj =>
      ((h.pending.mem_insert j).1 hj).2
    have hle := h.pending.next_le
    refine ⟨h.pending.push hc.accounted hc.next hc.freed (fun j hj => ?_) (fun j hj => ?_)
      hc.new_dma_addr rfl, fun hb => ?_, ?_⟩
    · exact hc.other j (by omega) (by omega)
    · dsimp only
      by_cases hjk : j = k
      · rw [hjk]
        exact hc.dma_addr
      · rw [hc.other j (hlt j hj) hjk]
        exact h.pending.dma_addr j hj
    · obtain ⟨hbos, hsvm⟩ := h.clean hb
      obtain ⟨hbos', hnew⟩ := hc.clean (hsvm k hk)
      refine ⟨hbos'.trans hbos, fun j hj => ?_⟩
      rcases List.mem_cons.1 hj with rfl | hj
      · exact hnew
      · dsimp only
        by_cases hjk : j = k
        · rw [hjk, hc.svm_bo]
          exact hsvm k hk
        · rw [hc.other j (hlt j hj) hjk]
          exact hsvm j hj
    · have hspared := (spared_cons_of_true h₀).1 h.spared
      rwa [show (fun j => o.mem.answer (j + 1)) = m.answer from
        funext fun j => (hc.answer j).symm] at hspared

/-- **A registered range is cloned.** -/
theorem Ready.clone (h : Ready pages m₀ backed (backed :: rest) o) (hk : m₀.Live k)
    (r : List ℕ) :
    match svmRangeClone p k o.mem with
    | (none, m) => Failed pages m₀ { o with mem := m }
    | (some n, m) => n = o.mem.next ∧
        Ready pages m₀ (backed || (m₀.ranges k).svm_bo.isSome) rest
          { o with mem := m, remove_list := r, insert_list := n :: o.insert_list } := by
  rcases hclone : svmRangeClone p k o.mem with ⟨n, m⟩
  have hold := h.pending.old k hk.1
  rcases h.pending.accounted.clone (h.pending.live_old hk) hclone with
    ⟨rfl, h₀, rfl⟩ | ⟨rfl, h₀, hc⟩
  · exact h.fails h₀
  · have hlt : ∀ j ∈ o.insert_list, j < o.mem.next := fun j hj =>
      ((h.pending.mem_insert j).1 hj).2
    have hle := h.pending.next_le
    refine ⟨rfl, h.pending.push hc.accounted hc.next hc.freed (fun j hj => ?_) (fun j hj => ?_)
      hc.dma_addr rfl, fun hb => ?_, ?_⟩
    · exact hc.other j (by omega)
    · dsimp only
      rw [hc.other j (hlt j hj)]
      exact h.pending.dma_addr j hj
    · obtain ⟨hb, hnone⟩ := Bool.or_eq_false_iff.1 hb
      have hnone : (o.mem.ranges k).svm_bo = none := by
        rw [hold]
        exact Option.isSome_eq_false_iff.1 hnone |> Option.isNone_iff_eq_none.1
      obtain ⟨hbos, hsvm⟩ := h.clean hb
      refine ⟨(hc.clean hnone).trans hbos, fun j hj => ?_⟩
      rcases List.mem_cons.1 hj with rfl | hj
      · exact hc.svm_bo.trans hnone
      · dsimp only
        rw [hc.other j (hlt j hj)]
        exact hsvm j hj
    · have hspared := (spared_cons_of_true h₀).1 h.spared
      rwa [show (fun j => o.mem.answer (j + 1)) = m.answer from
        funext fun j => (hc.answer j).symm] at hspared

/-! ### One round -/

/-- "change old range start" -/
theorem Ready.splitHead {s : Seg SvmAttrs} {start : ℕ}
    (h : Ready pages m₀ backed ((if s.start < start then [backed] else []) ++ rest) o)
    (hk : k ∈ o.insert_list) (hs : (o.mem.ranges k).seg = s) (hle : start ≤ s.last) :
    After pages m₀ backed rest
      (if s.start < start then svmRangeSplitHead p k start o else (none, o)) := by
  subst hs
  split_ifs at h ⊢ with hlt
  · have hsplit := @Ready.split pages m₀ backed rest o p k start (o.mem.ranges k).last h hk
      (.inr ⟨rfl, hlt, hle⟩)
    unfold svmRangeSplitHead
    rcases hres : svmRangeSplit p k start (o.mem.ranges k).last o.mem with ⟨e | n, m⟩
    all_goals
      rw [hres] at hsplit
      exact hsplit
  · exact h

/-- "change old range last" -/
theorem Ready.splitTail {s : Seg SvmAttrs} {last : ℕ}
    (h : Ready pages m₀ backed ((if s.last > last then [backed] else []) ++ rest) o)
    (hk : k ∈ o.insert_list) (hs : (o.mem.ranges k).seg = s) (hle : s.start ≤ last) :
    After pages m₀ backed rest
      (if s.last > last then svmRangeSplitTail p k last o else (none, o)) := by
  subst hs
  split_ifs at h ⊢ with hlt
  · have hsplit := @Ready.split pages m₀ backed rest o p k (o.mem.ranges k).start last h hk
      (.inl ⟨rfl, hle, hlt⟩)
    unfold svmRangeSplitTail
    rcases hres : svmRangeSplit p k (o.mem.ranges k).start last o.mem with ⟨e | n, m⟩
    all_goals
      rw [hres] at hsplit
      exact hsplit
  · exact h

/-- A node that sticks out. -/
theorem Ready.cloneAndSplit {start last : ℕ} {n : ItNode}
    (h : Ready pages m₀ backed (backed ::
      ((if n.start < start then [backed || (m₀.ranges n.prange).svm_bo.isSome] else []) ++
        ((if n.last > last then [backed || (m₀.ranges n.prange).svm_bo.isSome] else []) ++
          rest))) o)
    (hk : m₀.Live n.prange) (hok : n.Ok o.mem) (hmeet : n.start ≤ last ∧ start ≤ n.last)
      (hle : start ≤ last) :
    match cloneAndSplit p start last n o with
    | (.error _, o') => Failed pages m₀ o'
    | (.ok _, o') => Ready pages m₀ (backed || (m₀.ranges n.prange).svm_bo.isSome) rest o' := by
  have hc := h.clone (p := p) hk (n.prange :: o.remove_list)
  unfold Svm.cloneAndSplit
  rcases hclone : svmRangeClone p n.prange o.mem with ⟨_ | c, m⟩
  · rw [hclone] at hc
    exact hc
  · rw [hclone] at hc
    obtain ⟨rfl, hr⟩ := hc
    obtain ⟨-, hseg, -⟩ := svmRangeClone_ok hclone
    rw [hok.2] at hseg
    generalize ho₁ : ({ o with
      mem := m, remove_list := n.prange :: o.remove_list,
      insert_list := o.mem.next :: o.insert_list } : Overlap) = o₁ at hr
    have hm₁ : o₁.mem = m := by rw [← ho₁]
    have hin₁ : o.mem.next ∈ o₁.insert_list := by
      rw [← ho₁]
      exact List.mem_cons_self
    rw [← hm₁] at hseg
    dsimp only
    rw [ho₁]
    have hhead : After pages m₀ _ _
        (if n.start < start then svmRangeSplitHead p o.mem.next start o₁ else (none, o₁)) :=
      @Ready.splitHead pages m₀ _ _ o₁ p o.mem.next (n.seg o.mem) start hr hin₁ hseg hmeet.2
    have hlt₁ : o.mem.next < o₁.mem.next := by
      have := (hr.pending.mem_insert _).1 hin₁
      omega
    rcases hres : (if n.start < start then svmRangeSplitHead p o.mem.next start o₁ else (none, o₁))
      with ⟨_ | e, o₂⟩
    · rw [hres] at hhead
      obtain ⟨l, hcut⟩ := splitHead_ok (s := n.seg o.mem) hlt₁ hseg hres
      have hin₂ : o.mem.next ∈ o₂.insert_list := by
        rw [hcut.insert]
        exact List.mem_append_right _ hin₁
      have htail := @Ready.splitTail pages m₀ _ rest o₂ p o.mem.next
        ⟨max start n.start, n.last, (o.mem.ranges n.prange).toSvmAttrs⟩ last hhead hin₂ hcut.kept
        (by show max start n.start ≤ last; omega)
      dsimp only
      change After pages m₀ _ _
        (if n.last > last then svmRangeSplitTail p o.mem.next last o₂ else (none, o₂)) at htail
      rcases hres' : (if n.last > last then svmRangeSplitTail p o.mem.next last o₂
        else (none, o₂)) with ⟨_ | e, o₃⟩
      all_goals
        rw [hres'] at htail
        exact htail
    · rw [hres] at hhead
      exact hhead

/-- "insert a new node if needed" -/
theorem Ready.fillGap {start : ℕ} {n : ItNode}
    (h : Ready pages m₀ backed ((if n.start > start then [backed] else []) ++ rest) o) :
    After pages m₀ backed rest (fillGap p start n o) := by
  unfold Svm.fillGap
  split_ifs at h ⊢ with hlt
  · rcases hnew : svmRangeNew p start (n.start - 1) o.mem with ⟨_ | i, m⟩
    · obtain ⟨h₀, rfl⟩ := svmRangeNew_fails hnew
      exact Ready.fails h h₀
    · obtain ⟨rfl, h₀, hf⟩ := svmRangeNew_fresh hnew
      exact Ready.fresh h hf h₀ _
  · exact h

theorem Ready.addToUpdateList (h : Ready pages m₀ backed rest o) (new : SvmAttrs) (k : ℕ) :
    Ready pages m₀ backed rest (addToUpdateList new k o) := by
  unfold Svm.addToUpdateList
  split_ifs
  · exact h
  · obtain ⟨⟨h₁, h₂, h₃, h₄, h₅, h₆, h₇, h₈⟩, hclean, hspared⟩ := h
    exact ⟨⟨h₁, h₂, h₃, h₄, h₅, h₆, h₇, h₈⟩, fun hb => ⟨(hclean hb).bos, (hclean hb).svm_bo⟩,
      hspared⟩

/-- **One round of the loop.** -/
theorem Ready.overlapNode {new : SvmAttrs} {start last : ℕ} {n : ItNode}
    (h : Ready pages m₀ backed
      (roundPlan start last n backed (backed || n.backs m₀ start last) ++ rest) o)
    (hk : m₀.Live n.prange) (hok : n.Ok o.mem) (hmeet : n.start ≤ last ∧ start ≤ n.last)
    (hle : start ≤ last) :
    After pages m₀ (backed || n.backs m₀ start last) rest (overlapNode p new start last n o) := by
  unfold roundPlan ItNode.backs at h
  unfold Svm.overlapNode innerRange ItNode.backs
  by_cases hst : n.Sticks start last
  · have hst' : n.start < start ∨ n.last > last := hst
    simp only [hst, decide_true, Bool.true_and, if_true, List.cons_append, List.append_assoc] at h
    rw [if_pos hst']
    simp only [hst, decide_true, Bool.true_and]
    have hclone := @Ready.cloneAndSplit pages m₀ backed
      ((if n.start > start then [backed || (m₀.ranges n.prange).svm_bo.isSome] else []) ++ rest)
      o p start last n h hk hok hmeet hle
    rcases hres : Svm.cloneAndSplit p start last n o with ⟨e | c, o₁⟩
    · rw [hres] at hclone
      exact hclone
    · rw [hres] at hclone
      exact (Ready.addToUpdateList hclone new c).fillGap
  · have hst' : ¬(n.start < start ∨ n.last > last) := hst
    simp only [hst, decide_false, Bool.false_and, Bool.or_false, if_false, List.nil_append] at h
    rw [if_neg hst']
    simp only [hst, decide_false, Bool.false_and, Bool.or_false]
    exact (Ready.addToUpdateList h new n.prange).fillGap

/-! ### The loop -/

/-- **The loop of `svm_range_handle_overlap`.** -/
theorem Ready.overlapLoop {new : SvmAttrs} {last : ℕ} {nodes : List ItNode} {seek start : ℕ}
    (h : Ready pages m₀ backed (plan m₀ last seek start nodes backed) o) (hn : Nodes m₀ nodes)
    (hlive : ∀ n ∈ nodes, m₀.Live n.prange) (hle : seek ≤ start) (hsl : start ≤ last + 1)
    (hseek : ∀ b ∈ nodes, b.start ≤ last → seek ≤ b.last → start ≤ b.last ∧ start ≤ last) :
    match overlapLoop p new last seek start nodes o with
    | (some _, _, o') => Failed pages m₀ o'
    | (none, start', o') =>
      ∃ backed', Ready pages m₀ backed' (if start' ≤ last then [true] else []) o' := by
  induction nodes generalizing seek start o backed with
  | nil => exact ⟨backed, h⟩
  | cons n nodes ih =>
    have hbehind := hn.behind
    rw [plan] at h
    rw [Svm.overlapLoop]
    split_ifs at h ⊢ with hmeet
    · -- a round for `n`
      obtain ⟨hnl, hsl'⟩ := hseek n List.mem_cons_self hmeet.1 hmeet.2
      have hok : n.Ok o.mem := ((hn.mono h.pending.next_le h.pending.old).ok n List.mem_cons_self)
      have hround : After pages m₀ _ _ (Svm.overlapNode p new start last n o) :=
        h.overlapNode (hlive n List.mem_cons_self) hok ⟨hmeet.1, hnl⟩ hsl'
      rcases hres : Svm.overlapNode p new start last n o with ⟨_ | e, o₁⟩
      · rw [hres] at hround
        refine ih hround hn.tail (fun b hb => hlive b (List.mem_cons_of_mem _ hb)) (by omega)
          (by omega) fun b hb hbl hbs => ?_
        have := hbehind b hb
        omega
      · rw [hres] at hround
        exact hround
    · refine ih h hn.tail (fun b hb => hlive b (List.mem_cons_of_mem _ hb)) hle hsl
        fun b hb => hseek b (List.mem_cons_of_mem _ hb)

/-! ### The end of `svm_range_add` -/

/-- **Everything is as it was**, and the ranges that were made are freed. -/
structure Undone (m m' : Mem) : Prop where
  next_le : m.next ≤ m'.next
  ranges : ∀ k < m.next, m'.ranges k = m.ranges k
  bos : m'.bos = m.bos
  freed : ∀ k, k ∈ m'.freed ↔ k ∈ m.freed ∨ m.next ≤ k ∧ k < m'.next

/-- Ranges without a buffer are freed, one after the other. -/
theorem Accounted.freeAll {l : List ℕ} (h : Accounted pages m) (hl : l.Nodup)
    (hk : ∀ k ∈ l, m.Live k ∧ (m.ranges k).svm_bo = none) :
    Accounted pages (l.foldl (svmRangeFree p) m) ∧ (l.foldl (svmRangeFree p) m).bos = m.bos ∧
      (l.foldl (svmRangeFree p) m).next = m.next ∧
      (∀ j, j ∉ l → (l.foldl (svmRangeFree p) m).ranges j = m.ranges j) ∧
      ∀ j, j ∈ (l.foldl (svmRangeFree p) m).freed ↔ j ∈ l ∨ j ∈ m.freed := by
  induction l generalizing m with
  | nil => exact ⟨h, rfl, rfl, fun _ _ => rfl, fun j => by simp⟩
  | cons k l ih =>
    obtain ⟨hkl, hl⟩ := List.nodup_cons.1 hl
    obtain ⟨hlive, hnone⟩ := hk k List.mem_cons_self
    obtain ⟨hbos, hnext, hfreed, hother⟩ := svmRangeFree_of_none (p := p) hnone
    have hrest : ∀ j ∈ l, (svmRangeFree p m k).Live j ∧
        ((svmRangeFree p m k).ranges j).svm_bo = none := fun j hj => by
      have hjk : j ≠ k := fun e => hkl (e ▸ hj)
      obtain ⟨⟨h₁, h₂⟩, h₃⟩ := hk j (List.mem_cons_of_mem _ hj)
      rw [hother j hjk]
      refine ⟨⟨by rw [hnext]; exact h₁, ?_⟩, h₃⟩
      rw [hfreed, List.mem_cons, not_or]
      exact ⟨hjk, h₂⟩
    obtain ⟨g₁, g₂, g₃, g₄, g₅⟩ := ih (h.free hlive hnone) hl hrest
    refine ⟨g₁, g₂.trans hbos, g₃.trans hnext, fun j hj => ?_, fun j => ?_⟩
    · obtain ⟨hjk, hjl⟩ := List.ne_and_not_mem_of_not_mem_cons hj
      exact (g₄ j hjl).trans (hother j hjk)
    · refine (g₅ j).trans ?_
      rw [hfreed, List.mem_cons, List.mem_cons]
      tauto

/-- **Freeing the insert list undoes a request that fails.** -/
theorem Failed.undone (h : Failed pages m₀ o) :
    Accounted pages (o.insert_list.foldl (svmRangeFree p) o.mem) ∧
      Undone m₀ (o.insert_list.foldl (svmRangeFree p) o.mem) := by
  obtain ⟨hacc, hbos, hnext, hranges, hfreed⟩ := h.pending.accounted.freeAll (p := p)
    h.pending.nodup fun k hk => ⟨h.pending.live hk, h.clean.svm_bo k hk⟩
  refine ⟨hacc, by rw [hnext]; exact h.pending.next_le, fun k hk => ?_, hbos.trans h.clean.bos,
    fun k => ?_⟩
  · rw [hranges k fun hmem => ?_, h.pending.old k hk]
    have := (h.pending.mem_insert k).1 hmem
    omega
  · rw [hfreed, h.pending.freed, h.pending.mem_insert, hnext, or_comm]

/-- **`svm_range_add`.** -/
theorem svmRangeAdd_spared {s : Svms} {start size : ℕ} {attrs : List SvmAttribute}
    (hacc : Accounted pages s.mem) (hn : Nodes s.mem s.objects)
    (hlive : ∀ n ∈ s.objects, s.mem.Live n.prange) (hsize : 0 < size)
    (hspared : Spared (plan s.mem (start + size - 1) start start s.objects false) s.mem.answer) :
    match svmRangeAdd p s start size attrs with
    | (some _, o) => Accounted pages o.mem ∧ Undone s.mem o.mem
    | (none, o) => Pending pages s.mem o := by
  have hready : Ready pages s.mem false
      (plan s.mem (start + size - 1) start start s.objects false) { mem := s.mem } := by
    refine ⟨⟨hacc, Nat.le_refl _, fun _ _ => rfl, rfl, hacc.freed_lt, fun k => ?_, .nil, ?_⟩,
      fun _ => ⟨rfl, ?_⟩, hspared⟩
    · simp only [List.not_mem_nil, false_iff]
      omega
    · simp
    · simp
  have hloop := @Ready.overlapLoop pages s.mem false { mem := s.mem } p
    (svmRangeApplyAttrs p attrs {}) (start + size - 1) s.objects start start hready hn hlive
    (Nat.le_refl _) (by omega) fun b _ _ h => ⟨h, by omega⟩
  unfold svmRangeAdd svmRangeHandleOverlap
  generalize start + size - 1 = last at hloop ⊢
  dsimp only
  rcases hres : Svm.overlapLoop p (svmRangeApplyAttrs p attrs {}) last start start s.objects
    { mem := s.mem } with ⟨_ | e, start', o⟩
  · rw [hres] at hloop
    obtain ⟨backed, hr⟩ := hloop
    dsimp only
    by_cases hleft : start' ≤ last
    · -- the pages behind the last node
      rw [if_pos hleft] at hr ⊢
      rw [if_pos (by omega)]
      rcases hnew : svmRangeNew p (last + 1 - (last - start' + 1)) last o.mem with ⟨_ | i, m⟩
      · obtain ⟨h₀, -⟩ := svmRangeNew_fails hnew
        exact absurd (eq_false_of_spared hr.spared h₀) (by decide)
      · obtain ⟨rfl, h₀, hf⟩ := svmRangeNew_fresh hnew
        exact (hr.fresh hf h₀ (o.mem.next :: o.update_list)).pending
    · rw [if_neg hleft, if_neg (by simp)]
      exact hr.pending
  · rw [hres] at hloop
    exact Failed.undone hloop

end

end Codrive.Svm
