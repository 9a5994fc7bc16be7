/-
# The range of a fault

`svm_range_get_range_boundaries` of `src/src/cmdio/linux/opu_svm.c` chooses the pages that a fault
on an unregistered page registers.  The bounds come from the memory area, from the aligned block of
512 pages, and from the two neighbours of the page in the interval tree.  For any ranges that do not
overlap the result is the largest range around the page that keeps all four
(`svmRangeGetRangeBoundaries_ok`).

| here | source |
|---|---|
| `addr` | a page number, as a 64-bit word |
| `intervalTreeIterFirst` | the first node, in the order of the starts, that overlaps the interval |
| `none` from `rbPrev`, `rbLast` | null, past `container_of` too: `rb` is the first member |
-/

import Codrive.Svm.Transaction

namespace Codrive.Svm

open Codrive.Basis

/-- `ALIGN_DOWN`. -/
def alignDown (x a : ℕ) : ℕ := x / a * a

/-- `ALIGN`. -/
def alignPages (x a : ℕ) : ℕ := u64 (x + (a - 1)) / a * a

/-- `interval_tree_iter_first`. -/
def intervalTreeIterFirst (objects : List ItNode) (start last : ℕ) : Option ItNode :=
  objects.find? fun node => node.start ≤ last ∧ start ≤ node.last

/-- `rb_prev`. -/
def rbPrev (objects : List ItNode) (node : ItNode) : Option ItNode :=
  (objects.takeWhile (· ≠ node)).getLast?

/-- `rb_last`. -/
def rbLast (objects : List ItNode) : Option ItNode := objects.getLast?

/-- `svm_range_get_range_boundaries`, with the last node in front of the page. -/
def boundariesFrom (addr start_limit end_limit : ℕ) (node : Option ItNode) :
    Except Errno (ℕ × ℕ) :=
  match node with
  | none => .ok (start_limit, sub64 end_limit 1)
  | some node =>
    if node.last ≥ addr then .error .efault
    else .ok (max start_limit (u64 (node.last + 1)), sub64 end_limit 1)

/-- `svm_range_get_range_boundaries`, with the limits of the area and the block. -/
def boundariesIn (objects : List ItNode) (addr start_limit end_limit : ℕ) :
    Except Errno (ℕ × ℕ) :=
  -- the first range that ends behind the page
  match intervalTreeIterFirst objects (u64 (addr + 1)) (2 ^ 64 - 1) with
  | some node => boundariesFrom addr start_limit (min end_limit node.start) (rbPrev objects node)
  | none => boundariesFrom addr start_limit end_limit (rbLast objects)

/-- `svm_range_get_range_boundaries`: `*start` and `*last`. -/
def svmRangeGetRangeBoundaries (mm : List Vma) (objects : List ItNode) (addr : ℕ) :
    Except Errno (ℕ × ℕ) :=
  let address := u64 (addr <<< PAGE_SHIFT)
  match findVma mm address with
  | none => .error .efault
  | some vma =>
    if address < vma.vm_start then .error .efault
    else
      let start_limit := max (vma.vm_start >>> PAGE_SHIFT) (alignDown addr (2 <<< 8))
      let end_limit := min (vma.vm_end >>> PAGE_SHIFT) (alignPages (u64 (addr + 1)) (2 <<< 8))
      boundariesIn objects addr start_limit end_limit

/-! ### The purpose -/

/-- The memory areas of a process: whole pages, in order, without overlap. -/
structure MmOk (mm : List Vma) : Prop where
  sorted : mm.Pairwise fun a b => a.vm_end ≤ b.vm_start
  start_dvd : ∀ v ∈ mm, 4096 ∣ v.vm_start
  end_dvd : ∀ v ∈ mm, 4096 ∣ v.vm_end
  lt : ∀ v ∈ mm, v.vm_end < 2 ^ 64

/-- The registered ranges: none is empty, and no two have a page in common. -/
structure RangesApart (nodes : List ItNode) : Prop where
  le : ∀ n ∈ nodes, n.start ≤ n.last
  lt : ∀ n ∈ nodes, n.last < 2 ^ 64
  disjoint : nodes.Pairwise fun a b => a.last < b.start ∨ b.last < a.start

/-- A range that a fault on page `addr` of the area may register. -/
structure FaultRange (vma : Vma) (nodes : List ItNode) (addr start last : ℕ) : Prop where
  le : start ≤ addr
  le_last : addr ≤ last
  area : vma.vm_start ≤ start * 4096
  area_end : (last + 1) * 4096 ≤ vma.vm_end
  block : start / 512 = addr / 512
  block_last : last / 512 = addr / 512
  disjoint : ∀ n ∈ nodes, last < n.start ∨ n.last < start

/-! ### The tree -/

/-- The tree of a set of ranges, inserted in any order. -/
def treeOf (nodes : List ItNode) : List ItNode := nodes.foldr intervalTreeInsert []

theorem perm_treeOf (nodes : List ItNode) : (treeOf nodes).Perm nodes := by
  induction nodes with
  | nil => rfl
  | cons n nodes ih => exact (perm_intervalTreeInsert n _).trans (ih.cons n)

theorem pairwise_treeOf (nodes : List ItNode) :
    (treeOf nodes).Pairwise fun a b => a.start ≤ b.start := by
  induction nodes with
  | nil => exact .nil
  | cons n nodes ih => exact pairwise_intervalTreeInsert ih

/-- In the tree each range ends before the next one starts. -/
theorem RangesApart.tree {nodes : List ItNode} (h : RangesApart nodes) :
    (treeOf nodes).Pairwise fun a b => a.last < b.start := by
  have hsep := ((perm_treeOf nodes).pairwise_iff fun {a b} hab => hab.symm).2 h.disjoint
  refine ((pairwise_treeOf nodes).and hsep).imp_of_mem fun {a b} ha hb hab => ?_
  have := h.le a ((perm_treeOf nodes).mem_iff.1 ha)
  have := h.le b ((perm_treeOf nodes).mem_iff.1 hb)
  omega

section Neighbours

variable {addr start_limit end_limit : ℕ} {A B : List ItNode}

/-- The nodes in front of `node` are what the search has passed. -/
theorem rbPrev_eq {node : ItNode} (hl : (A ++ node :: B).Pairwise fun a b => a.last < b.start)
    (hle : ∀ n ∈ A ++ node :: B, n.start ≤ n.last) :
    rbPrev (A ++ node :: B) node = A.getLast? := by
  have hne : ∀ a ∈ A, decide (a ≠ node) = true := fun a ha => by
    have hlt := (List.pairwise_append.1 hl).2.2 a ha node List.mem_cons_self
    have := hle a (List.mem_append_left _ ha)
    refine decide_eq_true fun heq => ?_
    rw [← heq] at hlt
    omega
  rw [rbPrev, List.takeWhile_append_of_pos hne, List.takeWhile_cons_of_neg (by simp),
    List.append_nil]

/-- **The lower bound**: the least start at the limit or above it that no range in front of the page
reaches. -/
theorem boundariesFrom_ok (hl : A.Pairwise fun a b => a.last < b.start)
    (hle : ∀ n ∈ A, n.start ≤ n.last) (hlast : ∀ n ∈ A, n.last < addr) (haddr : addr < 2 ^ 64)
    (hstart : start_limit ≤ addr) (hpos : 0 < end_limit) (hend : end_limit < 2 ^ 64) :
    ∃ start, boundariesFrom addr start_limit end_limit A.getLast? = .ok (start, end_limit - 1) ∧
      start_limit ≤ start ∧ start ≤ addr ∧ (∀ n ∈ A, n.last < start) ∧
        ∀ s, start_limit ≤ s → (∀ n ∈ A, n.last < s) → start ≤ s := by
  have hsub : sub64 end_limit 1 = end_limit - 1 := sub64_of_le hpos hend
  cases hA : A.getLast? with
  | none =>
    obtain rfl := List.getLast?_eq_none_iff.1 hA
    exact ⟨start_limit, by rw [boundariesFrom, hsub], le_rfl, hstart, by simp, fun s hs _ => hs⟩
  | some prev =>
    obtain ⟨C, rfl⟩ := List.getLast?_eq_some_iff.1 hA
    have hprev := hlast prev (by simp)
    refine ⟨max start_limit (prev.last + 1), ?_, le_max_left _ _, by omega, fun n hn => ?_,
      fun s hs hall => ?_⟩
    · rw [boundariesFrom, if_neg (by omega), u64_of_lt (by omega), hsub]
    · rcases List.mem_append.1 hn with hC | hn
      · have hlt := (List.pairwise_append.1 hl).2.2 n hC prev (by simp)
        have := hle prev (by simp)
        omega
      · obtain rfl := List.mem_singleton.1 hn
        omega
    · have := hall prev (by simp)
      omega

/-- `end_limit`, with the first range behind the page. -/
def endLimit (end_limit : ℕ) (B : List ItNode) : ℕ :=
  B.head?.elim end_limit fun node => min end_limit node.start

/-- **The upper bound**: the greatest end up to the limit that no range behind the page starts
below. -/
theorem endLimit_ok (hl : B.Pairwise fun a b => a.last < b.start)
    (hle : ∀ n ∈ B, n.start ≤ n.last) (hB : ∀ n ∈ B, addr < n.start) (hend : addr < end_limit) :
    endLimit end_limit B ≤ end_limit ∧ addr < endLimit end_limit B ∧
      (∀ n ∈ B, endLimit end_limit B ≤ n.start) ∧
        ∀ l, l < end_limit → (∀ n ∈ B, l < n.start) → l < endLimit end_limit B := by
  cases B with
  | nil => exact ⟨le_rfl, hend, by simp, fun l hl _ => hl⟩
  | cons node B =>
    have hmin : endLimit end_limit (node :: B) = min end_limit node.start := rfl
    rw [hmin]
    refine ⟨min_le_left _ _, lt_min hend (hB node List.mem_cons_self), fun n hn => ?_,
      fun l hl hall => lt_min hl (hall node List.mem_cons_self)⟩
    rcases List.mem_cons.1 hn with rfl | hnB
    · exact min_le_right _ _
    · have := (List.pairwise_cons.1 hl).1 n hnB
      have := hle node List.mem_cons_self
      exact (min_le_right _ _).trans (by omega)

/-- **The search splits the tree at the page**: it ends with the last range in front of the page and
the first one behind it. -/
theorem RangesApart.exists_split {nodes : List ItNode} (h : RangesApart nodes)
    (haddr : addr + 1 < 2 ^ 64) (hout : ∀ n ∈ nodes, ¬(n.start ≤ addr ∧ addr ≤ n.last)) :
    ∃ A B, treeOf nodes = A ++ B ∧ (∀ n ∈ A, n.last < addr) ∧ (∀ n ∈ B, addr < n.start) ∧
      ∀ start_limit end_limit, boundariesIn (treeOf nodes) addr start_limit end_limit =
        boundariesFrom addr start_limit (endLimit end_limit B) A.getLast? := by
  have hmem : ∀ n, n ∈ treeOf nodes → n ∈ nodes := fun n => (perm_treeOf nodes).mem_iff.1
  have hsorted := h.tree
  have hpassed : ∀ n ∈ nodes, ¬(n.start ≤ 2 ^ 64 - 1 ∧ addr + 1 ≤ n.last) → n.last < addr :=
    fun n hn hnot => by
      have := hout n hn
      have := h.le n hn
      have := h.lt n hn
      omega
  simp only [boundariesIn, u64_of_lt haddr]
  cases hfirst : intervalTreeIterFirst (treeOf nodes) (addr + 1) (2 ^ 64 - 1) with
  | none =>
    refine ⟨treeOf nodes, [], (List.append_nil _).symm, fun n hn => ?_, by simp, fun _ _ => rfl⟩
    exact hpassed n (hmem n hn) (by simpa using List.find?_eq_none.1 hfirst n hn)
  | some node =>
    obtain ⟨hnode, A, B, htree, hA⟩ := List.find?_eq_some_iff_append.1 hfirst
    rw [htree] at hsorted hmem ⊢
    have hnode' : node ∈ nodes := hmem node (by simp)
    refine ⟨A, node :: B, rfl, fun n hn => ?_, fun n hn => ?_, fun start_limit end_limit => ?_⟩
    · have hnot := hA n hn
      rw [Bool.not_eq_true', decide_eq_false_iff_not] at hnot
      exact hpassed n (hmem n (List.mem_append_left _ hn)) hnot
    · have hstart : addr < node.start := by
        have := hout node hnode'
        rw [decide_eq_true_eq] at hnode
        omega
      rcases List.mem_cons.1 hn with rfl | hnB
      · exact hstart
      · have := (List.pairwise_cons.1 (List.pairwise_append.1 hsorted).2.1).1 n hnB
        have := h.le node hnode'
        omega
    · exact congrArg (boundariesFrom addr start_limit (min end_limit node.start))
        (rbPrev_eq hsorted fun n hn => h.le n (hmem n hn))

end Neighbours

/-! ### The result -/

/-- The memory area that a page of it finds. -/
theorem MmOk.findVma_eq {mm : List Vma} (h : MmOk mm) {vma : Vma} (hv : vma ∈ mm) {address : ℕ}
    (hlo : vma.vm_start ≤ address) (hhi : address < vma.vm_end) :
    findVma mm address = some vma := by
  obtain ⟨A, B, rfl⟩ := List.append_of_mem hv
  refine List.find?_eq_some_iff_append.2 ⟨by simpa using hhi, A, B, rfl, fun v hvA => ?_⟩
  have := (List.pairwise_append.1 h.sorted).2.2 v hvA vma List.mem_cons_self
  simp only [Bool.not_eq_eq_eq_not, Bool.not_true, decide_eq_false_iff_not, not_lt]
  omega

/-- **The limits are those of the area and of the block.** -/
theorem MmOk.boundaries_eq {mm : List Vma} (h : MmOk mm) {vma : Vma} (hv : vma ∈ mm) {addr : ℕ}
    (hlo : vma.vm_start ≤ addr * 4096) (hhi : addr * 4096 < vma.vm_end) (objects : List ItNode) :
    svmRangeGetRangeBoundaries mm objects addr =
      boundariesIn objects addr (max (vma.vm_start / 4096) (addr / 512 * 512))
        (min (vma.vm_end / 4096) (addr / 512 * 512 + 512)) := by
  have hend := h.lt vma hv
  have haddress : u64 (addr <<< PAGE_SHIFT) = addr * 4096 := by
    rw [PAGE_SHIFT, Nat.shiftLeft_eq, u64_of_lt (by omega)]
  have hstart_page : vma.vm_start >>> PAGE_SHIFT = vma.vm_start / 4096 :=
    Nat.shiftRight_eq_div_pow ..
  have hend_page : vma.vm_end >>> PAGE_SHIFT = vma.vm_end / 4096 := Nat.shiftRight_eq_div_pow ..
  have hblock : alignDown addr (2 <<< 8) = addr / 512 * 512 := rfl
  have hblock_end : alignPages (u64 (addr + 1)) (2 <<< 8) = addr / 512 * 512 + 512 := by
    rw [u64_of_lt (by omega)]
    change u64 (addr + 1 + 511) / 512 * 512 = _
    rw [u64_of_lt (by omega)]
    omega
  simp only [svmRangeGetRangeBoundaries, haddress, h.findVma_eq hv hlo hhi,
    if_neg (Nat.not_lt.2 hlo), hstart_page, hend_page, hblock, hblock_end]

/-- **The range of a fault is the largest one** around the page that lies in the memory area and in
the block of the page and overlaps no registered range. -/
theorem svmRangeGetRangeBoundaries_ok {mm : List Vma} {nodes : List ItNode} {vma : Vma} {addr : ℕ}
    (hmm : MmOk mm) (hn : RangesApart nodes) (hv : vma ∈ mm) (hlo : vma.vm_start ≤ addr * 4096)
    (hhi : addr * 4096 < vma.vm_end) (hout : ∀ n ∈ nodes, ¬(n.start ≤ addr ∧ addr ≤ n.last)) :
    ∃ start last, svmRangeGetRangeBoundaries mm (treeOf nodes) addr = .ok (start, last) ∧
      FaultRange vma nodes addr start last ∧
        ∀ s l, FaultRange vma nodes addr s l → start ≤ s ∧ l ≤ last := by
  have hend := hmm.lt vma hv
  have hstart_dvd := hmm.start_dvd vma hv
  have hend_dvd := hmm.end_dvd vma hv
  obtain ⟨A, B, htree, hA, hB, hrun⟩ := hn.exists_split (by omega) hout
  have hsorted := List.pairwise_append.1 (htree ▸ hn.tree)
  have hmem : ∀ n, n ∈ nodes ↔ n ∈ A ∨ n ∈ B := fun n => by
    rw [← List.mem_append, ← htree]
    exact (perm_treeOf nodes).mem_iff.symm
  have hin : addr < min (vma.vm_end / 4096) (addr / 512 * 512 + 512) := by omega
  obtain ⟨hlimit, haddr, hbehind, hgreatest⟩ := endLimit_ok hsorted.2.1
    (fun n hnB => hn.le n ((hmem n).2 (.inr hnB))) hB hin
  have hlow : max (vma.vm_start / 4096) (addr / 512 * 512) ≤ addr := by omega
  have hrun := hrun (max (vma.vm_start / 4096) (addr / 512 * 512))
    (min (vma.vm_end / 4096) (addr / 512 * 512 + 512))
  generalize endLimit (min (vma.vm_end / 4096) (addr / 512 * 512 + 512)) B = e at *
  obtain ⟨start, hstart, hlow, hle, hfront, hleast⟩ := boundariesFrom_ok hsorted.1
    (fun n hnA => hn.le n ((hmem n).2 (.inl hnA))) hA (by omega) hlow
    (Nat.lt_of_le_of_lt (Nat.zero_le _) haddr) (by omega)
  have harea : vma.vm_start ≤ start * 4096 :=
    calc vma.vm_start = vma.vm_start / 4096 * 4096 := (Nat.div_mul_cancel hstart_dvd).symm
      _ ≤ start * 4096 := Nat.mul_le_mul_right 4096 ((le_max_left _ _).trans hlow)
  refine ⟨start, e - 1, (hmm.boundaries_eq hv hlo hhi _).trans (hrun.trans hstart),
    ⟨hle, by omega, harea, by omega, by omega, by omega, fun n hn' => ?_⟩, fun s l hsl => ?_⟩
  · rcases (hmem n).1 hn' with hnA | hnB
    · exact .inr (hfront n hnA)
    · have := hbehind n hnB
      omega
  · have harea := hsl.area
    have harea_end := hsl.area_end
    have hs := hsl.block
    have hl := hsl.block_last
    have hsle := hsl.le
    have hlle := hsl.le_last
    constructor
    · refine hleast s (by omega) fun n hnA => ?_
      have := hsl.disjoint n ((hmem n).2 (.inl hnA))
      have := hA n hnA
      have := hn.le n ((hmem n).2 (.inl hnA))
      omega
    · have := hgreatest l (by omega) fun n hnB => by
        have := hsl.disjoint n ((hmem n).2 (.inr hnB))
        have := hB n hnB
        have := hn.le n ((hmem n).2 (.inr hnB))
        omega
      omega

/-- A fault between two ranges, of which the second starts in the block of the page. -/
theorem svmRangeGetRangeBoundaries_ok_between :
    let nodes := [⟨700, 800, 1⟩, ⟨10, 20, 0⟩]
    let vma : Vma := ⟨4096, 4096 * 1000, false⟩
    ∃ start last, svmRangeGetRangeBoundaries [vma] (treeOf nodes) 600 = .ok (start, last) ∧
      FaultRange vma nodes 600 start last ∧
        ∀ s l, FaultRange vma nodes 600 s l → start ≤ s ∧ l ≤ last :=
  svmRangeGetRangeBoundaries_ok
    ⟨by simp, by simp, by simp, by simp⟩ ⟨by simp, by simp, by simp⟩ (by simp) (by simp)
    (by simp) (by simp)

/-- It gets the rest of its block up to that range. -/
example : (svmRangeGetRangeBoundaries [⟨4096, 4096 * 1000, false⟩]
    (treeOf [⟨700, 800, 1⟩, ⟨10, 20, 0⟩]) 600).toOption = some (512, 699) := by
  decide +kernel

end Codrive.Svm
