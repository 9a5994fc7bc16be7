/-
# The walk over the tables of a range

When the entries of a table are written, the cursor goes to the table where the next pages are
(`Arrived`), and frees the tables below the entries on its way.
-/

import Codrive.Vm.UpdateTable

namespace Codrive.Vm

open Codrive.Basis

variable {m : VmMgr} {p : Params} {t : Tables} {d k start end_ : ℕ}

/-! ### On to the next table -/

/-- The cursor has come from a table at the depth `d` to that of the page `f`, which is not above
it, but for one below it if `f` is still a page of the table. -/
structure Arrived (m : VmMgr) (d k end_ f : ℕ) (c : Cursor) : Prop where
  done : f = end_ → end_ ≤ c.pfn
  more : f < end_ → ∃ e, c = m.cursorAt e f ∧ (e ≤ d ∨ e = d + 1 ∧ f < m.radix.after d k)

/-- Freeing tables leaves the shape. -/
theorem Tables.Shaped.freePts (ht : t.Shaped m) (c : Cursor) : (amdgpuVmFreePts t c).Shaped m := by
  intro path hpath
  rw [amdgpuVmFreePts, ht path hpath, ite_self]

/-- Allocating a table leaves the shape. -/
theorem Tables.Shaped.allocPts (ht : t.Shaped m) {c : Cursor}
    (hc : c.level = m.root_level + c.path.length) : (amdgpuVmAllocPts m p t c).Shaped m := by
  intro path hpath
  unfold amdgpuVmAllocPts
  split
  · next hnew =>
    have hlevel : c.level ≤ 3 := by
      rcases hnew.1 with h | h
      · exact Nat.le_of_lt h
      · exact Nat.le_of_eq h.1
    have hne : path ≠ c.path := by
      rintro rfl
      have h4 : 4 ≤ m.root_level + c.path.length := hpath
      omega
    dsimp only
    rw [if_neg hne, ht path hpath, ite_self]
  · exact ht path hpath

/-- **From a table without children,** the cursor goes to the next table. -/
theorem amdgpuVmPtNext_of_leaf (hd : d ≤ m.radix.depth) (hk : k < coverage m)
    (ht : t (m.radix.path d k) = false) :
    NextTable m d k (amdgpuVmPtNext m t (m.cursorAt d k)) := by
  have hnone : opuVmPtDescendant m t (m.cursorAt d k) = none := by
    rw [opuVmPtDescendant]
    exact if_neg (by rw [VmMgr.cursorAt, ht]; decide)
  rw [amdgpuVmPtNext, hnone]
  exact climb_spec hd hk

/-- At the end of a table, the cursor arrives at the next pages. -/
theorem NextTable.arrived {c : Cursor} (h : NextTable m d k c) (hend : end_ ≤ coverage m) {f : ℕ}
    (hf : f = min (m.radix.after d k) end_) : Arrived m d k end_ f c := by
  have h52 := coverage_le m
  by_cases hinside : m.radix.after d k < coverage m
  · obtain ⟨e, he, rfl, -, -⟩ := h.inside hinside
    constructor
    · intro hdone
      change end_ ≤ m.radix.after d k
      omega
    · intro hmore
      have hafter : f = m.radix.after d k := by omega
      exact ⟨e + 1, by rw [hafter], .inl he⟩
  · have hpfn := h.outside (Nat.not_lt.1 hinside)
    constructor
    · intro _
      rw [hpfn]
      omega
    · intro hmore
      omega

/-- The loop ends where the cursor is behind what is written. -/
theorem freeLoop_done {n : ℕ} {w : Walk} (hn : 0 < n) (h : w.frag_start ≤ w.cursor.pfn) :
    freeLoop m n w = some w := by
  obtain ⟨n, rfl⟩ : ∃ i, n = i + 1 := ⟨n - 1, by omega⟩
  rw [freeLoop, if_neg (Nat.not_lt.2 h)]

/-- **Freeing the tables** below the entries written, up to `frag_start`. -/
theorem freeLoop_spec (hd : d < m.radix.depth) (hend : end_ ≤ coverage m) (n : ℕ) {k' : ℕ}
    {w : Walk} (hcursor : w.cursor = m.cursorAt (d + 1) k')
    (hsame : k' / m.radix.span d = k / m.radix.span d)
    (hk' : m.radix.span (d + 1) ∣ k') (hle : k' ≤ w.frag_start)
    (hdvd : m.radix.span (d + 1) ∣ w.frag_start)
    (hafter : w.frag_start ≤ m.radix.after d k) (hfend : w.frag_start ≤ end_)
    (ht : w.tables.Shaped m) (hn : w.frag_start - k' < n) :
    ∃ c t, freeLoop m n w = some { w with cursor := c, tables := t } ∧
      Arrived m d k end_ w.frag_start c ∧ t.Shaped m := by
  induction n generalizing k' w with
  | zero => omega
  | succ n ih =>
    have hpfn : w.cursor.pfn = k' := by rw [hcursor]; rfl
    rw [freeLoop, hpfn]
    by_cases hlt : k' < w.frag_start
    · rw [if_pos hlt]
      dsimp only
      -- the next table begins no further than what is written ends
      have hkcov : k' < coverage m := (hlt.trans_le hfend).trans_le hend
      have hfreed : amdgpuVmFreePts w.tables w.cursor (m.radix.path (d + 1) k') = false := by
        rw [amdgpuVmFreePts, hcursor]
        exact if_pos (List.suffix_refl _)
      have hnext := amdgpuVmPtNext_of_leaf hd hkcov hfreed
      rw [← hcursor] at hnext
      have hlater : m.radix.after (d + 1) k' ≤ w.frag_start := m.radix.after_le hlt hdvd
      have hgrow := m.radix.lt_after (d + 1) k'
      have hfree : (amdgpuVmFreePts w.tables w.cursor).Shaped m := ht.freePts _
      by_cases hinside : m.radix.after (d + 1) k' < coverage m
      · obtain ⟨e, he, hc, hspan, hnot⟩ := hnext.inside hinside
        rcases Nat.lt_succ_iff_lt_or_eq.1 he with hlow | rfl
        · -- the last table below the entries of this one
          have hbelow : m.radix.after d k' ≤ m.radix.after (d + 1) k' := by
            refine m.radix.after_le hgrow ((m.radix.span_dvd_span hlow (Nat.le_of_lt hd)).trans ?_)
            exact hspan
          have hF : m.radix.after (d + 1) k' = w.frag_start := by
            rw [after_congr hsame] at hbelow
            omega
          rw [hF] at hc
          have hstop := freeLoop_done (m := m) (n := n) (w := { w with
            tables := amdgpuVmFreePts w.tables w.cursor
            cursor := amdgpuVmPtNext m (amdgpuVmFreePts w.tables w.cursor) w.cursor })
            (by omega) (by rw [hc]; exact le_rfl)
          refine ⟨_, _, hstop, ⟨fun hdone => ?_, fun hmore => ⟨e + 1, hc, .inl hlow⟩⟩, hfree⟩
          rw [hc, ← hdone]
          exact le_rfl
        · -- the next one of them
          have hsame' : m.radix.after (e + 1) k' / m.radix.span e = k / m.radix.span e := by
            rw [← hsame]
            refine div_span_of_lt_after (Nat.le_of_lt hgrow) (Nat.lt_of_le_of_ne ?_ ?_)
            · rw [after_congr hsame]
              exact hlater.trans hafter
            · intro heq
              exact hnot (heq ▸ m.radix.span_dvd_after e k')
          exact ih (w := { w with
            tables := amdgpuVmFreePts w.tables w.cursor
            cursor := amdgpuVmPtNext m (amdgpuVmFreePts w.tables w.cursor) w.cursor })
            hc hsame' (m.radix.span_dvd_after _ _) hlater hdvd hafter hfend hfree (by
              change w.frag_start - m.radix.after (e + 1) k' < n
              omega)
      · -- there are no more pages
        have hpfn' := hnext.outside (Nat.not_lt.1 hinside)
        have h52 := coverage_le m
        have hstop := freeLoop_done (m := m) (n := n) (w := { w with
          tables := amdgpuVmFreePts w.tables w.cursor
          cursor := amdgpuVmPtNext m (amdgpuVmFreePts w.tables w.cursor) w.cursor })
          (by omega) (by
            rw [hpfn']
            dsimp only
            omega)
        refine ⟨_, _, hstop, ⟨fun hdone => ?_, fun hmore => ?_⟩, hfree⟩
        · rw [hpfn']
          omega
        · omega
    · rw [if_neg hlt]
      have heq : k' = w.frag_start := by omega
      refine ⟨w.cursor, w.tables, rfl, ⟨fun hdone => ?_, fun _ => ⟨d + 1, ?_, .inr ⟨rfl, ?_⟩⟩⟩, ht⟩
      · rw [hpfn]
        omega
      · rw [hcursor, heq]
      · rw [← heq, ← after_congr hsame]
        exact m.radix.lt_after d k'

/-- What the walk does when a table is written: down to free what is below, or on to the next. -/
def moveOn (m : VmMgr) (w : Walk) : Option (Except Errno Walk) :=
  match opuVmPtDescendant m w.tables w.cursor with
  | some c => (freeLoop m (w.frag_start + 1) { w with cursor := c }).map .ok
  | none => some (.ok { w with cursor := amdgpuVmPtNext m w.tables w.cursor })

/-- **On to the next table,** with the tables below freed. -/
theorem moveOn_spec (hd : d ≤ m.radix.depth) (hend : end_ ≤ coverage m) {w : Walk}
    (hcursor : w.cursor = m.cursorAt d k) (hk : k < end_) (ht : w.tables.Shaped m)
    (hF : w.frag_start = min (m.radix.after d k) end_ ∨ w.tables (m.radix.path d k) = true)
    (hdvd : m.radix.weight d ∣ k ∧ m.radix.weight d ∣ w.frag_start) (hle : k ≤ w.frag_start)
    (hafter : w.frag_start ≤ m.radix.after d k) (hfend : w.frag_start ≤ end_) :
    ∃ c t, moveOn m w = some (.ok { w with cursor := c, tables := t }) ∧
      Arrived m d k end_ w.frag_start c ∧ t.Shaped m := by
  cases htable : w.tables (m.radix.path d k) with
  | false =>
    have hnone : opuVmPtDescendant m w.tables (m.cursorAt d k) = none := by
      rw [opuVmPtDescendant]
      exact if_neg (by rw [VmMgr.cursorAt, htable]; decide)
    have hnext := amdgpuVmPtNext_of_leaf hd (hk.trans_le hend) htable
    refine ⟨amdgpuVmPtNext m w.tables (m.cursorAt d k), w.tables, ?_,
      hnext.arrived hend (hF.resolve_right (by rw [htable]; decide)), ht⟩
    rw [moveOn, hcursor, hnone]
  | true =>
    have hdepth : d < m.radix.depth := by
      by_contra hnot
      have hlast : OPU_VM_SPE ≤ m.root_level + (m.radix.path d k).length := by
        rw [m.radix.path_length]
        have h₁ : m.radix.depth = 4 - m.root_level := rfl
        have h₂ : m.root_level ≤ 3 := m.root_level_le
        change 4 ≤ m.root_level + d
        omega
      rw [ht _ hlast] at htable
      cases htable
    have hspan := m.radix.span_succ hdepth
    obtain ⟨c, t, hfree, harrived, hshaped⟩ := freeLoop_spec (k := k) hdepth hend (w.frag_start + 1)
      (w := { w with cursor := m.cursorAt (d + 1) k }) rfl rfl (by rw [hspan]; exact hdvd.1) hle
      (by rw [hspan]; exact hdvd.2) hafter hfend ht (by
        change w.frag_start - k < w.frag_start + 1
        omega)
    refine ⟨c, t, ?_, harrived, hshaped⟩
    rw [moveOn, hcursor, opuVmPtDescendant_cursorAt htable]
    dsimp only
    rw [hfree]
    rfl

/-! ### A step of the walk -/

/-- A table whose entries have tables below them is there when it has been allocated. -/
theorem amdgpuVmAllocPts_path {c : Cursor}
    (h : c.level < OPU_VM_PTE ∨ c.level = OPU_VM_PTE ∧ needSpe m p = true) :
    amdgpuVmAllocPts m p t c c.path = true := by
  unfold amdgpuVmAllocPts
  cases htable : t c.path with
  | false =>
    rw [if_pos ⟨h, rfl⟩]
    exact if_pos rfl
  | true =>
    rw [if_neg (fun h => absurd h.2 (by decide))]
    exact htable

/-- The walk goes down from a table at the depth `d`, for the page `k`. -/
def GoesDown (m : VmMgr) (p : Params) (end_ d k : ℕ) : Prop :=
  m.root_level + d < OPU_VM_PDE ∨
    (m.root_level + d = OPU_VM_PDE ∧ opuVmCanHugePage m p k end_ = false) ∨
      (m.root_level + d = OPU_VM_PTE ∧ needSpe m p = true)

/-- **Down:** the table of the page one level below. -/
theorem walkStep_down {w : Walk} (hcursor : w.cursor = m.cursorAt d k)
    (hdown : GoesDown m p end_ d k) :
    walkStep m p end_ w = some (.ok { w with
      tables := amdgpuVmAllocPts m p w.tables (m.cursorAt d k)
      cursor := m.cursorAt (d + 1) k }) := by
  have hlevel : (m.cursorAt d k).level < OPU_VM_PTE ∨
      (m.cursorAt d k).level = OPU_VM_PTE ∧ needSpe m p = true := by
    rcases hdown with h | ⟨h, -⟩ | h
    · exact .inl (Nat.lt_trans h (by decide))
    · exact .inl (Nat.lt_of_le_of_lt (Nat.le_of_eq h) (by decide))
    · exact .inr h
  have hdown' : (m.cursorAt d k).level < OPU_VM_PDE ∨
      ((m.cursorAt d k).level = OPU_VM_PDE ∧
        (!opuVmCanHugePage m p (m.cursorAt d k).pfn end_) = true) ∨
      ((m.cursorAt d k).level = OPU_VM_PTE ∧ needSpe m p = true) := by
    rcases hdown with h | ⟨h, hhuge⟩ | h
    · exact .inl h
    · exact .inr (.inl ⟨h, by rw [Bool.not_eq_true']; exact hhuge⟩)
    · exact .inr (.inr h)
  unfold walkStep
  dsimp only
  rw [hcursor, if_pos hdown', opuVmPtDescendant_cursorAt (amdgpuVmAllocPts_path hlevel)]

/-- Where the entries of the table of a page end. -/
theorem entryEnd_eq (d k : ℕ) :
    (opuVmEntriesMask m (m.root_level + d) + 1) <<< m.levelShift (m.root_level + d) +
      alignDown k ((opuVmEntriesMask m (m.root_level + d) + 1) <<<
        m.levelShift (m.root_level + d)) = m.radix.after d k := by
  have hmask : opuVmEntriesMask m (m.root_level + d) + 1 = 2 ^ m.frame_size (m.root_level + d) := by
    rw [opuVmEntriesMask, Nat.one_shiftLeft]
    exact Nat.sub_add_cancel (Nat.two_pow_pos _)
  have hspan : (opuVmEntriesMask m (m.root_level + d) + 1) <<< m.levelShift (m.root_level + d) =
      m.radix.span d := by
    rw [hmask, Nat.shiftLeft_eq]
    rfl
  rw [hspan, m.radix.after_eq_add, Nat.add_comm, alignDown]

/-- **Writing:** the loop over the table, and on to the next. -/
theorem walkStep_write {w : Walk} (hcursor : w.cursor = m.cursorAt d k)
    (hwrite : ¬GoesDown m p end_ d k) :
    walkStep m p end_ w =
      match updateLoop m p end_ (min (m.radix.after d k) end_) end_ (entryOffset m d k)
        { w with tables := amdgpuVmAllocPts m p w.tables (m.cursorAt d k) } with
      | none => none
      | some w => moveOn m w := by
  have hwrite' : ¬((m.cursorAt d k).level < OPU_VM_PDE ∨
      ((m.cursorAt d k).level = OPU_VM_PDE ∧
        (!opuVmCanHugePage m p (m.cursorAt d k).pfn end_) = true) ∨
      ((m.cursorAt d k).level = OPU_VM_PTE ∧ needSpe m p = true)) := by
    rintro (h | ⟨h, hhuge⟩ | h)
    · exact hwrite (.inl h)
    · exact hwrite (.inr (.inl ⟨h, by rwa [Bool.not_eq_true'] at hhuge⟩))
    · exact hwrite (.inr (.inr h))
  have hoffset : ((m.cursorAt d k).pfn >>> m.levelShift (m.cursorAt d k).level &&&
      opuVmEntriesMask m (m.cursorAt d k).level) * 8 = entryOffset m d k :=
    congrArg (· * 8) (shiftRight_and_mask m d k)
  have hentryEnd : (opuVmEntriesMask m (m.cursorAt d k).level + 1) <<<
      m.levelShift (m.cursorAt d k).level + alignDown (m.cursorAt d k).pfn
        ((opuVmEntriesMask m (m.cursorAt d k).level + 1) <<<
          m.levelShift (m.cursorAt d k).level) = m.radix.after d k := entryEnd_eq d k
  unfold walkStep
  dsimp only
  rw [hcursor, if_neg hwrite', hoffset, hentryEnd]
  rfl

/-! ### The walk -/

/-- What holds between the steps of the walk. -/
structure Walking (m : VmMgr) (p : Params) (start end_ : ℕ) (w : Walk) : Prop where
  le : start ≤ w.frag_start ∧ w.frag_start ≤ end_
  dvd : m.basePages ∣ w.frag_start
  frag : FragOk m p end_ w
  shaped : w.tables.Shaped m
  done : w.frag_start = end_ → end_ ≤ w.cursor.pfn
  more : w.frag_start < end_ → ∃ d, d ≤ m.radix.depth ∧ w.cursor = m.cursorAt d w.frag_start ∧
    (m.root_level + d = OPU_VM_SPE → needSpe m p = true)

end Codrive.Vm
