/-
# Migrating pages to system memory

When `svm_migrate_copy_to_ram` does what it says.  It gathers pages into a batch as long as their
VRAM addresses follow one another; `batch` says how many are waiting before a page, and `Flushes`
whether they are copied before it.

* The address before a page is read from `scratch` also where the page before was passed over and
  left it 0.  Such a page breaks a batch without a page, and what the copy of no page returns was
  never written.  The same happens at the end, if the last page is passed over.
* What is let go of after a failure are the pages that the DMA addresses name: 0 for a page that was
  passed over, and not the page itself where the DMA address is not its physical one.  A page that
  could not be mapped is lost.

`meets_iff` is the exact condition.
-/

import Codrive.Svm.Migrate

namespace Codrive.Svm.ToRam

open Codrive.Basis

variable (x : ToRam)

/-! ### What is to be done -/

/-- The copy of the page at `i`. -/
def copy (i : ℕ) : PageCopy := ⟨x.vramAddr i, x.dma_map_page i⟩

/-- **`svm_migrate_copy_to_ram` does what it says**, and does not return what was never written. -/
def Meets : Prop :=
  (∀ junk junk', (x.svmMigrateCopyToRam junk).1 = (x.svmMigrateCopyToRam junk').1) ∧
    ∀ junk, (x.svmMigrateCopyToRam junk).2.Settled x.npages x.moves x.copy x.get_sys_page
      (x.svmMigrateCopyToRam junk).1

/-- `src[i - 1]`, where `src[i]` was just written. -/
def addrBefore (i : ℕ) : ℕ := if x.moves (i - 1) then x.vramAddr (i - 1) else 0

/-- The page at `i` does not follow the one before it. -/
def Breaks (i : ℕ) : Prop := 0 < i ∧ x.vramAddr i ≠ u64 (x.addrBefore i + PAGE_BYTES)

instance (i : ℕ) : Decidable (x.Breaks i) := inferInstanceAs (Decidable (_ ∧ _))

/-- **How many pages wait to be copied** before page `i`. -/
def batch : ℕ → ℕ
  | 0 => 0
  | i + 1 => if x.moves i = true then (if x.Breaks i then 1 else batch i + 1) else 0

/-- The pages that wait are copied before page `i`. -/
def Flushes (i : ℕ) : Prop :=
  x.moves i = true ∧ x.Breaks i ∨ x.moves i = false ∧ 0 < x.batch i

/-- **What the loop can pass** without going wrong. -/
structure Passes (i : ℕ) : Prop where
  waits : x.Flushes i → 0 < x.batch i
  copied : x.Flushes i → x.sdma.Copies (i - x.batch i) (x.batch i)
  given : x.moves i = true → (x.get_sys_page i).isSome = true
  mapped : x.moves i = true → x.dma_mapping_error (x.dma_map_page i) = 0

/-- **Nothing fails**: every page is passed, and the last one is to be moved and is copied. -/
structure Whole : Prop where
  passes : ∀ i < x.npages, x.Passes i
  waits : 0 < x.batch x.npages
  copied : x.sdma.Copies (x.npages - x.batch x.npages) (x.batch x.npages)

/-- The new pages of those before `i` that are to be moved. -/
def given (i : ℕ) : List ℕ := ((List.range i).filter x.moves).filterMap x.get_sys_page

/-- The pages that the DMA addresses before `i` name. -/
def frames (i : ℕ) : List ℕ :=
  (List.range i).map fun k => if x.moves k then x.dma_map_page k >>> PAGE_SHIFT else 0

/-- **What fails at page `i`**, or at the end, and the pages that were taken by then. -/
inductive Fails : ℕ → List ℕ → Prop
  /-- The copy of the pages that wait, before page `i`. -/
  | copy (i : ℕ) : i < x.npages → x.Flushes i → 0 < x.batch i →
      ¬x.sdma.Copies (i - x.batch i) (x.batch i) → Fails i (x.given i)
  /-- There is no new page. -/
  | page (i : ℕ) : i < x.npages → x.moves i = true →
      (x.Flushes i → 0 < x.batch i ∧ x.sdma.Copies (i - x.batch i) (x.batch i)) →
      x.get_sys_page i = none → Fails i (x.given i)
  /-- The new page is not mapped. -/
  | map (i : ℕ) : i < x.npages → x.moves i = true →
      (x.Flushes i → 0 < x.batch i ∧ x.sdma.Copies (i - x.batch i) (x.batch i)) →
      (x.get_sys_page i).isSome = true → x.dma_mapping_error (x.dma_map_page i) ≠ 0 →
      Fails i (x.given (i + 1))
  /-- The last copy. -/
  | last : 0 < x.batch x.npages → ¬x.sdma.Copies (x.npages - x.batch x.npages) (x.batch x.npages) →
      Fails x.npages (x.given x.npages)

/-- **A failure that is cleaned up**: the DMA addresses name the pages that were taken. -/
structure StopsClean (i : ℕ) (taken : List ℕ) : Prop where
  passes : ∀ k < i, x.Passes k
  fails : x.Fails i taken
  named : (x.frames i).Perm taken

/-! ### Batches -/

variable {x} {junk junk' : ℕ → ℤ} {i k : ℕ} {s t : ToRamState} {taken : List ℕ}

theorem batch_le (i : ℕ) : x.batch i ≤ i := by
  induction i with
  | zero => rfl
  | succ i ih =>
    rw [batch]
    split_ifs <;> omega

theorem batch_succ (hm : x.moves i = true) (hb : ¬x.Breaks i) :
    x.batch (i + 1) = x.batch i + 1 := by
  rw [batch, if_pos hm, if_neg hb]

theorem batch_succ_of_breaks (hm : x.moves i = true) (hb : x.Breaks i) : x.batch (i + 1) = 1 := by
  rw [batch, if_pos hm, if_pos hb]

theorem batch_succ_of_not (hm : x.moves i = false) : x.batch (i + 1) = 0 := by
  rw [batch, if_neg (by simp [hm])]

/-- The pages that wait are to be moved. -/
theorem moves_of_batch (hle : i - x.batch i ≤ k) (hlt : k < i) : x.moves k = true := by
  induction i with
  | zero => omega
  | succ i ih =>
    rw [batch] at hle
    by_cases hm : x.moves i = true
    · obtain hk | rfl := Nat.lt_succ_iff_lt_or_eq.1 hlt
      · rw [if_pos hm] at hle
        split at hle
        · omega
        · exact ih (by omega) hk
      · exact hm
    · rw [if_neg hm] at hle
      omega

/-- Each of the pages that wait follows the one before it. -/
theorem not_breaks_of_batch (hle : i - x.batch i < k) (hlt : k < i) : ¬x.Breaks k := by
  induction i with
  | zero => omega
  | succ i ih =>
    rw [batch] at hle
    by_cases hm : x.moves i = true
    · rw [if_pos hm] at hle
      split at hle
      · omega
      · rename_i hb
        obtain hk | rfl := Nat.lt_succ_iff_lt_or_eq.1 hlt
        · exact ih (by omega) hk
        · exact hb
    · rw [if_neg hm] at hle
      omega

theorem vramAddr_lt (i : ℕ) : x.vramAddr i < 2 ^ 64 := by
  unfold vramAddr
  cases x.src i with
  | none => exact Nat.two_pow_pos 64
  | some page => exact u64_lt _

/-- **The pages that wait are next to each other** in VRAM. -/
theorem vramAddr_add (hle : i - x.batch i ≤ k) {n : ℕ} (hlt : k + n < i) :
    u64 (x.vramAddr k + n * PAGE_BYTES) = x.vramAddr (k + n) := by
  induction n with
  | zero =>
    rw [Nat.zero_mul]
    exact u64_of_lt (vramAddr_lt k)
  | succ n ih =>
    have hnext : x.vramAddr (k + n + 1) = u64 (x.addrBefore (k + n + 1) + PAGE_BYTES) := by
      by_contra hne
      exact not_breaks_of_batch (by omega) hlt ⟨Nat.succ_pos _, hne⟩
    have hbefore : x.addrBefore (k + n + 1) = x.vramAddr (k + n) := by
      rw [addrBefore, Nat.add_sub_cancel]
      exact if_pos (moves_of_batch (i := i) (by omega) (by omega))
    rw [← Nat.add_assoc k n 1, hnext, hbefore, ← ih (by omega)]
    unfold u64 wrap
    rw [Nat.mod_add_mod, Nat.add_mul, Nat.one_mul, Nat.add_assoc]

/-! ### A turn that passes -/

variable (x) in
/-- The pages before `i` have their places. -/
structure Filled (i : ℕ) (s : ToRamState) : Prop where
  src : ∀ k, s.src k = if k < i ∧ x.moves k = true then x.vramAddr k else 0
  dst : ∀ k, s.dst k = if k < i ∧ x.moves k = true then x.dma_map_page k else 0
  recorded : ∀ k, s.migrate.dst k = if k < i ∧ x.moves k = true then x.get_sys_page k else none
  taken : s.migrate.taken = x.given i
  released : s.migrate.released = []

variable (x) in
/-- **The loop is where it should be** before page `i`. -/
structure Exact (i : ℕ) (s : ToRamState) : Prop extends Filled x i s where
  j : s.j = x.batch i
  copies : s.migrate.copies = ((List.range (i - x.batch i)).filter x.moves).map x.copy

/-- **There is one such state.** -/
theorem Exact.unique (h : x.Exact i s) (h' : x.Exact i t) : s = t := by
  obtain ⟨⟨dst, copies, taken, released⟩, src, dst', j⟩ := s
  obtain ⟨⟨tdst, tcopies, ttaken, treleased⟩, tsrc, tdst', tj⟩ := t
  obtain rfl : src = tsrc := funext fun k => (h.src k).trans (h'.src k).symm
  obtain rfl : dst' = tdst' := funext fun k => (h.dst k).trans (h'.dst k).symm
  obtain rfl : dst = tdst := funext fun k => (h.recorded k).trans (h'.recorded k).symm
  obtain rfl : copies = tcopies := h.copies.trans h'.copies.symm
  obtain rfl : taken = ttaken := h.taken.trans h'.taken.symm
  obtain rfl : released = treleased := h.released.trans h'.released.symm
  obtain rfl : j = tj := h.j.trans h'.j.symm
  rfl

/-- The pages that wait are copied. -/
theorem copyOut_ok (junk : ℕ → ℤ) (hsrc : ∀ k < i, x.moves k = true → s.src k = x.vramAddr k)
    (hdst : ∀ k < i, x.moves k = true → s.dst k = x.dma_map_page k)
    (hcopies : s.migrate.copies = ((List.range (i - x.batch i)).filter x.moves).map x.copy)
    (hwait : 0 < x.batch i) (hs : x.sdma.Copies (i - x.batch i) (x.batch i)) :
    x.copyOut junk s (i - x.batch i) (x.batch i) = (0, { s with migrate := { s.migrate with
      copies := ((List.range i).filter x.moves).map x.copy } }) := by
  have hle := x.batch_le i
  have hm : ∀ k < x.batch i, x.moves (i - x.batch i + k) = true := fun k hk =>
    moves_of_batch (i := i) (Nat.le_add_right _ _) (by omega)
  have hc : Contiguous s.src (i - x.batch i) (x.batch i) := by
    intro a b hlt
    have hb := hm (a + b) hlt
    rw [← Nat.add_assoc] at hb
    rw [hsrc _ (by omega) (hm a (by omega)), hsrc _ (by omega) hb]
    exact vramAddr_add (i := i) (by omega) (by omega)
  have hnew : pageCopies .fromVramToRam s.dst s.src (i - x.batch i) (x.batch i) =
      (((List.range (x.batch i)).map (i - x.batch i + ·)).filter x.moves).map x.copy := by
    rw [List.filter_eq_self.2, List.map_map]
    · refine List.map_congr_left fun k hk => ?_
      have hk := List.mem_range.1 hk
      simp only [windowCopy, Function.comp_apply]
      rw [hsrc _ (by omega) (hm k hk), hdst _ (by omega) (hm k hk)]
      rfl
    · intro k hk
      obtain ⟨k', hk', rfl⟩ := List.mem_map.1 hk
      exact hm k' (List.mem_range.1 hk')
  have hrange : List.range i = List.range (i - x.batch i) ++
      (List.range (x.batch i)).map (i - x.batch i + ·) := by
    rw [← List.range_add, Nat.sub_add_cancel hle]
  unfold copyOut
  rw [svmMigrateCopyMemoryGart_ok hwait hs hc, hcopies, hnew, hrange, List.filter_append,
    List.map_append]

theorem copyOut_fails {f m : ℕ} (h : ¬x.sdma.Copies f m) : (x.copyOut junk s f m).1 ≠ 0 :=
  svmMigrateCopyMemoryGart_fails h

theorem copyOut_junk {f m : ℕ} (hpos : 0 < m) : x.copyOut junk s f m = x.copyOut junk' s f m := by
  unfold copyOut
  rw [svmMigrateCopyMemoryGart_junk hpos]

/-- `src[i] = svm_migrate_addr(adev, spage)`. -/
def writeSrc (x : ToRam) (i : ℕ) (s : ToRamState) : ToRamState :=
  { s with src := Function.update s.src i (x.vramAddr i) }

/-- The turn at a page that is to be moved. -/
theorem turn_moves (h : x.Exact i s) (hm : x.moves i = true) : x.turn junk i s =
    if x.Breaks i then
      if (x.copyOut junk (x.writeSrc i s) (i - x.batch i) (x.batch i)).1 ≠ 0 then
        .error ((x.copyOut junk (x.writeSrc i s) (i - x.batch i) (x.batch i)).1, i,
          (x.copyOut junk (x.writeSrc i s) (i - x.batch i) (x.batch i)).2)
      else x.takePage i
        { (x.copyOut junk (x.writeSrc i s) (i - x.batch i) (x.batch i)).2 with j := 0 }
    else x.takePage i (x.writeSrc i s) := by
  have hbreaks : (0 < i ∧ (x.writeSrc i s).src i ≠
      u64 ((x.writeSrc i s).src (i - 1) + PAGE_BYTES)) ↔ x.Breaks i := by
    refine and_congr_right fun hpos => ?_
    have hself : (x.writeSrc i s).src i = x.vramAddr i := Function.update_self _ _ _
    have hbefore : (x.writeSrc i s).src (i - 1) = x.addrBefore i := by
      refine (Function.update_of_ne (by omega) _ _).trans ((h.src _).trans ?_)
      exact if_congr (and_iff_right (by omega)) rfl rfl
    rw [hself, hbefore]
  unfold turn
  rw [if_pos hm, ← h.j]
  exact if_congr hbreaks rfl rfl

/-- The turn at another page. -/
theorem turn_not (h : x.Exact i s) (hm : x.moves i = false) : x.turn junk i s =
    if 0 < x.batch i then
      if (x.copyOut junk s (i - x.batch i) (x.batch i)).1 ≠ 0 then
        .error ((x.copyOut junk s (i - x.batch i) (x.batch i)).1, i,
          (x.copyOut junk s (i - x.batch i) (x.batch i)).2)
      else .ok { (x.copyOut junk s (i - x.batch i) (x.batch i)).2 with j := 0 }
    else .ok s := by
  unfold turn
  rw [if_neg (by simp [hm]), ← h.j]
  exact if_congr Nat.pos_iff_ne_zero.symm rfl rfl

/-- A page that is not to be moved is not filled in. -/
theorem Filled.skip (h : x.Filled i s) (hm : x.moves i = false) : x.Filled (i + 1) s := by
  have hsame : ∀ k, (k < i ∧ x.moves k = true) ↔ (k < i + 1 ∧ x.moves k = true) := by
    intro k
    refine and_congr_left fun hmk => ⟨Nat.lt_succ_of_lt, fun hk => ?_⟩
    obtain hk | rfl := Nat.lt_succ_iff_lt_or_eq.1 hk
    · exact hk
    · rw [hm] at hmk
      cases hmk
  constructor
  · exact fun k => (h.src k).trans (if_congr (hsame k) rfl rfl)
  · exact fun k => (h.dst k).trans (if_congr (hsame k) rfl rfl)
  · exact fun k => (h.recorded k).trans (if_congr (hsame k) rfl rfl)
  · rw [h.taken, given, given, List.range_succ, List.filter_append]
    simp [hm]
  · exact h.released

/-- What `given` gains. -/
theorem given_succ (hm : x.moves i = true) {dpage : ℕ} (hp : x.get_sys_page i = some dpage) :
    x.given (i + 1) = x.given i ++ [dpage] := by
  simp [given, List.range_succ, hm, hp]

/-- Where an entry is written at `i`. -/
theorem update_filled {α : Type*} {f g : ℕ → α} {c : α} (hm : x.moves i = true)
    (h : ∀ k, f k = if k < i ∧ x.moves k = true then g k else c) (k : ℕ) :
    Function.update f i (g i) k = if k < i + 1 ∧ x.moves k = true then g k else c := by
  obtain rfl | hne := eq_or_ne k i
  · rw [Function.update_self, if_pos ⟨Nat.lt_succ_self k, hm⟩]
  · rw [Function.update_of_ne hne, h]
    refine if_congr (and_congr_left fun _ => ?_) rfl rfl
    omega

variable (x) in
/-- Before page `i` is given a new page: its address is written, and `j` pages wait. -/
structure Ready (i j : ℕ) (copies : List PageCopy) (s : ToRamState) : Prop where
  src : ∀ k, s.src k = if k < i + 1 ∧ x.moves k = true then x.vramAddr k else 0
  dst : ∀ k, s.dst k = if k < i ∧ x.moves k = true then x.dma_map_page k else 0
  recorded : ∀ k, s.migrate.dst k = if k < i ∧ x.moves k = true then x.get_sys_page k else none
  taken : s.migrate.taken = x.given i
  released : s.migrate.released = []
  j : s.j = j
  copies : s.migrate.copies = copies

theorem Exact.writeSrc (h : x.Exact i s) (hm : x.moves i = true) :
    x.Ready i (x.batch i) (((List.range (i - x.batch i)).filter x.moves).map x.copy)
      (x.writeSrc i s) :=
  ⟨update_filled hm h.src, h.dst, h.recorded, h.taken, h.released, h.j, h.copies⟩

/-- The batch that a page breaks is copied. -/
theorem Exact.writeSrc_copied (h : x.Exact i s) (junk : ℕ → ℤ) (hm : x.moves i = true)
    (hwait : 0 < x.batch i) (hs : x.sdma.Copies (i - x.batch i) (x.batch i)) :
    (x.copyOut junk (x.writeSrc i s) (i - x.batch i) (x.batch i)).1 = 0 ∧
      x.Ready i 0 (((List.range i).filter x.moves).map x.copy)
        { (x.copyOut junk (x.writeSrc i s) (i - x.batch i) (x.batch i)).2 with j := 0 } := by
  have hr := h.writeSrc hm
  rw [copyOut_ok junk (fun k hk hmk => (hr.src k).trans (if_pos ⟨Nat.lt_succ_of_lt hk, hmk⟩))
    (fun k hk hmk => (hr.dst k).trans (if_pos ⟨hk, hmk⟩)) hr.copies hwait hs]
  exact ⟨rfl, hr.src, hr.dst, hr.recorded, hr.taken, hr.released, rfl, rfl⟩

/-- The state in which the new page is mapped. -/
def newPage (x : ToRam) (i dpage : ℕ) (s : ToRamState) : ToRamState :=
  { s with
    dst := Function.update s.dst i (x.dma_map_page i)
    migrate := { s.migrate with taken := s.migrate.taken ++ [dpage] } }

/-- What becomes of a new page. -/
theorem takePage_some {dpage : ℕ} (hp : x.get_sys_page i = some dpage) : x.takePage i s =
    if x.dma_mapping_error (x.dma_map_page i) ≠ 0 then
      .error (x.dma_mapping_error (x.dma_map_page i), i, x.newPage i dpage s)
    else .ok { x.newPage i dpage s with
      migrate := { (x.newPage i dpage s).migrate with
        dst := Function.update s.migrate.dst i (some dpage) }
      j := s.j + 1 } := by
  unfold takePage
  rw [hp]
  simp only [Function.update_self]
  rfl

/-- **The page is given a new page.** -/
theorem Ready.takePage {j : ℕ} {copies : List PageCopy} (h : x.Ready i j copies s)
    (hm : x.moves i = true) (hgiven : (x.get_sys_page i).isSome = true)
    (hmapped : x.dma_mapping_error (x.dma_map_page i) = 0) :
    ∃ t, x.takePage i s = .ok t ∧ x.Filled (i + 1) t ∧ t.j = j + 1 ∧ t.migrate.copies = copies := by
  obtain ⟨dpage, hp⟩ := Option.isSome_iff_exists.1 hgiven
  rw [takePage_some hp, if_neg (not_not.2 hmapped), ← hp]
  refine ⟨_, rfl, ⟨h.src, update_filled hm h.dst, update_filled hm h.recorded, ?_, h.released⟩,
    congrArg (· + 1) h.j, h.copies⟩
  rw [given_succ hm hp, ← h.taken]
  rfl

/-- **A page that can be passed is passed.** -/
theorem turn_exact (junk : ℕ → ℤ) (h : x.Exact i s) (hp : x.Passes i) :
    ∃ t, x.turn junk i s = .ok t ∧ x.Exact (i + 1) t := by
  have hle := x.batch_le i
  cases hm : x.moves i with
  | true =>
    rw [turn_moves h hm]
    by_cases hb : x.Breaks i
    · have hflush : x.Flushes i := .inl ⟨hm, hb⟩
      obtain ⟨hzero, hready⟩ :=
        h.writeSrc_copied junk hm (hp.waits hflush) (hp.copied hflush)
      obtain ⟨t, ht, hf, hj, hcopies⟩ := hready.takePage hm (hp.given hm) (hp.mapped hm)
      rw [if_pos hb, if_neg (not_not.2 hzero)]
      refine ⟨t, ht, hf, ?_, ?_⟩
      · rw [hj, batch_succ_of_breaks hm hb]
      · rw [hcopies, batch_succ_of_breaks hm hb, Nat.add_sub_cancel]
    · obtain ⟨t, ht, hf, hj, hcopies⟩ := (h.writeSrc hm).takePage hm (hp.given hm) (hp.mapped hm)
      rw [if_neg hb]
      refine ⟨t, ht, hf, ?_, ?_⟩
      · rw [hj, batch_succ hm hb]
      · rw [hcopies, batch_succ hm hb, Nat.add_sub_add_right]
  | false =>
    have hcopies := h.copies
    have hf := h.toFilled.skip hm
    have hfilter : (List.range (i + 1)).filter x.moves = (List.range i).filter x.moves := by
      rw [List.range_succ, List.filter_append]
      simp [hm]
    rw [turn_not h hm]
    by_cases hwait : 0 < x.batch i
    · have hflush : x.Flushes i := .inr ⟨hm, hwait⟩
      rw [if_pos hwait, copyOut_ok junk (fun k hk hmk => (h.src k).trans (if_pos ⟨hk, hmk⟩))
        (fun k hk hmk => (h.dst k).trans (if_pos ⟨hk, hmk⟩)) hcopies hwait (hp.copied hflush),
        if_neg (not_not.2 rfl)]
      refine ⟨_, rfl, ⟨hf.src, hf.dst, hf.recorded, hf.taken, hf.released⟩, ?_, ?_⟩
      · rw [batch_succ_of_not hm]
      · rw [batch_succ_of_not hm, Nat.sub_zero, hfilter]
    · have hzero := Nat.eq_zero_of_not_pos hwait
      rw [hzero, Nat.sub_zero] at hcopies
      rw [if_neg hwait]
      refine ⟨s, rfl, hf, ?_, ?_⟩
      · rw [h.j, hzero, batch_succ_of_not hm]
      · rw [batch_succ_of_not hm, Nat.sub_zero, hfilter, hcopies]

/-- **The loop is where it should be** as long as every page can be passed. -/
theorem loop_exact (junk : ℕ → ℤ) {n : ℕ} (hp : ∀ i < n, x.Passes i) :
    ∃ s, forBelow (x.turn junk) n {} = .ok s ∧ x.Exact n s := by
  refine forBelow_ok x.Exact ?_ fun i hi _ hs => turn_exact junk hs (hp i hi)
  have hnone : ∀ k, ¬(k < 0 ∧ x.moves k = true) := fun k h => absurd h.1 (Nat.not_lt_zero k)
  refine ⟨⟨fun k => ?_, fun k => ?_, fun k => ?_, rfl, rfl⟩, rfl, rfl⟩
  · rw [if_neg (hnone k)]
  · rw [if_neg (hnone k)]
  · rw [if_neg (hnone k)]

/-- All runs that reach a page reach it in the same state. -/
theorem loop_junk {n : ℕ} (hp : ∀ i < n, x.Passes i) (h : forBelow (x.turn junk) n {} = .ok s) :
    forBelow (x.turn junk') n {} = .ok s := by
  obtain ⟨t, ht, he⟩ := loop_exact junk hp
  obtain ⟨t', ht', he'⟩ := loop_exact junk' hp
  rw [ht'] at *
  rw [he'.unique he, ← ht, h]

/-! ### Failures -/

variable (x) in
/-- What `out_oom` finds after a failure at `i`. -/
structure Stopped (i : ℕ) (taken : List ℕ) (s : ToRamState) : Prop where
  dst : ∀ k < i, s.dst k = if x.moves k = true then x.dma_map_page k else 0
  recorded : ∀ k, i ≤ k → s.migrate.dst k = none
  taken : s.migrate.taken = taken
  released : s.migrate.released = []

/-- **What is let go of** are the pages that the DMA addresses name. -/
theorem Stopped.settled_iff (h : x.Stopped i taken s) {r : ℤ} (hr : r ≠ 0) {n : ℕ}
    {moves : ℕ → Bool} {copy : ℕ → PageCopy} {dest : ℕ → Option ℕ} :
    (freeSysPages i s).Settled n moves copy dest r ↔ (x.frames i).Perm taken := by
  have hframes : (List.range i).map (fun k => s.dst k >>> PAGE_SHIFT) = x.frames i := by
    refine List.map_congr_left fun k hk => ?_
    rw [h.dst k (List.mem_range.1 hk)]
    split
    · rfl
    · rfl
  have hreleased : (freeSysPages i s).released = (x.frames i).reverse := by
    rw [freeSysPages, Migration.putPages_released, h.released, List.nil_append, hframes]
  have htaken : (freeSysPages i s).taken = taken := by
    rw [freeSysPages, Migration.putPages_taken, h.taken]
  constructor
  · intro hs
    have hperm := hs.released hr
    rw [hreleased, htaken] at hperm
    exact (List.reverse_perm _).symm.trans hperm
  · intro hperm
    refine ⟨fun h => absurd h hr, fun h => absurd h hr, fun h => absurd h hr, fun _ k => ?_,
      fun _ => ?_⟩
    · rw [freeSysPages, Migration.putPages_dst]
      split
      · rfl
      · exact h.recorded k (by omega)
    · rw [hreleased, htaken]
      exact (List.reverse_perm _).trans hperm

theorem Filled.stopped (h : x.Filled i s) : x.Stopped i (x.given i) s := by
  refine ⟨fun k hk => ?_, fun k hk => ?_, h.taken, h.released⟩
  · rw [h.dst]
    exact if_congr (and_iff_right hk) rfl rfl
  · rw [h.recorded, if_neg fun h => by omega]

theorem Ready.stopped {j : ℕ} {copies : List PageCopy} (h : x.Ready i j copies s) :
    x.Stopped i (x.given i) s := by
  refine ⟨fun k hk => ?_, fun k hk => ?_, h.taken, h.released⟩
  · rw [h.dst]
    exact if_congr (and_iff_right hk) rfl rfl
  · rw [h.recorded, if_neg fun h => by omega]

theorem Stopped.newPage {dpage : ℕ} (h : x.Stopped i taken s) :
    x.Stopped i (taken ++ [dpage]) (x.newPage i dpage s) := by
  refine ⟨fun k hk => ?_, h.recorded, congrArg (· ++ [dpage]) h.taken, h.released⟩
  exact (Function.update_of_ne hk.ne _ _).trans (h.dst k hk)

/-- A copy that fails stops the loop as it is. -/
theorem Stopped.copyOut (h : x.Stopped i taken s) (f m : ℕ) :
    x.Stopped i taken (x.copyOut junk s f m).2 := ⟨h.dst, h.recorded, h.taken, h.released⟩

/-- There is no new page, or it is not mapped. -/
theorem takePage_fails (h : x.Stopped i (x.given i) s) (hm : x.moves i = true)
    (hfails : x.get_sys_page i = none ∧ taken = x.given i ∨
      (x.get_sys_page i).isSome = true ∧ x.dma_mapping_error (x.dma_map_page i) ≠ 0 ∧
        taken = x.given (i + 1)) :
    ∃ r t, r ≠ 0 ∧ x.takePage i s = .error (r, i, t) ∧ x.Stopped i taken t := by
  obtain ⟨hnone, rfl⟩ | ⟨hsome, herr, rfl⟩ := hfails
  · refine ⟨ENOMEM, s, by decide, ?_, h⟩
    unfold takePage
    rw [hnone]
  · obtain ⟨dpage, hp⟩ := Option.isSome_iff_exists.1 hsome
    rw [takePage_some hp, if_pos herr, given_succ hm hp]
    exact ⟨_, _, herr, rfl, h.newPage⟩

/-- The pages that wait are copied before the page at `i`, if they have to be; what it fails with
then is what stops the loop. -/
theorem turn_takePage_fails (h : x.Exact i s) (hm : x.moves i = true)
    (hflush : x.Flushes i → 0 < x.batch i ∧ x.sdma.Copies (i - x.batch i) (x.batch i))
    (hfails : x.get_sys_page i = none ∧ taken = x.given i ∨
      (x.get_sys_page i).isSome = true ∧ x.dma_mapping_error (x.dma_map_page i) ≠ 0 ∧
        taken = x.given (i + 1)) :
    ∃ r t, r ≠ 0 ∧ x.turn junk i s = .error (r, i, t) ∧ x.Stopped i taken t := by
  rw [turn_moves h hm]
  by_cases hb : x.Breaks i
  · obtain ⟨hwait, hs⟩ := hflush (.inl ⟨hm, hb⟩)
    obtain ⟨hzero, hready⟩ := h.writeSrc_copied junk hm hwait hs
    rw [if_pos hb, if_neg (not_not.2 hzero)]
    exact takePage_fails hready.stopped hm hfails
  · rw [if_neg hb]
    exact takePage_fails (h.writeSrc hm).stopped hm hfails

/-- **What fails at a page** stops the loop there. -/
theorem turn_fails (junk : ℕ → ℤ) (h : x.Exact i s) (hi : i < x.npages) (hf : x.Fails i taken) :
    ∃ r t, r ≠ 0 ∧ x.turn junk i s = .error (r, i, t) ∧ x.Stopped i taken t := by
  cases hf with
  | copy _ _ hflush hwait hs =>
    obtain ⟨hm, hb⟩ | ⟨hm, -⟩ := hflush
    · rw [turn_moves h hm, if_pos hb, if_pos (copyOut_fails hs)]
      exact ⟨_, _, copyOut_fails hs, rfl, (h.writeSrc hm).stopped.copyOut _ _⟩
    · rw [turn_not h hm, if_pos hwait, if_pos (copyOut_fails hs)]
      exact ⟨_, _, copyOut_fails hs, rfl, h.toFilled.stopped.copyOut _ _⟩
  | page _ _ hm hflush hnone => exact turn_takePage_fails h hm hflush (.inl ⟨hnone, rfl⟩)
  | map _ _ hm hflush hsome herr =>
    exact turn_takePage_fails h hm hflush (.inr ⟨hsome, herr, rfl⟩)
  | last => exact absurd hi (Nat.lt_irrefl _)

/-- **Where a page cannot be passed,** it breaks a batch without a page, or something fails. -/
theorem fails_of_not_passes (hi : i < x.npages) (hnot : ¬x.Passes i) :
    (x.moves i = true ∧ x.Breaks i ∧ x.batch i = 0) ∨ ∃ taken, x.Fails i taken := by
  by_cases hwait : x.Flushes i → 0 < x.batch i
  · right
    by_cases hs : x.Flushes i → x.sdma.Copies (i - x.batch i) (x.batch i)
    · cases hm : x.moves i with
      | true =>
        have hflush := fun h => And.intro (hwait h) (hs h)
        cases hp : x.get_sys_page i with
        | none => exact ⟨_, .page i hi hm hflush hp⟩
        | some dpage =>
          have hsome : (x.get_sys_page i).isSome = true := by rw [hp]; rfl
          refine ⟨_, .map i hi hm hflush hsome fun herr => hnot ⟨hwait, hs, ?_, ?_⟩⟩
          · exact fun _ => hsome
          · exact fun _ => herr
      | false =>
        refine absurd ⟨hwait, hs, fun h => ?_, fun h => ?_⟩ hnot
        · rw [hm] at h
          cases h
        · rw [hm] at h
          cases h
    · push Not at hs
      exact ⟨_, .copy i hi hs.1 (hwait hs.1) hs.2⟩
  · push Not at hwait
    obtain ⟨⟨hm, hb⟩ | ⟨hm, hpos⟩, hzero⟩ := hwait
    · exact .inl ⟨hm, hb, Nat.eq_zero_of_le_zero hzero⟩
    · omega

/-! ### The exact condition -/

theorem svmMigrateCopyToRam_error {r : ℤ} {s : ToRamState}
    (h : forBelow (x.turn junk) x.npages {} = .error (r, i, s)) :
    x.svmMigrateCopyToRam junk = (r, freeSysPages i s) := by
  unfold svmMigrateCopyToRam
  rw [h]

theorem svmMigrateCopyToRam_end (h : forBelow (x.turn junk) x.npages {} = .ok s) :
    x.svmMigrateCopyToRam junk =
      if (x.copyOut junk s (x.npages - s.j) s.j).1 ≠ 0 then
        ((x.copyOut junk s (x.npages - s.j) s.j).1,
          freeSysPages x.npages (x.copyOut junk s (x.npages - s.j) s.j).2)
      else ((x.copyOut junk s (x.npages - s.j) s.j).1,
        (x.copyOut junk s (x.npages - s.j) s.j).2.migrate) := by
  unfold svmMigrateCopyToRam
  rw [h]

/-- A turn reads `r` before it is written only where a batch without a page is broken. -/
theorem turn_junk (h : x.Exact i s) (hwait : x.Flushes i → 0 < x.batch i) :
    x.turn junk i s = x.turn junk' i s := by
  cases hm : x.moves i with
  | true =>
    rw [turn_moves h hm, turn_moves h hm]
    by_cases hb : x.Breaks i
    · rw [if_pos hb, if_pos hb, copyOut_junk (hwait (.inl ⟨hm, hb⟩))]
    · rw [if_neg hb, if_neg hb]
  | false =>
    rw [turn_not h hm, turn_not h hm]
    by_cases hpos : 0 < x.batch i
    · rw [if_pos hpos, if_pos hpos, copyOut_junk hpos]
    · rw [if_neg hpos, if_neg hpos]

/-- **What a failure leaves**, whatever is read that was never written. -/
theorem Fails.result (hf : x.Fails i taken) (hp : ∀ k < i, x.Passes k) :
    ∃ r t, r ≠ 0 ∧ x.Stopped i taken t ∧
      ∀ junk, x.svmMigrateCopyToRam junk = (r, freeSysPages i t) := by
  obtain ⟨s, hs, he⟩ := loop_exact (fun _ => 0) hp
  have hpage : i < x.npages → (x.Flushes i → 0 < x.batch i) →
      ∃ r t, r ≠ 0 ∧ x.Stopped i taken t ∧
        ∀ junk, x.svmMigrateCopyToRam junk = (r, freeSysPages i t) := by
    intro hi hwait
    obtain ⟨r, t, hr, hturn, hstopped⟩ := turn_fails (fun _ => 0) he hi hf
    refine ⟨r, t, hr, hstopped, fun junk => svmMigrateCopyToRam_error ?_⟩
    rw [turn_junk he hwait] at hturn
    exact forBelow_leaves (loop_junk hp hs) hturn hi
  cases hf with
  | copy _ hi _ hwait _ => exact hpage hi fun _ => hwait
  | page _ hi _ hflush _ => exact hpage hi fun h => (hflush h).1
  | map _ hi _ hflush _ _ => exact hpage hi fun h => (hflush h).1
  | last hwait hcopies =>
    have hfails : ∀ junk,
        (x.copyOut junk s (x.npages - x.batch x.npages) (x.batch x.npages)).1 ≠ 0 := fun _ =>
      copyOut_fails hcopies
    have hstopped : x.Stopped x.npages (x.given x.npages)
        (x.copyOut (fun _ => 0) s (x.npages - x.batch x.npages) (x.batch x.npages)).2 :=
      he.toFilled.stopped.copyOut _ _
    refine ⟨_, _, hfails fun _ => 0, hstopped, fun junk => ?_⟩
    rw [svmMigrateCopyToRam_end (loop_junk hp hs), he.j, if_pos (hfails junk),
      copyOut_junk hwait]

/-- **Where nothing fails,** every page is copied to a new page. -/
theorem Whole.settled (h : x.Whole) : ∃ m, (∀ junk, x.svmMigrateCopyToRam junk = (0, m)) ∧
    m.Settled x.npages x.moves x.copy x.get_sys_page 0 := by
  obtain ⟨s, hs, he⟩ := loop_exact (fun _ => 0) h.passes
  have hcopy := fun junk => copyOut_ok junk
    (fun k hk hm => (he.src k).trans (if_pos ⟨hk, hm⟩))
    (fun k hk hm => (he.dst k).trans (if_pos ⟨hk, hm⟩)) he.copies h.waits h.copied
  refine ⟨{ s.migrate with copies := ((List.range x.npages).filter x.moves).map x.copy },
    fun junk => ?_, fun _ => List.Perm.refl _, fun _ k => he.recorded k,
    fun _ k hk hm => (h.passes k hk).given hm, fun h => absurd rfl h, fun h => absurd rfl h⟩
  rw [svmMigrateCopyToRam_end (loop_junk h.passes hs), he.j, hcopy]
  rfl

/-- **Where no page waits at the end**, what is returned was never written. -/
theorem not_meets_of_none (h : ∀ junk, forBelow (x.turn junk) x.npages {} = .ok s)
    (hj : s.j = 0) : ¬x.Meets := by
  intro hmeets
  have hresult : ∀ junk, (x.svmMigrateCopyToRam junk).1 = junk x.npages := by
    intro junk
    have hr : (x.copyOut junk s (x.npages - s.j) s.j).1 = junk x.npages := by
      rw [hj]
      rfl
    rw [svmMigrateCopyToRam_end (h junk)]
    split
    · exact hr
    · exact hr
  have := hmeets.1 (fun _ => 0) fun _ => 1
  rw [hresult, hresult] at this
  cases this

/-- **Where a page breaks a batch without a page**, what was never written decides. -/
theorem not_meets_of_breaks (hi : i < x.npages) (hp : ∀ k < i, x.Passes k)
    (hm : x.moves i = true) (hb : x.Breaks i) (hzero : x.batch i = 0) : ¬x.Meets := by
  intro hmeets
  obtain ⟨s, hs, he⟩ := loop_exact (fun _ => 0) hp
  have hresult : ∀ r ≠ 0, (x.svmMigrateCopyToRam fun _ => r).1 = r := by
    intro r hr
    have hturn : x.turn (fun _ => r) i s = _ := turn_moves he hm
    have hjunk : (x.copyOut (fun _ => r) (x.writeSrc i s) (i - x.batch i) (x.batch i)).1 = r := by
      rw [hzero]
      rfl
    rw [if_pos hb, if_pos (by rwa [hjunk]), hjunk] at hturn
    rw [svmMigrateCopyToRam_error (forBelow_leaves (loop_junk hp hs) hturn hi)]
  have := hmeets.1 (fun _ => 1) fun _ => 2
  rw [hresult 1 (by decide), hresult 2 (by decide)] at this
  cases this

/-- **When `svm_migrate_copy_to_ram` does what it says**: exactly if nothing fails, or if what fails
is cleaned up. -/
theorem meets_iff : x.Meets ↔ x.Whole ∨ ∃ i taken, x.StopsClean i taken := by
  have hclean : x.Meets → ∀ i taken, (∀ k < i, x.Passes k) → x.Fails i taken →
      x.StopsClean i taken := by
    intro hmeets i taken hp hf
    obtain ⟨r, t, hr, hstopped, hresult⟩ := hf.result hp
    have hs := hmeets.2 fun _ => 0
    rw [hresult] at hs
    exact ⟨hp, hf, (hstopped.settled_iff hr).1 hs⟩
  constructor
  · intro hmeets
    obtain hp | ⟨i, hi, hbefore, hnot⟩ := forall_or_exists_first x.Passes x.npages
    · obtain ⟨s, hs, he⟩ := loop_exact (fun _ => 0) hp
      have hwait : 0 < x.batch x.npages := by
        by_contra hzero
        exact not_meets_of_none (fun _ => loop_junk hp hs)
          (he.j.trans (Nat.eq_zero_of_not_pos hzero)) hmeets
      by_cases hs : x.sdma.Copies (x.npages - x.batch x.npages) (x.batch x.npages)
      · exact .inl ⟨hp, hwait, hs⟩
      · exact .inr ⟨_, _, hclean hmeets _ _ hp (.last hwait hs)⟩
    · obtain ⟨hm, hb, hzero⟩ | ⟨taken, hf⟩ := fails_of_not_passes hi hnot
      · exact absurd hmeets (not_meets_of_breaks hi hbefore hm hb hzero)
      · exact .inr ⟨i, taken, hclean hmeets i taken hbefore hf⟩
  · rintro (h | ⟨i, taken, h⟩)
    · obtain ⟨m, hresult, hsettled⟩ := h.settled
      refine ⟨fun junk junk' => ?_, fun junk => ?_⟩
      · rw [hresult, hresult]
      · rw [hresult]
        exact hsettled
    · obtain ⟨r, t, hr, hstopped, hresult⟩ := h.fails.result h.passes
      refine ⟨fun junk junk' => ?_, fun junk => ?_⟩
      · rw [hresult, hresult]
      · rw [hresult]
        exact (hstopped.settled_iff hr).2 h.named

end Codrive.Svm.ToRam
