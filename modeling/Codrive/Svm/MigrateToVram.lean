/-
# Migrating pages to VRAM

When `svm_migrate_copy_to_vram` does what it says.  It gathers pages into a batch until the batch
ends, and keeps its place in VRAM with a cursor.  `batch` says how many pages are waiting before a
page, `Passes` what a page has to be like for the loop to be exactly where it should be behind it
(`turn_exact`).

* A page that is not to be moved behind a batch that is waiting is not passed over in VRAM: from
  there on the cursor lags behind (`Lagging`), and every page goes to an earlier one's place.
* A failure at a page that was taken already leaves this page, and one behind a page that is not to
  be moved lets go of a page that was not taken.
* Without a page at the end, what is returned was never written.

`meets_iff` is the exact condition: no step fails, or it fails where letting go of all pages before
it is right.
-/

import Codrive.Svm.Migrate

namespace Codrive.Svm.ToVram

open Codrive.Basis

variable {κ : Type} (x : ToVram κ)

/-! ### What is to be done -/

/-- The page of the buffer that belongs to the page at `i` of the interval. -/
def ownPage (i : ℕ) : ℕ := x.prange.offset + (x.start - x.prange.start) + i

/-- The number of a page of the buffer. -/
def pfnAt (p : ℕ) : ℕ := svmMigrateAddrToPfn x.pgmap_start (pageAddr x.pieces p)

/-- The copy of the page at `i`. -/
def copy (i : ℕ) : PageCopy := ⟨x.dma_map_page i, pageAddr x.pieces (x.ownPage i)⟩

/-- **`svm_migrate_copy_to_vram` does what it says**, and does not return what was never written. -/
def Meets : Prop :=
  (∀ junk junk', (x.svmMigrateCopyToVram junk).1 = (x.svmMigrateCopyToVram junk').1) ∧
    ∀ junk, (x.svmMigrateCopyToVram junk).2.Settled x.npages x.moves x.copy
      (fun i => some (x.pfnAt (x.ownPage i))) (x.svmMigrateCopyToVram junk).1

/-- What the callers see to: the interval is one of the range, some of it was reported, and the
range has its pages in a buffer whose pieces lie apart in device memory. -/
structure Valid (At : κ → ℕ → ℕ → Prop) : Prop where
  walks : x.rc.Walks x.pieces At
  start_le : x.prange.start ≤ x.start
  last_le : x.start + x.npages ≤ x.prange.start + x.prange.npages
  buffer : x.prange.offset + x.prange.npages ≤ Extent.total x.pieces
  cpages_pos : 0 < x.cpages
  cpages_le : x.cpages ≤ x.npages
  apart : x.pieces.Pairwise Extent.Apart
  aligned : PAGE_BYTES ∣ x.pgmap_start
  fits : ∀ e ∈ x.pieces, (e.start + e.length) * PAGE_BYTES + x.pgmap_start ≤ 2 ^ 64

/-- The page at `i` ends a piece of the buffer, and is not the last one. -/
def EndsBatch (i : ℕ) : Prop :=
  Extent.run x.pieces (x.prange.offset + i) = 1 ∧ i + 1 < x.cpages

instance (i : ℕ) : Decidable (x.EndsBatch i) := inferInstanceAs (Decidable (_ ∧ _))

/-- **How many pages wait to be copied** before page `i`. -/
def batch : ℕ → ℕ
  | 0 => 0
  | i + 1 => if x.moves i = true ∧ ¬x.EndsBatch i then batch i + 1 else 0

/-- **What the loop can pass** without going wrong: a page that is mapped, and copied with those
before it where it ends a piece; or a page that is not to be moved, where none waits. -/
structure Passes (i : ℕ) : Prop where
  mapped : x.moves i = true → x.dma_mapping_error (x.dma_map_page i) = 0
  copied : x.moves i = true → x.EndsBatch i → x.sdma.Copies (i - x.batch i) (x.batch i + 1)
  skipped : x.moves i = false → x.batch i = 0

/-- **Nothing fails**: every page is passed, the last one is to be moved and is copied, and the
interval starts where the range does and has no page to be moved behind the first `cpages`. -/
structure Whole : Prop where
  passes : ∀ i < x.cpages, x.Passes i
  waits : 0 < x.batch x.cpages
  copied : x.sdma.Copies (x.cpages - x.batch x.cpages) (x.batch x.cpages)
  first : x.start = x.prange.start
  reported : ∀ i < x.npages, x.moves i = true → i < x.cpages

/-- **A failure that is cleaned up**: all pages before are to be moved, and the copy of those that
wait fails at a page that is not to be moved, or at the end. -/
structure StopsClean (i : ℕ) : Prop where
  le : i ≤ x.cpages
  passes : ∀ k < i, x.Passes k
  moves : ∀ k < i, x.moves k = true
  waits : 0 < x.batch i
  stays : i < x.cpages → x.moves i = false
  fails : ¬x.sdma.Copies (i - x.batch i) (x.batch i)

/-! ### The pages of the buffer -/

variable {x} {At : κ → ℕ → ℕ → Prop} {junk junk' : ℕ → ℤ} {i k p q : ℕ} {s t : ToVramState κ}

theorem Valid.cpages_le_total (hx : x.Valid At) :
    x.prange.offset + x.cpages ≤ Extent.total x.pieces := by
  have := hx.buffer
  have := hx.last_le
  have := hx.start_le
  have := hx.cpages_le
  omega

theorem Valid.ownPage_lt (hx : x.Valid At) (hi : i < x.npages) :
    x.ownPage i < Extent.total x.pieces := by
  have := hx.buffer
  have := hx.last_le
  have := hx.start_le
  unfold ownPage
  omega

/-- A page of the buffer is in device memory. -/
theorem Valid.pageAddr_lt (hx : x.Valid At) (hp : p < Extent.total x.pieces) :
    pageAddr x.pieces p + x.pgmap_start < 2 ^ 64 := by
  obtain ⟨e, he, -, hlt⟩ := Extent.exists_place hp
  have := hx.fits e he
  have hpos : 0 < PAGE_BYTES := by decide
  have hmul := Nat.mul_lt_mul_of_pos_right hlt hpos
  unfold pageAddr
  omega

theorem Valid.pfnAt_eq (hx : x.Valid At) (hp : p < Extent.total x.pieces) :
    x.pfnAt p = Extent.place x.pieces p + x.pgmap_start / PAGE_BYTES := by
  obtain ⟨c, hc⟩ := hx.aligned
  have hpos : 0 < PAGE_BYTES := by decide
  unfold pfnAt svmMigrateAddrToPfn
  rw [shiftRight_page, u64_of_lt (hx.pageAddr_lt hp), pageAddr, hc, Nat.mul_comm PAGE_BYTES c,
    ← Nat.add_mul, Nat.mul_div_cancel _ hpos, Nat.mul_div_cancel _ hpos]

/-- **Two pages of the buffer have two numbers.** -/
theorem Valid.pfnAt_inj (hx : x.Valid At) (hp : p < Extent.total x.pieces)
    (hq : q < Extent.total x.pieces) (h : x.pfnAt p = x.pfnAt q) : p = q := by
  rw [hx.pfnAt_eq hp, hx.pfnAt_eq hq] at h
  exact Extent.place_inj hx.apart hp hq (by omega)

theorem Valid.run_lt (hx : x.Valid At) (hp : p < Extent.total x.pieces) :
    Extent.run x.pieces p < 2 ^ 64 := by
  obtain ⟨e, he, -, hle⟩ := Extent.exists_run_le hp
  have := hx.fits e he
  have hpos : 1 < PAGE_BYTES := by decide
  have hmul : e.length * 2 ≤ (e.start + e.length) * PAGE_BYTES :=
    Nat.mul_le_mul (Nat.le_add_left _ _) hpos
  omega

/-- Pages of one piece are next to each other. -/
theorem Valid.contiguous (hx : x.Valid At) {dst : ℕ → ℕ} {f m : ℕ}
    (hdst : ∀ k, f ≤ k → k < f + m → dst k = pageAddr x.pieces (x.prange.offset + k))
    (hrun : m ≤ Extent.run x.pieces (x.prange.offset + f)) (hle : f + m ≤ x.cpages) :
    Contiguous dst f m := by
  intro i k hlt
  have htotal := hx.cpages_le_total
  have hplace : Extent.place x.pieces (x.prange.offset + (f + i) + k) =
      Extent.place x.pieces (x.prange.offset + (f + i)) + k := by
    refine Extent.place_add ?_
    rw [← Nat.add_assoc, Extent.run_add (by omega)]
    omega
  have haddr : pageAddr x.pieces (x.prange.offset + (f + i)) + k * PAGE_BYTES =
      pageAddr x.pieces (x.prange.offset + (f + i + k)) := by
    unfold pageAddr
    rw [← Nat.add_assoc x.prange.offset (f + i) k, hplace, Nat.add_mul]
  rw [hdst (f + i) (by omega) (by omega), hdst (f + i + k) (by omega) (by omega), haddr]
  exact u64_of_lt (Nat.lt_of_le_of_lt (Nat.le_add_right _ x.pgmap_start)
    (hx.pageAddr_lt (by omega)))

/-! ### Batches -/

theorem batch_le (i : ℕ) : x.batch i ≤ i := by
  induction i with
  | zero => rfl
  | succ i ih =>
    rw [batch]
    split <;> omega

theorem batch_succ (hm : x.moves i = true) (he : ¬x.EndsBatch i) :
    x.batch (i + 1) = x.batch i + 1 := by
  rw [batch, if_pos ⟨hm, he⟩]

theorem batch_succ_of_ends (he : x.EndsBatch i) : x.batch (i + 1) = 0 := by
  rw [batch, if_neg fun h => h.2 he]

theorem batch_succ_of_not (hm : x.moves i = false) : x.batch (i + 1) = 0 := by
  rw [batch, if_neg fun h => by simp [hm] at h]

/-- The pages that wait are to be moved. -/
theorem moves_of_batch (hle : i - x.batch i ≤ k) (hlt : k < i) : x.moves k = true := by
  induction i with
  | zero => omega
  | succ i ih =>
    rw [batch] at hle
    split at hle
    · rename_i h
      obtain hk | rfl := Nat.lt_succ_iff_lt_or_eq.1 hlt
      · exact ih (by omega) hk
      · exact h.1
    · omega

/-- **The pages that wait are in one piece**, with the next one. -/
theorem Valid.batch_lt_run (hx : x.Valid At) (hi : i < x.cpages) :
    x.batch i < Extent.run x.pieces (x.prange.offset + (i - x.batch i)) := by
  have htotal := hx.cpages_le_total
  induction i with
  | zero => exact Extent.run_pos (by omega)
  | succ i ih =>
    have hlt := ih (by omega)
    have hle := x.batch_le i
    rw [batch]
    split
    · rename_i h
      have hrun := Extent.run_add hlt
      rw [Nat.add_assoc, Nat.sub_add_cancel hle] at hrun
      rw [Nat.add_sub_add_right]
      have hone : Extent.run x.pieces (x.prange.offset + i) ≠ 1 := fun hone => h.2 ⟨hone, hi⟩
      omega
    · exact Extent.run_pos (by omega)

/-- What is left of the piece behind the pages that wait. -/
theorem Valid.run_eq (hx : x.Valid At) (hi : i < x.cpages) :
    Extent.run x.pieces (x.prange.offset + i) =
      Extent.run x.pieces (x.prange.offset + (i - x.batch i)) - x.batch i := by
  have hrun := Extent.run_add (hx.batch_lt_run hi)
  rwa [Nat.add_assoc, Nat.sub_add_cancel (x.batch_le i)] at hrun

/-! ### A turn that passes -/

variable (x) in
/-- The pages before `i` have their places. -/
structure Filled (i : ℕ) (s : ToVramState κ) : Prop where
  src : ∀ k < i, x.moves k = true → s.src k = x.dma_map_page k
  dst : ∀ k < i, x.moves k = true → s.dst k = pageAddr x.pieces (x.prange.offset + k)
  recorded : ∀ k, s.migrate.dst k =
    if k < i ∧ x.moves k = true then some (x.pfnAt (x.prange.offset + k)) else none
  taken : s.migrate.taken =
    ((List.range i).filter x.moves).map fun k => x.pfnAt (x.prange.offset + k)
  released : s.migrate.released = []

variable (x) in
/-- **The loop is where it should be** before page `i`. -/
structure Exact (At : κ → ℕ → ℕ → Prop) (i : ℕ) (s : ToVramState κ) : Prop extends
    Filled x i s where
  j : s.j = x.batch i
  cursor : i - x.batch i < x.cpages →
    At s.cursor (x.prange.offset + (i - x.batch i)) (x.cpages - (i - x.batch i))
  copies : s.migrate.copies = ((List.range (i - x.batch i)).filter x.moves).map fun k =>
    ⟨x.dma_map_page k, pageAddr x.pieces (x.prange.offset + k)⟩

/-- A page that is not to be moved is not filled in. -/
theorem Filled.skip (h : x.Filled i s) (hm : x.moves i = false) : x.Filled (i + 1) s := by
  have hlt : ∀ k, k < i + 1 → x.moves k = true → k < i := by
    intro k hk hmk
    obtain hk | rfl := Nat.lt_succ_iff_lt_or_eq.1 hk
    · exact hk
    · rw [hm] at hmk
      cases hmk
  constructor
  · exact fun k hk hmk => h.src k (hlt k hk hmk) hmk
  · exact fun k hk hmk => h.dst k (hlt k hk hmk) hmk
  · intro k
    rw [h.recorded]
    by_cases hmk : x.moves k = true
    · by_cases hk : k < i + 1
      · rw [if_pos ⟨hlt k hk hmk, hmk⟩, if_pos ⟨hk, hmk⟩]
      · rw [if_neg fun h => hk (by omega), if_neg fun h => hk h.1]
    · rw [if_neg fun h => hmk h.2, if_neg fun h => hmk h.2]
  · rw [h.taken, List.range_succ, List.filter_append]
    simp [hm]
  · exact h.released

/-- A page that is to be moved is. -/
theorem Filled.takePage (h : x.Filled i s) (hm : x.moves i = true)
    (haddr : x.rc.start s.cursor + s.j * PAGE_BYTES = pageAddr x.pieces (x.prange.offset + i)) :
    x.Filled (i + 1) (x.takePage i s) := by
  have hpfn : svmMigrateAddrToPfn x.pgmap_start (x.rc.start s.cursor + s.j <<< PAGE_SHIFT) =
      x.pfnAt (x.prange.offset + i) := by
    rw [shiftLeft_page, haddr]
    rfl
  constructor
  · intro k hk hmk
    obtain hk | rfl := Nat.lt_succ_iff_lt_or_eq.1 hk
    · exact (Function.update_of_ne hk.ne _ _).trans (h.src k hk hmk)
    · exact Function.update_self _ _ _
  · intro k hk hmk
    obtain hk | rfl := Nat.lt_succ_iff_lt_or_eq.1 hk
    · exact (Function.update_of_ne hk.ne _ _).trans (h.dst k hk hmk)
    · exact (Function.update_self _ _ _).trans (by rw [shiftLeft_page, haddr])
  · intro k
    obtain rfl | hne := eq_or_ne k i
    · rw [if_pos ⟨Nat.lt_succ_self k, hm⟩, ← hpfn]
      exact Function.update_self _ _ _
    · refine (Function.update_of_ne hne _ _).trans ((h.recorded k).trans ?_)
      refine if_congr (and_congr_left fun _ => ?_) rfl rfl
      omega
  · rw [List.range_succ, List.filter_append, List.map_append, ← h.taken]
    simp [ToVram.takePage, hm, hpfn]
  · exact h.released

/-- The copies leave the rest as it is. -/
theorem Filled.copied (h : x.Filled i s) (copies : List PageCopy) :
    x.Filled i { s with migrate := { s.migrate with copies } } :=
  ⟨h.src, h.dst, h.recorded, h.taken, h.released⟩

/-- **The pages that wait are copied.** -/
theorem Filled.copyOut (h : x.Filled i s) (junk : ℕ → ℤ) (hx : x.Valid At) {f m : ℕ} (hpos : 0 < m)
    (hle : f + m ≤ i) (hi : i ≤ x.cpages) (hm : ∀ k, f ≤ k → k < f + m → x.moves k = true)
    (hrun : m ≤ Extent.run x.pieces (x.prange.offset + f)) (hs : x.sdma.Copies f m)
    (hcopies : s.migrate.copies = ((List.range f).filter x.moves).map fun k =>
      ⟨x.dma_map_page k, pageAddr x.pieces (x.prange.offset + k)⟩) :
    x.copyOut junk s f m = (0, { s with migrate := { s.migrate with
      copies := ((List.range (f + m)).filter x.moves).map fun k =>
        ⟨x.dma_map_page k, pageAddr x.pieces (x.prange.offset + k)⟩ } }) := by
  have hc := hx.contiguous (fun k h₁ h₂ => h.dst k (by omega) (hm k h₁ h₂)) hrun (by omega)
  have hnew : pageCopies .fromRamToVram s.src s.dst f m = (((List.range m).map (f + ·)).filter
      x.moves).map fun k => ⟨x.dma_map_page k, pageAddr x.pieces (x.prange.offset + k)⟩ := by
    rw [List.filter_eq_self.2, List.map_map]
    · refine List.map_congr_left fun k hk => ?_
      have hk := List.mem_range.1 hk
      have hmk := hm (f + k) (Nat.le_add_right _ _) (by omega)
      simp only [windowCopy, Function.comp_apply]
      rw [h.src _ (by omega) hmk, h.dst _ (by omega) hmk]
    · intro k hk
      obtain ⟨k', hk', rfl⟩ := List.mem_map.1 hk
      have hk' := List.mem_range.1 hk'
      exact hm _ (Nat.le_add_right _ _) (by omega)
  unfold ToVram.copyOut
  rw [svmMigrateCopyMemoryGart_ok hpos hs hc, hcopies, hnew, List.range_add, List.filter_append,
    List.map_append]

/-- **Where the piece ends**, as the code asks it: by the size that the cursor tells. -/
theorem Valid.ends_iff (hx : x.Valid At) {pos rem : ℕ} (hat : At s.cursor pos rem)
    (hpos : pos < Extent.total x.pieces) (hj : s.j < Extent.run x.pieces pos)
    (hrem : s.j + (x.cpages - i) ≤ rem) (hi : i < x.cpages) :
    sub64 (x.rc.size s.cursor >>> PAGE_SHIFT) 1 ≤ s.j ∧ i < x.cpages - 1 ↔
      Extent.run x.pieces pos = s.j + 1 ∧ i + 1 < x.cpages := by
  have hbytes : 0 < PAGE_BYTES := by decide
  have hlt := hx.run_lt hpos
  have hmin : sub64 (min (Extent.run x.pieces pos) rem) 1 =
      min (Extent.run x.pieces pos) rem - 1 := sub64_of_le (by omega) (by omega)
  rw [hx.walks.size _ _ _ hat, shiftRight_page, Nat.mul_div_cancel _ hbytes, hmin]
  omega

@[simp] theorem copyOut_cursor (f m : ℕ) : (x.copyOut junk s f m).2.cursor = s.cursor := rfl

@[simp] theorem copyOut_dst (f m : ℕ) :
    (x.copyOut junk s f m).2.migrate.dst = s.migrate.dst := rfl

@[simp] theorem copyOut_taken (f m : ℕ) :
    (x.copyOut junk s f m).2.migrate.taken = s.migrate.taken := rfl

@[simp] theorem copyOut_released (f m : ℕ) :
    (x.copyOut junk s f m).2.migrate.released = s.migrate.released := rfl

theorem copyOut_fails {f m : ℕ} (h : ¬x.sdma.Copies f m) : (x.copyOut junk s f m).1 ≠ 0 :=
  svmMigrateCopyMemoryGart_fails h

theorem copyOut_junk {f m : ℕ} (hpos : 0 < m) : x.copyOut junk s f m = x.copyOut junk' s f m := by
  unfold copyOut
  rw [svmMigrateCopyMemoryGart_junk hpos]

/-- The turn at a page that is to be moved. -/
theorem turn_moves (hm : x.moves i = true) : x.turn junk i s =
    if x.dma_mapping_error (x.dma_map_page i) ≠ 0 then
      .error (x.dma_mapping_error (x.dma_map_page i), i, x.takePage i s)
    else if sub64 (x.rc.size s.cursor >>> PAGE_SHIFT) 1 ≤ s.j ∧ i < x.cpages - 1 then
      if (x.copyOut junk (x.takePage i s) (i - s.j) (s.j + 1)).1 ≠ 0 then
        .error ((x.copyOut junk (x.takePage i s) (i - s.j) (s.j + 1)).1, i,
          (x.copyOut junk (x.takePage i s) (i - s.j) (s.j + 1)).2)
      else .ok { (x.copyOut junk (x.takePage i s) (i - s.j) (s.j + 1)).2 with
        cursor := x.rc.next s.cursor ((s.j + 1) * PAGE_BYTES), j := 0 }
    else .ok { x.takePage i s with j := s.j + 1 } := by
  have hsrc : (x.takePage i s).src i = x.dma_map_page i := Function.update_self _ _ _
  unfold turn
  rw [if_pos hm]
  dsimp only
  rw [hsrc]
  rfl

/-- The turn at another page, where pages wait. -/
theorem turn_waits (hm : x.moves i = false) (hj : s.j ≠ 0) : x.turn junk i s =
    if (x.copyOut junk s (i - s.j) s.j).1 ≠ 0 then
      .error ((x.copyOut junk s (i - s.j) s.j).1, i, (x.copyOut junk s (i - s.j) s.j).2)
    else .ok { (x.copyOut junk s (i - s.j) s.j).2 with
      cursor := x.rc.next s.cursor (s.j * PAGE_BYTES), j := 0 } := by
  unfold turn
  rw [if_neg (by simp [hm]), if_pos hj, ← shiftLeft_page]
  rfl

/-- The turn at another page, where none waits. -/
theorem turn_skips (hm : x.moves i = false) (hj : s.j = 0) : x.turn junk i s =
    .ok { s with cursor := x.rc.next s.cursor (1 * PAGE_BYTES) } := by
  unfold turn
  rw [if_neg (by simp [hm]), if_neg (not_not.2 hj), Nat.one_mul]

/-- No turn reads `r` before it is written. -/
theorem turn_junk : x.turn junk = x.turn junk' := by
  funext i s
  cases hm : x.moves i with
  | true => rw [turn_moves hm, turn_moves hm, copyOut_junk (Nat.succ_pos _)]
  | false =>
    by_cases hj : s.j = 0
    · rw [turn_skips hm hj, turn_skips hm hj]
    · rw [turn_waits hm hj, turn_waits hm hj, copyOut_junk (Nat.pos_of_ne_zero hj)]

/-- Where the next page goes, by the cursor. -/
theorem Valid.addr_eq (hx : x.Valid At) {pos rem : ℕ} (hat : At s.cursor pos rem)
    (hj : s.j < Extent.run x.pieces pos) :
    x.rc.start s.cursor + s.j * PAGE_BYTES = pageAddr x.pieces (pos + s.j) := by
  rw [hx.walks.start _ _ _ hat]
  unfold pageAddr
  rw [Extent.place_add hj, Nat.add_mul]

/-- **A page that can be passed is passed.** -/
theorem turn_exact (hx : x.Valid At) (h : x.Exact At i s) (hi : i < x.cpages) (hp : x.Passes i) :
    ∃ t, x.turn junk i s = .ok t ∧ x.Exact At (i + 1) t := by
  have hle := x.batch_le i
  have hat := h.cursor (by omega)
  have hrun := hx.batch_lt_run hi
  have htotal := hx.cpages_le_total
  have hj := h.j
  cases hm : x.moves i with
  | true =>
    have haddr : x.rc.start s.cursor + s.j * PAGE_BYTES =
        pageAddr x.pieces (x.prange.offset + i) := by
      rw [hx.addr_eq hat (hj ▸ hrun), hj, Nat.add_assoc, Nat.sub_add_cancel hle]
    have hf := h.toFilled.takePage hm haddr
    have hends := hx.ends_iff (i := i) hat (by omega) (hj ▸ hrun) (by omega) hi
    rw [turn_moves hm, if_neg (not_not.2 (hp.mapped hm))]
    by_cases he : x.EndsBatch i
    · have hone := he.1
      rw [hx.run_eq hi] at hone
      have hcopy := hf.copyOut junk hx (f := i - x.batch i) (m := x.batch i + 1)
        (Nat.succ_pos _) (by omega) hi
        (fun k h₁ h₂ => by
          obtain hk | rfl := Nat.lt_succ_iff_lt_or_eq.1 (show k < i + 1 by omega)
          · exact moves_of_batch h₁ hk
          · exact hm)
        (by omega) (hp.copied hm he) h.copies
      rw [if_pos (hends.2 ⟨by omega, he.2⟩), hj, hcopy, if_neg (not_not.2 rfl)]
      refine ⟨_, rfl, ⟨hf.src, hf.dst, hf.recorded, hf.taken, hf.released⟩,
        (batch_succ_of_ends he).symm, fun _ => ?_, ?_⟩
      · rw [batch_succ_of_ends he]
        have hnext := hx.walks.next _ _ _ (x.batch i + 1) hat (by omega) (by have := he.2; omega)
        have h₁ : x.prange.offset + (i - x.batch i) + (x.batch i + 1) =
            x.prange.offset + (i + 1 - 0) := by omega
        have h₂ : x.cpages - (i - x.batch i) - (x.batch i + 1) = x.cpages - (i + 1 - 0) := by omega
        rwa [h₁, h₂] at hnext
      · rw [batch_succ_of_ends he, show i - x.batch i + (x.batch i + 1) = i + 1 - 0 by omega]
    · rw [if_neg fun h => he ⟨by rw [hx.run_eq hi]; have := (hends.1 h).1; omega, (hends.1 h).2⟩]
      refine ⟨_, rfl, ⟨hf.src, hf.dst, hf.recorded, hf.taken, hf.released⟩, ?_, fun _ => ?_, ?_⟩
      · rw [batch_succ hm he, ← hj]
      · rw [batch_succ hm he, Nat.add_sub_add_right]
        exact hat
      · rw [batch_succ hm he, Nat.add_sub_add_right]
        exact h.copies
  | false =>
    have hzero := hp.skipped hm
    rw [turn_skips hm (hj.trans hzero)]
    rw [hzero, Nat.sub_zero] at hat
    refine ⟨_, rfl, ⟨(h.toFilled.skip hm).src, (h.toFilled.skip hm).dst,
      (h.toFilled.skip hm).recorded, (h.toFilled.skip hm).taken, h.released⟩, ?_, fun hlt => ?_, ?_⟩
    · rw [batch_succ_of_not hm, ← hzero, ← hj]
    · rw [batch_succ_of_not hm] at hlt ⊢
      have hnext := hx.walks.next _ _ _ 1 hat (Extent.run_pos (by omega)) (by omega)
      have h₁ : x.prange.offset + i + 1 = x.prange.offset + (i + 1 - 0) := by omega
      have h₂ : x.cpages - i - 1 = x.cpages - (i + 1 - 0) := by omega
      rwa [h₁, h₂] at hnext
    · rw [batch_succ_of_not hm, Nat.sub_zero, List.range_succ, List.filter_append, List.map_append]
      have hcopies := h.copies
      rw [hzero, Nat.sub_zero] at hcopies
      simp [hcopies, hm]

/-- The start. -/
theorem exact_init (hx : x.Valid At) : x.Exact At 0 x.init := by
  constructor
  · constructor
    · exact fun k hk => absurd hk (Nat.not_lt_zero k)
    · exact fun k hk => absurd hk (Nat.not_lt_zero k)
    · intro k
      rw [if_neg fun h => absurd h.1 (Nat.not_lt_zero k)]
      rfl
    · rfl
    · rfl
  · rfl
  · intro hpos
    have hfirst := hx.walks.first x.prange.offset x.cpages hx.cpages_pos hx.cpages_le_total
    rw [← shiftLeft_page, ← shiftLeft_page] at hfirst
    exact hfirst
  · rfl

/-- **The loop is where it should be** as long as every page can be passed. -/
theorem loop_exact (junk : ℕ → ℤ) (hx : x.Valid At) {n : ℕ} (hn : n ≤ x.cpages)
    (hp : ∀ i < n, x.Passes i) :
    ∃ s, forBelow (x.turn junk) n x.init = .ok s ∧ x.Exact At n s :=
  forBelow_ok (x.Exact At) (exact_init hx) fun i hi _ hs =>
    turn_exact hx hs (Nat.lt_of_lt_of_le hi hn) (hp i hi)

/-! ### A cursor that lags behind -/

variable (x) in
/-- **The cursor is behind**: it is at page `t` of the buffer, and with the pages that wait it still
does not reach page `i`.  A page that was passed over is missing among those taken. -/
structure Lagging (At : κ → ℕ → ℕ → Prop) (t i : ℕ) (s : ToVramState κ) : Prop where
  cursor : At s.cursor (x.prange.offset + t) (x.cpages - t)
  behind : t + s.j < i
  inside : i < x.cpages → s.j < Extent.run x.pieces (x.prange.offset + t)
  last : 0 < s.j → s.migrate.dst (i - 1) = some (x.pfnAt (x.prange.offset + (t + s.j - 1)))
  taken : s.migrate.taken.length < i
  released : s.migrate.released = []

/-- A failure that is not cleaned up. -/
def Spoilt (e : ℤ × ℕ × ToVramState κ) : Prop :=
  e.1 ≠ 0 ∧ e.2.2.migrate.released = [] ∧
    (e.2.2.migrate.dst e.2.1 ≠ none ∨ e.2.2.migrate.taken.length ≠ e.2.1)

/-- A failure at a page that was taken is not cleaned up. -/
theorem spoilt_takePage {r : ℤ} {t : ToVramState κ} (hr : r ≠ 0)
    (hreleased : t.migrate.released = []) (hdst : t.migrate.dst = (x.takePage i s).migrate.dst) : Spoilt (r, i, t) := by
  refine ⟨hr, hreleased, .inl ?_⟩
  show t.migrate.dst i ≠ none
  rw [hdst]
  simp [takePage]

/-- What lets go of the wrong pages, or leaves one, is not settled. -/
theorem Spoilt.not_settled {r : ℤ} {n : ℕ} {moves : ℕ → Bool} {copy : ℕ → PageCopy}
    {dest : ℕ → Option ℕ} (h : Spoilt (r, i, s)) :
    ¬(x.freeVramPages i s).Settled n moves copy dest r := by
  obtain ⟨hr, hreleased, hdst | hlength⟩ := h
  · intro hs
    have := hs.empty hr i
    rw [freeVramPages, Migration.putPages_dst, if_neg (Nat.lt_irrefl i)] at this
    exact hdst this
  · intro hs
    have := (hs.released hr).length_eq
    rw [freeVramPages, Migration.putPages_released, Migration.putPages_taken] at this
    dsimp only at hreleased hlength
    rw [hreleased] at this
    simp at this
    omega

/-- **The cursor never catches up.** -/
theorem turn_lagging (hx : x.Valid At) {t : ℕ} (h : x.Lagging At t i s) (hi : i < x.cpages) :
    (∃ u, x.turn junk i s = .ok u ∧ ∃ t', x.Lagging At t' (i + 1) u) ∨
      ∃ e, x.turn junk i s = .error e ∧ Spoilt e := by
  have htotal := hx.cpages_le_total
  have hbehind := h.behind
  have hrun := h.inside hi
  cases hm : x.moves i with
  | true =>
    have hends := hx.ends_iff (i := i) h.cursor (by omega) hrun (by omega) hi
    have hrecord : (x.takePage i s).migrate.dst i =
        some (x.pfnAt (x.prange.offset + (t + s.j))) := by
      have haddr := hx.addr_eq h.cursor hrun
      rw [← shiftLeft_page, Nat.add_assoc] at haddr
      simp [takePage, haddr, pfnAt]
    have htaken : (x.takePage i s).migrate.taken.length < i + 1 := by
      have := h.taken
      simp [takePage]
      omega
    rw [turn_moves hm]
    split_ifs with herr hclose hcopy
    · exact .inr ⟨_, rfl, spoilt_takePage herr h.released rfl⟩
    · exact .inr ⟨_, rfl, spoilt_takePage hcopy h.released rfl⟩
    · obtain ⟨hlast, hi'⟩ := hends.1 hclose
      have hnext := hx.walks.next _ _ _ (s.j + 1) h.cursor (by omega) (by omega)
      refine .inl ⟨_, rfl, t + (s.j + 1), ?_, ?_, fun _ => Extent.run_pos ?_, fun hpos => ?_,
        htaken, h.released⟩
      · rwa [Nat.add_assoc, Nat.sub_sub] at hnext
      · show t + (s.j + 1) + 0 < i + 1
        omega
      · omega
      · exact absurd hpos (Nat.lt_irrefl 0)
    · refine .inl ⟨_, rfl, t, h.cursor, ?_, fun hi' => ?_, fun _ => ?_, htaken, h.released⟩
      · show t + (s.j + 1) < i + 1
        omega
      · show s.j + 1 < _
        have : ¬Extent.run x.pieces (x.prange.offset + t) = s.j + 1 := fun heq =>
          hclose (hends.2 ⟨heq, hi'⟩)
        omega
      · exact hrecord
  | false =>
    have htaken := h.taken
    by_cases hj : s.j = 0
    · rw [turn_skips hm hj]
      have hnext := hx.walks.next _ _ _ 1 h.cursor (by omega) (by omega)
      refine .inl ⟨_, rfl, t + 1, ?_, ?_, fun _ => ?_, fun hpos => ?_, Nat.lt_succ_of_lt htaken,
        h.released⟩
      · rwa [Nat.add_assoc, Nat.sub_sub] at hnext
      · show t + 1 + s.j < i + 1
        omega
      · show s.j < _
        rw [hj]
        exact Extent.run_pos (by omega)
      · exact absurd hpos (by show ¬0 < s.j; omega)
    · rw [turn_waits hm hj]
      split_ifs with hcopy
      · exact .inr ⟨_, rfl, hcopy, h.released, .inr htaken.ne⟩
      · have hnext := hx.walks.next _ _ _ s.j h.cursor hrun.le (by omega)
        refine .inl ⟨_, rfl, t + s.j, ?_, ?_, fun _ => Extent.run_pos ?_, fun hpos => ?_,
          Nat.lt_succ_of_lt htaken, h.released⟩
        · rwa [Nat.add_assoc, Nat.sub_sub] at hnext
        · show t + s.j + 0 < i + 1
          omega
        · omega
        · exact absurd hpos (Nat.lt_irrefl 0)

/-! ### What is returned -/

theorem svmMigrateCopyToVram_error {r : ℤ} (hnew : x.vram_node_new = 0)
    (h : forBelow (x.turn junk) x.cpages x.init = .error (r, i, s)) :
    x.svmMigrateCopyToVram junk = (r, x.freeVramPages i s) := by
  unfold svmMigrateCopyToVram
  rw [if_neg (not_not.2 hnew), h]

theorem svmMigrateCopyToVram_fails (hnew : x.vram_node_new = 0)
    (h : forBelow (x.turn junk) x.cpages x.init = .ok s)
    (hr : (x.copyOut junk s (x.cpages - s.j) s.j).1 ≠ 0) :
    x.svmMigrateCopyToVram junk = ((x.copyOut junk s (x.cpages - s.j) s.j).1,
      x.freeVramPages x.cpages (x.copyOut junk s (x.cpages - s.j) s.j).2) := by
  unfold svmMigrateCopyToVram
  rw [if_neg (not_not.2 hnew), h]
  exact if_pos hr

theorem svmMigrateCopyToVram_ok (hnew : x.vram_node_new = 0)
    (h : forBelow (x.turn junk) x.cpages x.init = .ok s)
    (hr : (x.copyOut junk s (x.cpages - s.j) s.j).1 = 0) :
    x.svmMigrateCopyToVram junk = (0, (x.copyOut junk s (x.cpages - s.j) s.j).2.migrate) := by
  unfold svmMigrateCopyToVram
  rw [if_neg (not_not.2 hnew), h]
  refine (if_neg (not_not.2 hr)).trans ?_
  exact congrArg (·, _) hr

/-- **Where no page waits at the end**, what is returned was never written. -/
theorem not_meets_of_none (hnew : x.vram_node_new = 0)
    (h : forBelow (x.turn junk) x.cpages x.init = .ok s) (hj : s.j = 0) : ¬x.Meets := by
  intro hmeets
  have hresult : ∀ junk', (x.svmMigrateCopyToVram junk').1 = junk' x.cpages := by
    intro junk'
    have hr : (x.copyOut junk' s (x.cpages - s.j) s.j).1 = junk' x.cpages := by
      rw [hj]
      rfl
    rw [@turn_junk κ x junk junk'] at h
    by_cases hzero : (x.copyOut junk' s (x.cpages - s.j) s.j).1 = 0
    · rw [svmMigrateCopyToVram_ok hnew h hzero, ← hr, hzero]
    · rw [svmMigrateCopyToVram_fails hnew h hzero, hr]
  have := hmeets.1 (fun _ => 0) fun _ => 1
  rw [hresult, hresult] at this
  cases this

theorem not_meets_of_spoilt {e : ℤ × ℕ × ToVramState κ} (hnew : x.vram_node_new = 0)
    (h : forBelow (x.turn junk) x.cpages x.init = .error e) (he : Spoilt e) : ¬x.Meets := by
  intro hmeets
  have hs := hmeets.2 junk
  rw [svmMigrateCopyToVram_error hnew h] at hs
  exact he.not_settled hs

/-- A failure at the end, behind a page that was not taken. -/
theorem not_meets_of_short (hnew : x.vram_node_new = 0)
    (h : forBelow (x.turn junk) x.cpages x.init = .ok s)
    (hr : (x.copyOut junk s (x.cpages - s.j) s.j).1 ≠ 0) (hreleased : s.migrate.released = [])
    (hlength : s.migrate.taken.length ≠ x.cpages) : ¬x.Meets := by
  intro hmeets
  have hs := hmeets.2 junk
  rw [svmMigrateCopyToVram_fails hnew h hr] at hs
  exact Spoilt.not_settled (s := (x.copyOut junk s (x.cpages - s.j) s.j).2)
    ⟨hr, hreleased, .inr hlength⟩ hs

/-! ### Failures that are cleaned up -/

/-- As many pages were taken as are to be moved. -/
theorem Filled.taken_lt (h : x.Filled i s) (hk : k < i) (hm : x.moves k = false) :
    s.migrate.taken.length < i := by
  rw [h.taken, List.length_map]
  refine Nat.lt_of_lt_of_eq ?_ List.length_range
  exact List.length_filter_lt_length_iff_exists.2 ⟨k, List.mem_range.2 hk, by simp [hm]⟩

theorem Filled.taken_le (h : x.Filled i s) : s.migrate.taken.length ≤ i := by
  rw [h.taken, List.length_map]
  exact (List.length_filter_le _ _).trans List.length_range.le

/-- **Behind pages that were all taken** it is right to let go of all of them. -/
theorem Filled.settled (h : x.Filled i s) (hm : ∀ k < i, x.moves k = true) {r : ℤ} (hr : r ≠ 0)
    {n : ℕ} {moves : ℕ → Bool} {copy : ℕ → PageCopy} {dest : ℕ → Option ℕ} :
    (x.freeVramPages i s).Settled n moves copy dest r := by
  refine ⟨fun h => absurd h hr, fun h => absurd h hr, fun h => absurd h hr, fun _ k => ?_,
    fun _ => ?_⟩
  · rw [freeVramPages, Migration.putPages_dst, h.recorded]
    by_cases hk : k < i
    · rw [if_pos hk]
    · rw [if_neg hk, if_neg fun h => hk h.1]
  · rw [freeVramPages, Migration.putPages_released, Migration.putPages_taken, h.released, h.taken,
      List.nil_append, List.filter_eq_self.2 fun k hk => hm k (List.mem_range.1 hk)]
    refine (List.reverse_perm _).trans (List.Perm.of_eq ?_)
    refine List.map_congr_left fun k hk => ?_
    have hk := List.mem_range.1 hk
    rw [h.dst k hk (hm k hk)]
    rfl

/-- Where a page cannot be passed that is to be moved, the failure is not cleaned up. -/
theorem turn_spoilt (hx : x.Valid At) (h : x.Exact At i s) (hi : i < x.cpages)
    (hm : x.moves i = true) (hnot : ¬x.Passes i) :
    ∃ e, x.turn junk i s = .error e ∧ Spoilt e := by
  have hle := x.batch_le i
  have hrun := hx.batch_lt_run hi
  have htotal := hx.cpages_le_total
  have hj := h.j
  have hends := hx.ends_iff (i := i) (h.cursor (by omega)) (by omega) (hj ▸ hrun) (by omega) hi
  rw [turn_moves hm]
  by_cases herr : x.dma_mapping_error (x.dma_map_page i) = 0
  · have hcopy : x.EndsBatch i ∧ ¬x.sdma.Copies (i - x.batch i) (x.batch i + 1) := by
      by_contra hcopy
      refine hnot ⟨fun _ => herr, fun _ he => ?_, fun hm' => ?_⟩
      · by_contra hfails
        exact hcopy ⟨he, hfails⟩
      · rw [hm] at hm'
        cases hm'
    have hone := hcopy.1.1
    rw [hx.run_eq hi] at hone
    rw [if_neg (not_not.2 herr), if_pos (hends.2 ⟨by omega, hcopy.1.2⟩), hj,
      if_pos (copyOut_fails hcopy.2)]
    exact ⟨_, rfl, spoilt_takePage (copyOut_fails hcopy.2) h.released rfl⟩
  · rw [if_pos herr]
    exact ⟨_, rfl, spoilt_takePage herr h.released rfl⟩

/-- **A page that is not to be moved is not passed over** where pages wait before it: the cursor is
behind from there on. -/
theorem turn_falls_behind (hx : x.Valid At) (h : x.Exact At i s) (hi : i < x.cpages)
    (hm : x.moves i = false) (hwait : x.batch i ≠ 0)
    (hcopy : (x.copyOut junk s (i - s.j) s.j).1 = 0) :
    ∃ u, x.turn junk i s = .ok u ∧ x.Lagging At i (i + 1) u := by
  have hle := x.batch_le i
  have hrun := hx.batch_lt_run hi
  have hj := h.j
  have hnext := hx.walks.next _ _ _ (x.batch i) (h.cursor (by omega)) hrun.le (by omega)
  rw [turn_waits hm (hj ▸ hwait), if_neg (not_not.2 hcopy)]
  refine ⟨_, rfl, ?_, Nat.lt_succ_self i, fun hi' => Extent.run_pos ?_, fun hpos => ?_, ?_,
    h.released⟩
  · have h₁ : x.prange.offset + (i - x.batch i) + x.batch i = x.prange.offset + i := by omega
    have h₂ : x.cpages - (i - x.batch i) - x.batch i = x.cpages - i := by omega
    rw [h₁, h₂, ← hj] at hnext
    exact hnext
  · have := hx.cpages_le_total
    omega
  · exact absurd hpos (Nat.lt_irrefl 0)
  · exact Nat.lt_succ_of_le h.toFilled.taken_le

/-! ### The exact condition -/

/-- Either all pages before `i` are to be moved, or one is not. -/
theorem all_move_or (x : ToVram κ) (i : ℕ) :
    (∀ k < i, x.moves k = true) ∨ ∃ k < i, x.moves k = false := by
  by_cases h : ∀ k < i, x.moves k = true
  · exact .inl h
  · push Not at h
    obtain ⟨k, hk, hm⟩ := h
    exact .inr ⟨k, hk, by simpa using hm⟩

/-- The pages that wait at the end are copied. -/
theorem Exact.copyOut_end (h : x.Exact At x.cpages s) (junk : ℕ → ℤ) (hx : x.Valid At)
    (hwait : 0 < x.batch x.cpages)
    (hs : x.sdma.Copies (x.cpages - x.batch x.cpages) (x.batch x.cpages)) :
    x.copyOut junk s (x.cpages - s.j) s.j = (0, { s with migrate := { s.migrate with
      copies := ((List.range x.cpages).filter x.moves).map fun k =>
        ⟨x.dma_map_page k, pageAddr x.pieces (x.prange.offset + k)⟩ } }) := by
  have hle := x.batch_le x.cpages
  obtain ⟨n, hn⟩ := Nat.exists_eq_succ_of_ne_zero hx.cpages_pos.ne'
  have hrun : x.batch x.cpages ≤
      Extent.run x.pieces (x.prange.offset + (x.cpages - x.batch x.cpages)) := by
    have hlt := hx.batch_lt_run (i := n) (by omega)
    have hbatch := x.batch_le n
    rw [hn, Nat.succ_eq_add_one] at hwait ⊢
    rw [batch] at hwait ⊢
    split at hwait
    · rename_i h
      rw [if_pos h, Nat.add_sub_add_right]
      exact hlt
    · omega
  have hcopy := h.toFilled.copyOut junk hx hwait (by omega) (Nat.le_refl _)
    (fun k h₁ h₂ => moves_of_batch h₁ (by omega)) hrun hs h.copies
  rw [Nat.sub_add_cancel hle, ← h.j] at hcopy
  exact hcopy

/-- **Where nothing fails,** every page is copied to its own place. -/
theorem Whole.settled (h : x.Whole) (junk : ℕ → ℤ) (hx : x.Valid At) (hnew : x.vram_node_new = 0) :
    ∃ m, x.svmMigrateCopyToVram junk = (0, m) ∧
      m.Settled x.npages x.moves x.copy (fun i => some (x.pfnAt (x.ownPage i))) 0 := by
  obtain ⟨s, hs, he⟩ := loop_exact junk hx (Nat.le_refl _) h.passes
  have hcopy := he.copyOut_end junk hx h.waits h.copied
  have hown : ∀ k, x.prange.offset + k = x.ownPage k := by
    intro k
    unfold ownPage
    rw [h.first, Nat.sub_self, Nat.add_zero]
  have hmore : ((List.range x.npages).filter x.moves) = (List.range x.cpages).filter x.moves := by
    obtain ⟨n, hn⟩ := Nat.exists_eq_add_of_le hx.cpages_le
    rw [hn, List.range_add, List.filter_append]
    refine (congrArg _ (List.filter_eq_nil_iff.2 ?_)).trans (List.append_nil _)
    intro k hk hm
    obtain ⟨k', hk', rfl⟩ := List.mem_map.1 hk
    have hk' := List.mem_range.1 hk'
    have := h.reported _ (by omega) hm
    omega
  refine ⟨_, svmMigrateCopyToVram_ok hnew hs (by rw [hcopy]), ?_⟩
  rw [hcopy]
  refine ⟨fun _ => ?_, fun _ k => ?_, fun _ _ _ _ => rfl, fun h => absurd rfl h,
    fun h => absurd rfl h⟩
  · simp only [hmore, hown]
    exact List.Perm.refl _
  · refine (he.recorded k).trans ?_
    rw [hown]
    refine if_congr (and_congr_left fun hm => ⟨fun hk => ?_, fun hk => ?_⟩) rfl rfl
    · exact Nat.lt_of_lt_of_le hk hx.cpages_le
    · exact h.reported k hk hm

/-- **A failure behind pages that are all to be moved,** and none of which is lost. -/
theorem StopsClean.settled (h : x.StopsClean i) (hx : x.Valid At) (hnew : x.vram_node_new = 0) :
    ∃ r m, (∀ junk, x.svmMigrateCopyToVram junk = (r, m)) ∧
      m.Settled x.npages x.moves x.copy (fun i => some (x.pfnAt (x.ownPage i))) r := by
  obtain ⟨s, hs, he⟩ := loop_exact (fun _ => 0) hx h.le h.passes
  have hfails : ∀ junk, (x.copyOut junk s (i - s.j) s.j).1 ≠ 0 := fun junk => by
    rw [he.j]
    exact copyOut_fails h.fails
  have hsame : ∀ junk, x.copyOut junk s (i - s.j) s.j =
      x.copyOut (fun _ => 0) s (i - s.j) s.j := fun junk =>
    copyOut_junk (by rw [he.j]; exact h.waits)
  have hfilled : x.Filled i (x.copyOut (fun _ => 0) s (i - s.j) s.j).2 := he.toFilled.copied _
  refine ⟨_, _, fun junk => ?_, hfilled.settled h.moves (hfails fun _ => 0)⟩
  rw [@turn_junk κ x _ junk] at hs
  obtain hlt | rfl := h.le.lt_or_eq
  · have hturn : x.turn junk i s = _ := turn_waits (h.stays hlt) (by rw [he.j]; exact h.waits.ne')
    rw [if_pos (hfails junk)] at hturn
    rw [svmMigrateCopyToVram_error hnew (forBelow_leaves hs hturn hlt), hsame]
  · rw [svmMigrateCopyToVram_fails hnew hs (hfails junk), hsame]

/-- **Where a page cannot be passed**, only a failure is settled that is cleaned up. -/
theorem stopsClean_of_not_passes (hx : x.Valid At) (hnew : x.vram_node_new = 0) (hmeets : x.Meets)
    (hi : i < x.cpages) (hbefore : ∀ k < i, x.Passes k) (hnot : ¬x.Passes i) : x.StopsClean i := by
  obtain ⟨s, hs, he⟩ := loop_exact (fun _ => 0) hx hi.le hbefore
  cases hm : x.moves i with
  | true =>
    obtain ⟨e, herr, hspoilt⟩ := turn_spoilt hx he hi hm hnot
    exact absurd hmeets (not_meets_of_spoilt hnew (forBelow_leaves hs herr hi) hspoilt)
  | false =>
    have hwait : x.batch i ≠ 0 := by
      intro hzero
      refine hnot ⟨fun h => ?_, fun h => ?_, fun _ => hzero⟩
      · rw [hm] at h
        cases h
      · rw [hm] at h
        cases h
    by_cases hcopy : (x.copyOut (fun _ => 0) s (i - s.j) s.j).1 = 0
    · -- the loop goes on, and is behind
      obtain ⟨u, hu, hlag⟩ := turn_falls_behind hx he hi hm hwait hcopy
      obtain ⟨v, hv, t, hlag⟩ | ⟨e, herr, hspoilt⟩ :=
        forBelow_from (fun i s => ∃ t, x.Lagging At t i s) Spoilt
          ((forBelow_succ hs).trans hu) ⟨i, hlag⟩ hi fun k _ hk s ⟨t, hlag⟩ =>
            turn_lagging hx hlag hk
      · by_cases hj : v.j = 0
        · exact absurd hmeets (not_meets_of_none hnew hv hj)
        by_cases hr : (x.copyOut (fun _ => 0) v (x.cpages - v.j) v.j).1 = 0
        · have hrecorded := (hmeets.2 fun _ => 0).recorded
          rw [svmMigrateCopyToVram_ok hnew hv hr] at hrecorded
          have hlast := hlag.last (Nat.pos_of_ne_zero hj)
          have hpage := hrecorded rfl (x.cpages - 1)
          have hbehind := hlag.behind
          rw [copyOut_dst, hlast] at hpage
          split at hpage
          · rename_i hin
            have hsame := hx.pfnAt_inj (by have := hx.cpages_le_total; omega)
              (hx.ownPage_lt hin.1) (Option.some.inj hpage)
            unfold ownPage at hsame
            omega
          · cases hpage
        · exact absurd hmeets (not_meets_of_short hnew hv hr hlag.released hlag.taken.ne)
      · exact absurd hmeets (not_meets_of_spoilt hnew herr hspoilt)
    · have hturn : x.turn (fun _ => 0) i s = _ := turn_waits hm (by rwa [he.j])
      rw [if_pos hcopy] at hturn
      obtain hall | ⟨k, hk, hmk⟩ := x.all_move_or i
      · refine ⟨hi.le, hbefore, hall, Nat.pos_of_ne_zero hwait, fun _ => hm, fun hcopies => ?_⟩
        have hle := x.batch_le i
        have hok := he.toFilled.copyOut (fun _ => 0) hx (Nat.pos_of_ne_zero hwait)
          (Nat.sub_add_cancel hle).le hi.le
          (fun k h₁ h₂ => moves_of_batch h₁ (by omega)) (hx.batch_lt_run hi).le hcopies he.copies
        rw [he.j, hok] at hcopy
        exact hcopy rfl
      · refine absurd hmeets (not_meets_of_spoilt hnew (forBelow_leaves hs hturn hi) ?_)
        exact ⟨hcopy, he.released, .inr (he.toFilled.taken_lt hk hmk).ne⟩

/-- **Where every page can be passed**, either nothing fails, or the copy at the end does. -/
theorem whole_or_stopsClean (hx : x.Valid At) (hnew : x.vram_node_new = 0) (hmeets : x.Meets)
    (hpasses : ∀ i < x.cpages, x.Passes i) : x.Whole ∨ x.StopsClean x.cpages := by
  obtain ⟨s, hs, he⟩ := loop_exact (fun _ => 0) hx (Nat.le_refl _) hpasses
  have hwait : x.batch x.cpages ≠ 0 := fun hzero =>
    not_meets_of_none hnew hs (he.j.trans hzero) hmeets
  by_cases hcopies : x.sdma.Copies (x.cpages - x.batch x.cpages) (x.batch x.cpages)
  · have hcopy := he.copyOut_end (fun _ => 0) hx (Nat.pos_of_ne_zero hwait) hcopies
    have hrecorded := (hmeets.2 fun _ => 0).recorded
    rw [svmMigrateCopyToVram_ok hnew hs (by rw [hcopy]), hcopy] at hrecorded
    have hpage : ∀ k, (if k < x.cpages ∧ x.moves k = true then
        some (x.pfnAt (x.prange.offset + k)) else none) =
        if k < x.npages ∧ x.moves k = true then some (x.pfnAt (x.ownPage k)) else none := fun k =>
      (he.recorded k).symm.trans (hrecorded rfl k)
    have hlast : x.moves (x.cpages - 1) = true :=
      moves_of_batch (i := x.cpages) (by omega) (by have := hx.cpages_pos; omega)
    have hpos := hx.cpages_pos
    have hle := hx.cpages_le
    refine .inl ⟨hpasses, Nat.pos_of_ne_zero hwait, hcopies, ?_, fun k hk hm => ?_⟩
    · have hone := hpage (x.cpages - 1)
      rw [if_pos ⟨by omega, hlast⟩, if_pos ⟨by omega, hlast⟩] at hone
      have hsame := hx.pfnAt_inj (by have := hx.cpages_le_total; omega)
        (hx.ownPage_lt (by omega)) (Option.some.inj hone)
      have := hx.start_le
      unfold ownPage at hsame
      omega
    · by_contra hlt
      have hone := hpage k
      rw [if_neg fun h => hlt h.1, if_pos ⟨hk, hm⟩] at hone
      cases hone
  · right
    have hr : (x.copyOut (fun _ => 0) s (x.cpages - s.j) s.j).1 ≠ 0 := by
      rw [he.j]
      exact copyOut_fails hcopies
    obtain hall | ⟨k, hk, hmk⟩ := x.all_move_or x.cpages
    · exact ⟨Nat.le_refl _, hpasses, hall, Nat.pos_of_ne_zero hwait,
        fun h => absurd h (Nat.lt_irrefl _), hcopies⟩
    · exact absurd hmeets (not_meets_of_short hnew hs hr he.released
        (he.toFilled.taken_lt hk hmk).ne)

/-- **When `svm_migrate_copy_to_vram` does what it says**: exactly if there is no buffer, if nothing
fails, or if what fails is cleaned up. -/
theorem meets_iff (hx : x.Valid At) :
    x.Meets ↔ x.vram_node_new ≠ 0 ∨ x.Whole ∨ ∃ i, x.StopsClean i := by
  by_cases hnew : x.vram_node_new = 0
  · constructor
    · intro hmeets
      obtain hpasses | ⟨i, hi, hbefore, hnot⟩ := forall_or_exists_first x.Passes x.cpages
      · obtain h | h := whole_or_stopsClean hx hnew hmeets hpasses
        · exact .inr (.inl h)
        · exact .inr (.inr ⟨_, h⟩)
      · exact .inr (.inr ⟨i, stopsClean_of_not_passes hx hnew hmeets hi hbefore hnot⟩)
    · rintro (h | h | ⟨i, h⟩)
      · exact absurd hnew h
      · refine ⟨fun junk junk' => ?_, fun junk => ?_⟩
        · obtain ⟨_, h₁, -⟩ := h.settled junk hx hnew
          obtain ⟨_, h₂, -⟩ := h.settled junk' hx hnew
          rw [h₁, h₂]
        · obtain ⟨_, h₁, hsettled⟩ := h.settled junk hx hnew
          rw [h₁]
          exact hsettled
      · obtain ⟨r, m, hresult, hsettled⟩ := h.settled hx hnew
        refine ⟨fun junk junk' => ?_, fun junk => ?_⟩
        · rw [hresult, hresult]
        · rw [hresult]
          exact hsettled
  · have hresult : ∀ junk, x.svmMigrateCopyToVram junk = (x.vram_node_new, {}) := fun junk =>
      if_pos hnew
    refine iff_of_true ⟨fun junk junk' => ?_, fun junk => ?_⟩ (.inl hnew)
    · rw [hresult, hresult]
    · rw [hresult]
      exact ⟨fun h => absurd h hnew, fun h => absurd h hnew, fun h => absurd h hnew,
        fun _ _ => rfl, fun _ => List.Perm.refl _⟩

end Codrive.Svm.ToVram
