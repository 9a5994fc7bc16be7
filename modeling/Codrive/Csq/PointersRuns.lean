/-
# The tracker, over every run

`Inv` relates the tracker to the memory of the pools: the blocks are those of the records that are
managed, and those whose record was removed.  `tracked_of_run` says what this gives in every state
of a run: which record a pointer leads to, that a block goes back to its pool with its record and
through the address the pool gave, and what a failed allocation and a reset do.

Two parts of this are otherwise than one might expect, and on purpose: a record that is removed
leaves its block behind, and a reset removes the records of the user too, which have no block
(`reset_removes_unfreed`).
-/

import Codrive.Csq.Pointers
import Mathlib.Data.List.Perm.Basic

namespace Codrive.Csq.Pointers

open Codrive.Basis AmStatus

/-! ### Runs -/

/-- The tracker and the memory, with the blocks whose record was removed, and the addresses that the
records of the user name as `_unalignedDevicePointer`. -/
structure State where
  am : Am := {}
  removed : List (ℕ × ℕ) := []
  named : List ℕ := []

/-- A call. -/
inductive Op where
  | alloc (r : Request)
  | free (ptr : ℕ)
  | add (ptr : ℕ) (info : AmPointerInfo)
  | remove (ptr : ℕ)
  | update (ptr : ℕ) (appId : ℤ) (allocationFlags appPtr : ℕ)
  | getinfo (ptr : ℕ)
  | sizeinfo (acc : ℕ)
  | reset (acc : ℕ)

/-- The entries of the tracker. -/
def State.entries (s : State) : List (AmMemoryRange × AmPointerInfo) :=
  s.am.g_amPointerTracker._tracker

/-- The block of a record. -/
def AmPointerInfo.block (info : AmPointerInfo) : ℕ × ℕ :=
  (info._unalignedDevicePointer, info._sizeBytes)

/-- The blocks of the records that are managed. -/
def blocksOf (l : List (AmMemoryRange × AmPointerInfo)) : List (ℕ × ℕ) :=
  (l.filter fun e => e.2._isAmManaged).map fun e => e.2.block

/-- **What `hsa_amd_memory_pool_allocate` does**: a block is memory that nobody has. -/
structure Fresh (m : Am) (block : ℕ × ℕ) : Prop where
  pos : 0 < block.1
  le : block.1 + block.2 ≤ 2 ^ 64
  blocks : ∀ x ∈ m.memory.blocks, Separate x block
  ranges : ∀ e ∈ m.g_amPointerTracker._tracker,
    e.1._endPointer < block.1 ∨ block.1 + block.2 ≤ e.1._basePointer
  records : ∀ e ∈ m.g_amPointerTracker._tracker, e.2._unalignedDevicePointer ≠ block.1

/-- A step: a range that the user adds is memory the user has, and recorded so. -/
def Step (s : State) : Op → State → Prop
  | .alloc r, t => (∀ n a, r.allocate n = some a → Fresh s.am (a, n)) ∧
      t = { s with am := (am_aligned_alloc s.am r).2 }
  | .free ptr, t => t = { s with am := (am_free s.am ptr).2 }
  | .add ptr info, t => info._isAmManaged = false ∧
      info._unalignedDevicePointer ∉ s.am.memory.blocks.map Prod.fst ∧
      ptr + info._sizeBytes ≤ 2 ^ 64 ∧
      t = { s with am := (am_memtracker_add s.am ptr info).2,
                   named := info._unalignedDevicePointer :: s.named }
  | .remove ptr, t => t = { s with
      am := (am_memtracker_remove s.am ptr).2,
      removed := blocksOf (s.am.g_amPointerTracker.find ptr).toList ++ s.removed }
  | .update ptr appId allocationFlags appPtr, t =>
      t = { s with am := (am_memtracker_update s.am ptr appId allocationFlags appPtr).2 }
  | .getinfo _, t => t = s
  | .sizeinfo _, t => t = s
  | .reset acc, t => t = { s with am := (am_memtracker_reset s.am acc).2 }

/-- **Every agent is given access** to memory of the host, and the size has a sum with the
alignment.
-/
def Request.Covered (r : Request) : Prop :=
  r.sizeBytes + r.alignment < 2 ^ 64 ∧ (r.host = true → r.granted = true ∧ 0 < r.peers)

/-- Every allocation is so. -/
def Covered (_ : State) : Op → Prop
  | .alloc r => r.Covered
  | _ => True

/-- **What holds in a state.** -/
structure Sound (s : State) : Prop where
  /-- No two ranges have a byte in common, and a pointer leads to the range it is in. -/
  apart : s.entries.Pairwise fun a b => a.1._endPointer < b.1._basePointer
  lookup : ∀ p e, s.am.g_amPointerTracker.find p = some e ↔ e ∈ s.entries ∧ e.1.Has p
  /-- The blocks are those of the records that are managed and those whose record was removed; they
  have no byte in common, and a managed range is its block. -/
  blocks : s.am.memory.blocks.Perm (blocksOf s.entries ++ s.removed)
  separate : s.am.memory.blocks.Pairwise Separate
  ranges : ∀ e ∈ s.entries, e.2._isAmManaged = true →
    e.1._basePointer = e.2._unalignedDevicePointer ∧
      e.1._endPointer + 1 = e.2._unalignedDevicePointer + e.2._sizeBytes
  /-- What else is freed is named by a record of the user. -/
  strays : ∀ x ∈ s.am.memory.strays, x ∈ s.named
  /-- An allocation that fails changes nothing; otherwise what was asked for is in a block that is
  new and tracked. -/
  alloc : ∀ r t, r.Covered → Step s (.alloc r) t → (am_aligned_alloc s.am r).1 = 0 ∧ t = s ∨
    ∃ e ∈ t.entries, e.2._isAmManaged = true ∧ e.2.block ∉ s.am.memory.blocks ∧
      e.1._basePointer ≤ (am_aligned_alloc s.am r).1 ∧
      (am_aligned_alloc s.am r).1 + r.sizeBytes ≤ e.1._endPointer + 1
  /-- A record that is freed is no longer there, and of the blocks only its own has gone. -/
  free : ∀ p t, Step s (.free p) t → ∀ e, s.am.g_amPointerTracker.find p = some e →
    (∀ e', e' ∈ t.entries ↔ e' ∈ s.entries ∧ e' ≠ e) ∧
    ∀ b, b ∈ t.am.memory.blocks ↔
      b ∈ s.am.memory.blocks ∧ ¬(e.2._isAmManaged = true ∧ b = e.2.block)
  /-- A reset removes the records of the accelerator, and frees the blocks of those that are
  managed. -/
  reset : ∀ acc t, Step s (.reset acc) t →
    (∀ e, e ∈ t.entries ↔ e ∈ s.entries ∧ e.2._acc ≠ acc) ∧
    ∀ b, b ∈ t.am.memory.blocks ↔ b ∈ s.am.memory.blocks ∧
      ¬∃ e ∈ s.entries, e.2._acc = acc ∧ e.2._isAmManaged = true ∧ b = e.2.block

/-! ### The tracker -/

section Tracker

variable {t : AmPointerTracker} {p : ℕ} {e : AmMemoryRange × AmPointerInfo}

/-- A pointer separates the ranges. -/
theorem point_separates (p : ℕ) (a b : AmMemoryRange) (h : AmMemoryRangeCompare a b) :
    AmMemoryRangeCompare a (.point p) ∨ AmMemoryRangeCompare (.point p) b := by
  unfold AmMemoryRangeCompare AmMemoryRange.point AmMemoryRange.ofPointer at *
  dsimp only
  omega

/-- A range that the order cannot tell from a pointer has it. -/
theorem has_iff {r : AmMemoryRange} : r.Has p ↔
    ¬AmMemoryRangeCompare r (.point p) ∧ ¬AmMemoryRangeCompare (.point p) r := by
  unfold AmMemoryRange.Has AmMemoryRangeCompare AmMemoryRange.point AmMemoryRange.ofPointer
  dsimp only
  omega

/-- **A pointer leads to the range it is in.** -/
theorem find_iff (h : ComparatorMap.Sorted AmMemoryRangeCompare t._tracker) :
    t.find p = some e ↔ e ∈ t._tracker ∧ e.1.Has p := by
  rw [has_iff]
  exact ComparatorMap.find?_eq_some_iff h (point_separates p)

/-- Two entries that have a pointer are one. -/
theorem eq_of_has (h : ComparatorMap.Sorted AmMemoryRangeCompare t._tracker)
    {e' : AmMemoryRange × AmPointerInfo} (he : e ∈ t._tracker) (hp : e.1.Has p)
    (he' : e' ∈ t._tracker) (hp' : e'.1.Has p) : e = e' :=
  Option.some.inj (((find_iff h).2 ⟨he, hp⟩).symm.trans ((find_iff h).2 ⟨he', hp'⟩))

theorem nodup_of_sorted (h : ComparatorMap.Sorted AmMemoryRangeCompare t._tracker) :
    t._tracker.Nodup := by
  refine List.Pairwise.imp (fun {a b} hlt => ?_) h
  rintro rfl
  exact irrefl_of AmMemoryRangeCompare a.1 hlt

/-- **The entry that a pointer leads to is removed.** -/
theorem remove_of_find (h : ComparatorMap.Sorted AmMemoryRangeCompare t._tracker)
    (hfind : t.find p = some e) : (t.remove p).1._tracker = t._tracker.erase e := by
  obtain ⟨he, hp⟩ := (find_iff h).1 hfind
  have herase := ComparatorMap.erase_eq_filter h (point_separates p)
  rw [(nodup_of_sorted h).erase_eq_filter]
  refine herase.trans (List.filter_congr fun e' he' => ?_)
  rw [Bool.eq_iff_iff, decide_eq_true_iff, bne_iff_ne, ← not_iff_not, not_or, ← has_iff, not_not]
  constructor
  · exact fun hp' => eq_of_has h he' hp' he hp
  · rintro rfl
    exact hp

/-- Nothing is removed where the pointer leads to nothing. -/
theorem remove_of_not_find (h : ComparatorMap.Sorted AmMemoryRangeCompare t._tracker)
    (hfind : t.find p = none) : (t.remove p).1._tracker = t._tracker := by
  have herase := ComparatorMap.erase_eq_filter h (point_separates p)
  refine herase.trans (List.filter_eq_self.2 fun e he => decide_eq_true ?_)
  by_contra hnot
  have hhas := has_iff.2 (not_or.1 hnot)
  exact nomatch hfind.symm.trans ((find_iff h).2 ⟨he, hhas⟩)

end Tracker

/-! ### The blocks -/

section Blocks

variable {m : Memory} {b : ℕ × ℕ} {l : List (ℕ × ℕ)} {x : ℕ}
  {e : AmMemoryRange × AmPointerInfo} {es : List (AmMemoryRange × AmPointerInfo)}

/-- **The blocks have no byte in common**, and each has one. -/
structure Memory.Ok (m : Memory) : Prop where
  separate : m.blocks.Pairwise Separate
  pos : ∀ b ∈ m.blocks, 0 < b.1 ∧ 0 < b.2

theorem Memory.Ok.nodup (h : m.Ok) : m.blocks.Nodup :=
  nodup_of_separate h.separate fun b hb => (h.pos b hb).2

/-- **A block is freed**, and nothing else. -/
theorem Memory.Ok.free (h : m.Ok) (hb : b ∈ m.blocks) :
    m.free b.1 = { m with blocks := m.blocks.erase b } := by
  unfold Memory.free
  rw [if_neg (Nat.pos_iff_ne_zero.1 (h.pos b hb).1), if_pos (List.mem_map_of_mem hb),
    h.nodup.erase_eq_filter]
  congr 1
  refine List.filter_congr fun c hc => ?_
  rw [Bool.eq_iff_iff, decide_eq_true_iff, bne_iff_ne]
  refine not_congr ⟨fun heq => ?_, congrArg Prod.fst⟩
  exact eq_of_fst_of_separate h.separate (fun c hc => (h.pos c hc).2) hc hb heq

theorem Memory.Ok.erase (h : m.Ok) (b : ℕ × ℕ) :
    Memory.Ok { m with blocks := m.blocks.erase b } where
  separate := h.separate.sublist List.erase_sublist
  pos c hc := h.pos c (List.mem_of_mem_erase hc)

/-- What is no block is not freed. -/
theorem Memory.free_of_not_mem (hx : x ∉ m.blocks.map Prod.fst) :
    (m.free x).blocks = m.blocks ∧ ∀ y ∈ (m.free x).strays, y = x ∨ y ∈ m.strays := by
  unfold Memory.free
  by_cases hzero : x = 0
  · rw [if_pos hzero]
    exact ⟨rfl, fun y hy => .inr hy⟩
  · rw [if_neg hzero, if_neg hx]
    exact ⟨rfl, fun y hy => List.mem_cons.1 hy⟩

theorem blocksOf_cons_of_managed (h : e.2._isAmManaged = true) :
    blocksOf (e :: es) = e.2.block :: blocksOf es := by
  simp [blocksOf, h]

theorem blocksOf_cons_of_user (h : e.2._isAmManaged = false) :
    blocksOf (e :: es) = blocksOf es := by
  simp [blocksOf, h]

theorem blocksOf_perm {es' : List (AmMemoryRange × AmPointerInfo)} (h : es.Perm es') :
    (blocksOf es).Perm (blocksOf es') :=
  (h.filter _).map _

theorem mem_blocksOf : b ∈ blocksOf es ↔ ∃ e ∈ es, e.2._isAmManaged = true ∧ b = e.2.block := by
  unfold blocksOf
  simp only [List.mem_map, List.mem_filter, and_assoc, eq_comm]

end Blocks

/-! ### The invariant -/

/-- What relates entries to the memory, apart from the blocks in `rest`. -/
structure Related (es : List (AmMemoryRange × AmPointerInfo)) (m : Memory) (rest : List (ℕ × ℕ))
    (named : List ℕ) : Prop where
  ok : m.Ok
  perm : m.blocks.Perm (blocksOf es ++ rest)
  user : ∀ e ∈ es, e.2._isAmManaged = false →
    e.2._unalignedDevicePointer ∉ m.blocks.map Prod.fst ∧ e.2._unalignedDevicePointer ∈ named
  strays : ∀ x ∈ m.strays, x ∈ named

namespace Related

variable {es es' : List (AmMemoryRange × AmPointerInfo)} {m : Memory} {rest : List (ℕ × ℕ)}
  {named : List ℕ} {e : AmMemoryRange × AmPointerInfo}

/-- The entries in another order. -/
theorem congr (h : Related es m rest named) (hperm : es.Perm es') : Related es' m rest named where
  ok := h.ok
  perm := h.perm.trans ((blocksOf_perm hperm).append_right rest)
  user e he := h.user e (hperm.mem_iff.2 he)
  strays := h.strays

/-- **The block of a managed entry is freed** with it. -/
theorem freed (h : Related (e :: es) m rest named) (hmanaged : e.2._isAmManaged = true) :
    m.free e.2._unalignedDevicePointer = { m with blocks := m.blocks.erase e.2.block } ∧
      Related es (m.free e.2._unalignedDevicePointer) rest named := by
  have hperm := h.perm
  rw [blocksOf_cons_of_managed hmanaged, List.cons_append] at hperm
  have hmem : e.2.block ∈ m.blocks := hperm.mem_iff.2 List.mem_cons_self
  have hfree := h.ok.free hmem
  refine ⟨hfree, ?_⟩
  rw [show m.free e.2._unalignedDevicePointer = _ from hfree]
  refine ⟨h.ok.erase _, ?_, fun e' he' huser => ?_, h.strays⟩
  · have herase := hperm.erase e.2.block
    rwa [List.erase_cons_head] at herase
  · obtain ⟨hnot, hnamed⟩ := h.user e' (List.mem_cons_of_mem _ he') huser
    exact ⟨fun hmem => hnot ((List.erase_sublist.map _).subset hmem), hnamed⟩

/-- An entry of the user has no block. -/
theorem freed_user (h : Related (e :: es) m rest named) (huser : e.2._isAmManaged = false) :
    (m.free e.2._unalignedDevicePointer).blocks = m.blocks ∧
      Related es (m.free e.2._unalignedDevicePointer) rest named := by
  obtain ⟨hnot, hnamed⟩ := h.user e List.mem_cons_self huser
  obtain ⟨hblocks, hstrays⟩ := Memory.free_of_not_mem hnot
  have hperm := h.perm
  rw [blocksOf_cons_of_user huser] at hperm
  refine ⟨hblocks, ⟨?_, ?_⟩, ?_, ?_, ?_⟩
  · exact hblocks ▸ h.ok.separate
  · exact hblocks ▸ h.ok.pos
  · exact hblocks ▸ hperm
  · intro e' he'
    rw [hblocks]
    exact h.user e' (List.mem_cons_of_mem _ he')
  · intro x hx
    rcases hstrays x hx with rfl | hx
    · exact hnamed
    · exact h.strays x hx

/-- An entry is removed and its block is left behind. -/
theorem removed (h : Related (e :: es) m rest named) :
    Related es m (blocksOf [e] ++ rest) named := by
  refine ⟨h.ok, ?_, fun e' he' => h.user e' (List.mem_cons_of_mem _ he'), h.strays⟩
  refine h.perm.trans ?_
  cases hmanaged : e.2._isAmManaged with
  | true =>
    rw [blocksOf_cons_of_managed hmanaged, blocksOf_cons_of_managed hmanaged]
    exact List.perm_middle.symm
  | false =>
    rw [blocksOf_cons_of_user hmanaged, blocksOf_cons_of_user hmanaged]
    exact .refl _

/-- An entry that is passed over. -/
theorem passed (h : Related es m (blocksOf [e] ++ rest) named)
    (huser : e.2._isAmManaged = false →
      e.2._unalignedDevicePointer ∉ m.blocks.map Prod.fst ∧ e.2._unalignedDevicePointer ∈ named) :
    Related (e :: es) m rest named := by
  refine ⟨h.ok, h.perm.trans ?_, List.forall_mem_cons.2 ⟨huser, h.user⟩, h.strays⟩
  cases hmanaged : e.2._isAmManaged with
  | true =>
    rw [blocksOf_cons_of_managed hmanaged, blocksOf_cons_of_managed hmanaged]
    exact List.perm_middle
  | false =>
    rw [blocksOf_cons_of_user hmanaged, blocksOf_cons_of_user hmanaged]
    exact .refl _

/-- **What the loop of a reset does**, by induction on the entries. -/
theorem resetLoop (h : Related es m rest named) (acc : ℕ) :
    (Pointers.resetLoop acc es m).1 = es.filter (fun e => decide (e.2._acc ≠ acc)) ∧
      Related (Pointers.resetLoop acc es m).1 (Pointers.resetLoop acc es m).2.1 rest named ∧
      (Pointers.resetLoop acc es m).2.1.blocks ⊆ m.blocks := by
  induction es generalizing m rest with
  | nil => exact ⟨rfl, h, List.Subset.refl _⟩
  | cons e es ih =>
    unfold Pointers.resetLoop
    by_cases hacc : e.2._acc = acc
    · rw [if_pos hacc, List.filter_cons_of_neg (by simp [hacc])]
      cases hmanaged : e.2._isAmManaged with
      | true =>
        obtain ⟨hblocks, hfreed⟩ := h.freed hmanaged
        obtain ⟨hl, hrel, hsub⟩ := ih hfreed
        refine ⟨hl, hrel, List.Subset.trans hsub ?_⟩
        rw [hblocks]
        exact List.erase_subset
      | false =>
        have hrel : Related es m rest named := by
          have hperm := h.perm
          rw [blocksOf_cons_of_user hmanaged] at hperm
          exact ⟨h.ok, hperm, fun e' he' => h.user e' (List.mem_cons_of_mem _ he'), h.strays⟩
        exact ih hrel
    · rw [if_neg hacc, List.filter_cons_of_pos (by simpa using hacc)]
      obtain ⟨hl, hrel, hsub⟩ := ih h.removed
      refine ⟨congrArg (e :: ·) hl, hrel.passed fun huser => ?_, hsub⟩
      obtain ⟨hnot, hnamed⟩ := h.user e List.mem_cons_self huser
      exact ⟨fun hmem => hnot (List.map_subset _ hsub hmem), hnamed⟩

/-- **A block is of one entry**, or of none. -/
theorem block_cases (h : Related es m rest named) {b : ℕ × ℕ}
    {p : AmMemoryRange × AmPointerInfo → Bool} :
    b ∈ blocksOf (es.filter p) ++ rest ↔
      b ∈ m.blocks ∧ ¬∃ e ∈ es, p e = false ∧ e.2._isAmManaged = true ∧ b = e.2.block := by
  have hblocks : (blocksOf es ++ rest).Nodup := h.perm.nodup_iff.1 h.ok.nodup
  obtain ⟨hmap, -, hdisj⟩ := List.nodup_append.1 hblocks
  have hinj := List.inj_on_of_nodup_map hmap
  rw [h.perm.mem_iff, List.mem_append, List.mem_append, mem_blocksOf, mem_blocksOf]
  constructor
  · rintro (⟨e, he, hmanaged, rfl⟩ | hrest)
    · obtain ⟨he, hpe⟩ := List.mem_filter.1 he
      refine ⟨.inl ⟨e, he, hmanaged, rfl⟩, ?_⟩
      rintro ⟨e', he', hpe', hmanaged', heq⟩
      obtain rfl := hinj (List.mem_filter.2 ⟨he, hmanaged⟩) (List.mem_filter.2 ⟨he', hmanaged'⟩) heq
      rw [hpe] at hpe'
      exact nomatch hpe'
    · refine ⟨.inr hrest, ?_⟩
      rintro ⟨e', he', -, hmanaged', rfl⟩
      exact hdisj _ (mem_blocksOf.2 ⟨e', he', hmanaged', rfl⟩) _ hrest rfl
  · rintro ⟨⟨e, he, hmanaged, rfl⟩ | hrest, hnot⟩
    · refine .inl ⟨e, List.mem_filter.2 ⟨he, ?_⟩, hmanaged, rfl⟩
      by_contra hpe
      exact hnot ⟨e, he, eq_false_of_ne_true hpe, hmanaged, rfl⟩
    · exact .inr hrest

end Related

/-- **The invariant.** -/
structure Inv (s : State) : Prop where
  sorted : ComparatorMap.Sorted AmMemoryRangeCompare s.entries
  related : Related s.entries s.am.memory s.removed s.named
  base : ∀ e ∈ s.entries, 0 < e.1._basePointer
  ranges : ∀ e ∈ s.entries, e.2._isAmManaged = true →
    e.1._basePointer = e.2._unalignedDevicePointer ∧
      e.1._endPointer + 1 = e.2._unalignedDevicePointer + e.2._sizeBytes

section Steps

variable {s t : State} {r : Request} {p : ℕ} {info : AmPointerInfo}
  {f : AmMemoryRange × AmPointerInfo → AmMemoryRange × AmPointerInfo}

/-- **A range is inserted**, or one that has a byte in common with it keeps it out. -/
theorem insert_cases {t : AmPointerTracker}
    (h : ComparatorMap.Sorted AmMemoryRangeCompare t._tracker) (hpos : 0 < info._sizeBytes) :
    (t.insert p info hpos)._tracker.Perm ((AmMemoryRange.ofPointer p info._sizeBytes hpos,
        { info with _allocSeqNum := u64 (t._allocSeqNum + 1) }) :: t._tracker) ∨
      (t.insert p info hpos)._tracker = t._tracker ∧ ∃ e ∈ t._tracker,
        ¬AmMemoryRangeCompare e.1 (.ofPointer p info._sizeBytes hpos) ∧
        ¬AmMemoryRangeCompare (.ofPointer p info._sizeBytes hpos) e.1 := by
  by_cases hor : ∀ e ∈ t._tracker, AmMemoryRangeCompare e.1 (.ofPointer p info._sizeBytes hpos) ∨
      AmMemoryRangeCompare (.ofPointer p info._sizeBytes hpos) e.1
  · exact .inl (ComparatorMap.insert_perm h hor)
  · obtain ⟨e, he⟩ := not_forall.1 hor
    obtain ⟨he, hnot⟩ := Classical.not_imp.1 he
    obtain ⟨hlt, hgt⟩ := not_or.1 hnot
    exact .inr ⟨ComparatorMap.insert_eq_self h he hlt hgt, e, he, hlt, hgt⟩

/-- More is named. -/
theorem Related.named_cons {es : List (AmMemoryRange × AmPointerInfo)} {m : Memory}
    {rest : List (ℕ × ℕ)} {named : List ℕ} (h : Related es m rest named) (x : ℕ) :
    Related es m rest (x :: named) where
  ok := h.ok
  perm := h.perm
  user e he huser := (h.user e he huser).imp_right (List.mem_cons_of_mem _)
  strays y hy := List.mem_cons_of_mem _ (h.strays y hy)

/-- **A step of the user**: a range is added. -/
theorem Inv.add (h : Inv s) (huser : info._isAmManaged = false)
    (hnot : info._unalignedDevicePointer ∉ s.am.memory.blocks.map Prod.fst) :
    Inv { s with am := (am_memtracker_add s.am p info).2,
                 named := info._unalignedDevicePointer :: s.named } := by
  unfold am_memtracker_add
  have hrelated := h.related.named_cons info._unalignedDevicePointer
  by_cases hzero : p = 0 ∨ info._sizeBytes = 0
  · rw [dif_pos hzero]
    exact ⟨h.sorted, hrelated, h.base, h.ranges⟩
  rw [dif_neg hzero]
  have hpos : 0 < info._sizeBytes := by omega
  have hsorted : ComparatorMap.Sorted AmMemoryRangeCompare
      (s.am.g_amPointerTracker.insert p info hpos)._tracker :=
    ComparatorMap.sorted_insert h.sorted _ _
  rcases insert_cases (p := p) h.sorted hpos with hperm | ⟨heq, -⟩
  · refine ⟨hsorted, Related.congr ?_ hperm.symm, fun e he => ?_, fun e he hmanaged => ?_⟩
    · refine ⟨hrelated.ok, ?_, List.forall_mem_cons.2 ⟨fun _ => ⟨hnot, List.mem_cons_self⟩,
        hrelated.user⟩, hrelated.strays⟩
      rw [blocksOf_cons_of_user huser]
      exact hrelated.perm
    · rcases List.mem_cons.1 (hperm.mem_iff.1 he) with rfl | he
      · exact Nat.pos_of_ne_zero (not_or.1 hzero).1
      · exact h.base e he
    · rcases List.mem_cons.1 (hperm.mem_iff.1 he) with rfl | he
      · rw [show info._isAmManaged = true from hmanaged] at huser
        cases huser
      · exact h.ranges e he hmanaged
  · have hentries : (s.am.g_amPointerTracker.insert p info hpos)._tracker = s.entries := heq
    refine ⟨hsorted, ?_, fun e he => ?_, fun e he => ?_⟩
    · change Related (s.am.g_amPointerTracker.insert p info hpos)._tracker _ _ _
      rw [hentries]
      exact hrelated
    · change e ∈ (s.am.g_amPointerTracker.insert p info hpos)._tracker at he
      rw [hentries] at he
      exact h.base e he
    · change e ∈ (s.am.g_amPointerTracker.insert p info hpos)._tracker at he
      rw [hentries] at he
      exact h.ranges e he

/-- The pool gives a block that is not empty. -/
theorem Request.allocate_of_unalignedPtr {a : ℕ} (h : r.unalignedPtr = some a) :
    r.sizeBytes ≠ 0 ∧ r.allocate r.blockBytes = some a := by
  unfold Request.unalignedPtr at h
  split_ifs at h with hsize
  · split at h
    · exact nomatch h
    · split_ifs at h
      unfold hsa_amd_memory_pool_allocate at h
      split_ifs at h
      exact ⟨hsize, h⟩

/-- The entry of a block. -/
def Am.entry (m : Am) (r : Request) (a : ℕ) (ha : r.unalignedPtr = some a) :
    AmMemoryRange × AmPointerInfo :=
  (.ofPointer a r.blockBytes (Request.blockBytes_pos ha),
    { r.ampi a with _allocSeqNum := u64 (m.g_amPointerTracker._allocSeqNum + 1) })

/-- **A block is tracked.** -/
theorem Inv.track (h : Inv s) (hfresh : ∀ n a, r.allocate n = some a → Fresh s.am (a, n)) {a : ℕ}
    (ha : r.unalignedPtr = some a) :
    (s.am.track r a ha).g_amPointerTracker._tracker.Perm (s.am.entry r a ha :: s.entries) ∧
      Inv { s with am := s.am.track r a ha } := by
  have hfresh := hfresh _ _ (Request.allocate_of_unalignedPtr ha).2
  have hpos : 0 < r.blockBytes := Request.blockBytes_pos ha
  have hperm : (s.am.track r a ha).g_amPointerTracker._tracker.Perm
      (s.am.entry r a ha :: s.entries) := by
    rcases insert_cases (p := a) h.sorted (Request.blockBytes_pos ha) with
      hperm | ⟨-, e, he, hlt, hgt⟩
    · exact hperm
    · have hapart := hfresh.ranges e he
      unfold AmMemoryRangeCompare AmMemoryRange.ofPointer at hlt hgt
      dsimp only [Request.ampi] at hlt hgt hapart
      omega
  refine ⟨hperm, ComparatorMap.sorted_insert h.sorted _ _, Related.congr ?_ hperm.symm,
    fun e he => ?_, fun e he hmanaged => ?_⟩
  · refine ⟨⟨?_, ?_⟩, ?_, ?_, h.related.strays⟩
    · exact List.pairwise_cons.2 ⟨fun x hx => (hfresh.blocks x hx).symm, h.related.ok.separate⟩
    · exact List.forall_mem_cons.2 ⟨⟨hfresh.pos, hpos⟩, h.related.ok.pos⟩
    · rw [blocksOf_cons_of_managed rfl]
      exact h.related.perm.cons _
    · refine List.forall_mem_cons.2 ⟨nofun, fun e he huser => ?_⟩
      obtain ⟨hnot, hnamed⟩ := h.related.user e he huser
      refine ⟨fun hmem => ?_, hnamed⟩
      rcases List.mem_cons.1 hmem with heq | hmem
      · exact hfresh.records e he heq
      · exact hnot hmem
  · rcases List.mem_cons.1 (hperm.mem_iff.1 he) with rfl | he
    · exact hfresh.pos
    · exact h.base e he
  · rcases List.mem_cons.1 (hperm.mem_iff.1 he) with rfl | he
    · refine ⟨rfl, ?_⟩
      unfold Am.entry AmMemoryRange.ofPointer Request.ampi
      dsimp only
      omega
    · exact h.ranges e he hmanaged

/-- **What was asked for is in the block**, behind the address that is aligned. -/
theorem Request.ptr_bounds {a : ℕ} (hr : r.Covered) (ha : r.unalignedPtr = some a)
    (hle : a + r.blockBytes ≤ 2 ^ 64) :
    a ≤ r.ptr a ∧ r.ptr a + r.sizeBytes ≤ a + r.blockBytes := by
  have hsize := (Request.allocate_of_unalignedPtr ha).1
  obtain ⟨hsum, -⟩ := hr
  unfold Request.ptr Request.blockBytes at *
  by_cases hzero : r.alignment ≠ 0
  · rw [if_pos hzero] at hle ⊢
    rw [if_pos hzero]
    rw [u64_of_lt hsum] at hle ⊢
    have hx : u64 (a + r.alignment + 2 ^ 64 - 1) = a + r.alignment - 1 := by
      unfold u64 wrap
      omega
    rw [hx, sub64_of_le (by omega) (by omega)]
    have hlow := sub_le_and_not (w := 64) (x := a + r.alignment - 1) (m := r.alignment - 1)
      (by omega) (by omega)
    have hhigh : (a + r.alignment - 1) &&& (2 ^ 64 - 1 - (r.alignment - 1)) ≤
        a + r.alignment - 1 := Nat.and_le_left
    omega
  · rw [if_neg hzero, if_neg hzero]
    omega

/-- Memory that is managed is given to the agents. -/
theorem am_map_to_peers_of_find {t : AmPointerTracker} {peers : ℕ}
    {e : AmMemoryRange × AmPointerInfo} (hp : p ≠ 0) (hpeers : 0 < peers)
    (hfind : t.find p = some e) (hmanaged : e.2._isAmManaged = true) :
    am_map_to_peers t p peers true = AM_SUCCESS := by
  unfold am_map_to_peers
  rw [if_neg (by omega), hfind]
  dsimp only
  rw [if_neg fun hnot => hnot.2 hmanaged]
  rfl

/-- **What an allocation does**: it fails and changes nothing, or it tracks a new block, in which
the result is. -/
theorem Inv.alloc_cases (h : Inv s) (hr : r.Covered)
    (hfresh : ∀ n a, r.allocate n = some a → Fresh s.am (a, n)) :
    am_aligned_alloc s.am r = (0, s.am) ∨ ∃ a, ∃ ha : r.unalignedPtr = some a,
      am_aligned_alloc s.am r = (r.ptr a, s.am.track r a ha) := by
  unfold am_aligned_alloc
  split
  · exact .inl rfl
  · rename_i a ha
    refine .inr ⟨a, ha, ?_⟩
    obtain ⟨hperm, htrack⟩ := h.track hfresh ha
    have hblock := hfresh _ _ (Request.allocate_of_unalignedPtr ha).2
    obtain ⟨hlow, hhigh⟩ := Request.ptr_bounds hr ha hblock.le
    have hpos := hblock.pos
    have hsize := (Request.allocate_of_unalignedPtr ha).1
    by_cases hhost : r.host = true
    · obtain ⟨hgranted, hpeers⟩ := hr.2 hhost
      have hhas : (s.am.entry r a ha).1.Has (r.ptr a) := by
        refine ⟨hlow, ?_⟩
        dsimp only [Am.entry, AmMemoryRange.ofPointer]
        omega
      have hfind : (s.am.track r a ha).g_amPointerTracker.find (r.ptr a) = _ :=
        (find_iff htrack.sorted).2 ⟨hperm.mem_iff.2 List.mem_cons_self, hhas⟩
      have hmap := am_map_to_peers_of_find (by dsimp only at hpos; omega) hpeers hfind rfl
      dsimp only
      rw [if_pos hhost, hgranted, if_neg (not_not.2 hmap)]
    · dsimp only
      rw [if_neg hhost]

/-- **A step of an allocation.** -/
theorem Inv.alloc (h : Inv s) (hr : r.Covered)
    (hfresh : ∀ n a, r.allocate n = some a → Fresh s.am (a, n)) :
    Inv { s with am := (am_aligned_alloc s.am r).2 } := by
  rcases h.alloc_cases hr hfresh with heq | ⟨a, ha, heq⟩
  · rw [heq]
    exact h
  · rw [heq]
    exact (h.track hfresh ha).2

/-- The entries without the one a pointer leads to. -/
theorem Inv.entries_perm (h : Inv s) {e : AmMemoryRange × AmPointerInfo}
    (hfind : s.am.g_amPointerTracker.find p = some e) :
    s.entries.Perm (e :: s.entries.erase e) :=
  List.perm_cons_erase ((find_iff h.sorted).1 hfind).1

/-- Nothing is at the null pointer. -/
theorem Inv.find_zero (h : Inv s) : s.am.g_amPointerTracker.find 0 = none := by
  refine Option.eq_none_iff_forall_ne_some.2 fun e hfind => ?_
  obtain ⟨he, hhas⟩ := (find_iff h.sorted).1 hfind
  exact Nat.not_le.2 (h.base e he) hhas.1

/-- The entries that remain of some are as good. -/
theorem Inv.sublist {s t : State} (h : Inv s) (hsub : t.entries.Sublist s.entries)
    (hrelated : Related t.entries t.am.memory t.removed t.named) : Inv t where
  sorted := List.Pairwise.sublist hsub h.sorted
  related := hrelated
  base e he := h.base e (hsub.subset he)
  ranges e he := h.ranges e (hsub.subset he)

/-- **What freeing a pointer does**: the entry that it leads to goes, with its block. -/
theorem Inv.free_cases (h : Inv s) :
    s.am.g_amPointerTracker.find p = none ∧ (am_free s.am p).2.g_amPointerTracker._tracker =
        s.entries ∧ (am_free s.am p).2.memory = s.am.memory ∨
      ∃ e, s.am.g_amPointerTracker.find p = some e ∧
        (am_free s.am p).2.g_amPointerTracker._tracker = s.entries.erase e ∧
        (am_free s.am p).2.memory = s.am.memory.free e.2._unalignedDevicePointer := by
  unfold am_free
  by_cases hzero : p = 0
  · rw [if_neg (not_not.2 hzero)]
    exact .inl ⟨hzero ▸ h.find_zero, rfl, rfl⟩
  · rw [if_pos hzero]
    rcases hfind : s.am.g_amPointerTracker.find p with _ | e
    · exact .inl ⟨rfl, remove_of_not_find h.sorted hfind, rfl⟩
    · exact .inr ⟨e, rfl, remove_of_find h.sorted hfind, rfl⟩

/-- **A step that frees.** -/
theorem Inv.free (h : Inv s) : Inv { s with am := (am_free s.am p).2 } := by
  rcases h.free_cases (p := p) with ⟨-, hentries, hmemory⟩ | ⟨e, hfind, hentries, hmemory⟩
  · have hsub : (am_free s.am p).2.g_amPointerTracker._tracker.Sublist s.entries := by rw [hentries]
    refine h.sublist hsub ?_
    change Related (am_free s.am p).2.g_amPointerTracker._tracker (am_free s.am p).2.memory _ _
    rw [hentries, hmemory]
    exact h.related
  · have hsub : (am_free s.am p).2.g_amPointerTracker._tracker.Sublist s.entries := by
      rw [hentries]
      exact List.erase_sublist
    refine h.sublist hsub ?_
    change Related (am_free s.am p).2.g_amPointerTracker._tracker (am_free s.am p).2.memory _ _
    rw [hentries, hmemory]
    have hrelated := h.related.congr (h.entries_perm hfind)
    cases hmanaged : e.2._isAmManaged with
    | true => exact (hrelated.freed hmanaged).2
    | false => exact (hrelated.freed_user hmanaged).2

/-- **A step that removes a record** and leaves its block behind. -/
theorem Inv.remove (h : Inv s) : Inv { s with
    am := (am_memtracker_remove s.am p).2,
    removed := blocksOf (s.am.g_amPointerTracker.find p).toList ++ s.removed } := by
  have hentries : (am_memtracker_remove s.am p).2.g_amPointerTracker._tracker =
      (s.am.g_amPointerTracker.remove p).1._tracker := rfl
  rcases hfind : s.am.g_amPointerTracker.find p with _ | e
  · rw [remove_of_not_find h.sorted hfind] at hentries
    refine h.sublist (hentries ▸ List.Sublist.refl _ :
      (am_memtracker_remove s.am p).2.g_amPointerTracker._tracker.Sublist s.entries) ?_
    change Related (am_memtracker_remove s.am p).2.g_amPointerTracker._tracker s.am.memory _ _
    rw [hentries]
    exact h.related
  · rw [remove_of_find h.sorted hfind] at hentries
    refine h.sublist (hentries ▸ List.erase_sublist :
      (am_memtracker_remove s.am p).2.g_amPointerTracker._tracker.Sublist s.entries) ?_
    change Related (am_memtracker_remove s.am p).2.g_amPointerTracker._tracker s.am.memory _ _
    rw [hentries]
    exact (h.related.congr (h.entries_perm hfind)).removed

/-- Entries may change in what does not concern their blocks. -/
theorem Inv.map (h : Inv s) (htracker : t.entries = s.entries.map f)
    (hkey : ∀ e, (f e).1 = e.1) (hblock : ∀ e, (f e).2.block = e.2.block)
    (hmanaged : ∀ e, (f e).2._isAmManaged = e.2._isAmManaged)
    (hmemory : t.am.memory = s.am.memory) (hremoved : t.removed = s.removed)
    (hnamed : t.named = s.named) : Inv t := by
  have hunaligned e : (f e).2._unalignedDevicePointer = e.2._unalignedDevicePointer :=
    congrArg Prod.fst (hblock e)
  have hsize e : (f e).2._sizeBytes = e.2._sizeBytes := congrArg Prod.snd (hblock e)
  have hblocks : blocksOf t.entries = blocksOf s.entries := by
    rw [htracker]
    unfold blocksOf
    rw [List.filter_map, List.map_map]
    simp only [Function.comp_def, hmanaged, hblock]
  refine ⟨?_, ⟨?_, ?_, fun e he => ?_, ?_⟩, fun e he => ?_, fun e he => ?_⟩
  · unfold ComparatorMap.Sorted
    rw [htracker]
    refine List.pairwise_map.2 (List.Pairwise.imp (fun {a b} hlt => ?_) h.sorted)
    rw [hkey, hkey]
    exact hlt
  · rw [hmemory]
    exact h.related.ok
  · rw [hmemory, hblocks, hremoved]
    exact h.related.perm
  · rw [htracker] at he
    obtain ⟨e', he', rfl⟩ := List.mem_map.1 he
    rw [hmanaged, hunaligned, hmemory, hnamed]
    exact h.related.user e' he'
  · rw [hmemory, hnamed]
    exact h.related.strays
  · rw [htracker] at he
    obtain ⟨e', he', rfl⟩ := List.mem_map.1 he
    rw [hkey]
    exact h.base e' he'
  · rw [htracker] at he
    obtain ⟨e', he', rfl⟩ := List.mem_map.1 he
    rw [hmanaged, hkey, hunaligned, hsize]
    exact h.ranges e' he'

/-- **A step that updates a record.** -/
theorem Inv.update (h : Inv s) {appId : ℤ} {allocationFlags appPtr : ℕ} :
    Inv { s with am := (am_memtracker_update s.am p appId allocationFlags appPtr).2 } := by
  unfold am_memtracker_update
  split
  · exact h
  · rename_i e _
    refine h.map (f := fun e' => if e'.1 = e.1 then
      (e'.1, e'.2.update appId allocationFlags appPtr) else e') rfl ?_ ?_ ?_ rfl rfl rfl <;>
    · intro e'
      split_ifs <;> rfl

/-- **A step that resets.** -/
theorem Inv.reset (h : Inv s) (acc : ℕ) :
    Inv { s with am := (am_memtracker_reset s.am acc).2 } := by
  obtain ⟨hl, hrelated, -⟩ := h.related.resetLoop acc
  have hsub : (resetLoop acc s.entries s.am.memory).1.Sublist s.entries := by
    rw [hl]
    exact List.filter_sublist
  exact h.sublist hsub hrelated

/-- **A step keeps the invariant.** -/
theorem Inv.step {op : Op} (h : Inv s) (hcovered : Covered s op) (hstep : Step s op t) : Inv t := by
  cases op with
  | alloc r =>
    obtain ⟨hfresh, rfl⟩ := hstep
    exact h.alloc hcovered hfresh
  | free p =>
    obtain rfl := hstep
    exact h.free
  | add p info =>
    obtain ⟨huser, hnot, -, rfl⟩ := hstep
    exact h.add huser hnot
  | remove p =>
    obtain rfl := hstep
    exact h.remove
  | update p appId allocationFlags appPtr =>
    obtain rfl := hstep
    exact h.update
  | getinfo p =>
    obtain rfl := hstep
    exact h
  | sizeinfo acc =>
    obtain rfl := hstep
    exact h
  | reset acc =>
    obtain rfl := hstep
    exact h.reset acc

theorem Inv.init : Inv {} where
  sorted := .nil
  related := ⟨⟨.nil, nofun⟩, .refl _, nofun, nofun⟩
  base := nofun
  ranges := nofun

/-- **What the invariant says.** -/
theorem Inv.sound (h : Inv s) : Sound s where
  apart := h.sorted
  lookup _ _ := find_iff h.sorted
  blocks := h.related.perm
  separate := h.related.ok.separate
  ranges := h.ranges
  strays := h.related.strays
  alloc := by
    rintro r t hr ⟨hfresh, rfl⟩
    rcases h.alloc_cases hr hfresh with heq | ⟨a, ha, heq⟩
    · rw [heq]
      exact .inl ⟨rfl, rfl⟩
    · rw [heq]
      have hblock := hfresh _ _ (Request.allocate_of_unalignedPtr ha).2
      obtain ⟨hlow, hhigh⟩ := Request.ptr_bounds hr ha hblock.le
      have hpos : 0 < r.blockBytes := Request.blockBytes_pos ha
      refine .inr ⟨s.am.entry r a ha, (h.track hfresh ha).1.mem_iff.2 List.mem_cons_self, rfl,
        fun hmem => ?_, hlow, ?_⟩
      · have hsep : Separate (a, r.blockBytes) (a, r.blockBytes) := hblock.blocks _ hmem
        unfold Separate at hsep
        omega
      · dsimp only [Am.entry, AmMemoryRange.ofPointer]
        omega
  free := by
    rintro p t rfl e hfind
    rcases h.free_cases (p := p) with ⟨hnone, -, -⟩ | ⟨e', hfind', hentries, hmemory⟩
    · exact nomatch hnone.symm.trans hfind
    obtain rfl := Option.some.inj (hfind.symm.trans hfind')
    constructor
    · intro e'
      change e' ∈ (am_free s.am p).2.g_amPointerTracker._tracker ↔ _
      have hnodup : s.entries.Nodup := nodup_of_sorted h.sorted
      rw [hentries, hnodup.mem_erase_iff, and_comm]
    · intro b
      dsimp only
      have hrelated := h.related.congr (h.entries_perm hfind)
      rw [hmemory]
      cases hmanaged : e.2._isAmManaged with
      | true =>
        rw [(hrelated.freed hmanaged).1]
        dsimp only
        rw [h.related.ok.nodup.mem_erase_iff, and_comm]
        simp
      | false =>
        rw [(hrelated.freed_user hmanaged).1]
        simp
  reset := by
    rintro acc t rfl
    obtain ⟨hl, hrelated, -⟩ := h.related.resetLoop acc
    have hentries : (am_memtracker_reset s.am acc).2.g_amPointerTracker._tracker =
        s.entries.filter fun e => decide (e.2._acc ≠ acc) := hl
    constructor
    · intro e
      change e ∈ (am_memtracker_reset s.am acc).2.g_amPointerTracker._tracker ↔ _
      rw [hentries, List.mem_filter, decide_eq_true_iff]
    · intro b
      have hperm : (am_memtracker_reset s.am acc).2.memory.blocks.Perm _ := hrelated.perm
      dsimp only
      rw [hperm.mem_iff, hl, h.related.block_cases]
      simp only [decide_eq_false_iff_not, not_not]

/-- **The tracker and the pools agree**, in every run in which the agents are given access to memory
of the host: a pointer leads to the record of the range it is in, and to none if it is in none; the
blocks that were not freed are those of the records that are managed and those whose record was
removed, so that a block is freed with its record, once, and through the address the pool gave; an
allocation that fails changes nothing; and a reset removes the records of its accelerator and frees
the blocks of those that are managed. -/
theorem tracked_of_run {ops : List Op} (h : Run (Guarded Covered Step) {} ops t) : Sound t := by
  have hinv : Inv t := h.inv (I := Inv) (fun _ _ _ hinv hstep => hinv.step hstep.1 hstep.2) .init
  exact hinv.sound

/-- A range of the user. -/
def user : AmPointerInfo where
  _hostPointer := 4096
  _devicePointer := 4096
  _unalignedDevicePointer := 0
  _sizeBytes := 16
  _acc := 0
  _isInDeviceMem := false
  _isAmManaged := false

/-- A block of 32 bytes for 16 that are aligned. -/
def request : Request where
  sizeBytes := 16
  acc := ⟨0, some 1, some 2, some 3⟩
  flags := amHostPinned
  alignment := 16
  allocate n := if n = 32 then some 8200 else none
  peers := 1
  granted := true

theorem fresh_request {m : Am} (hblocks : m.memory.blocks = [])
    (htracker : ∀ e ∈ m.g_amPointerTracker._tracker,
      e.1._endPointer < 8200 ∧ e.2._unalignedDevicePointer = 0) :
    ∀ n a, request.allocate n = some a → Fresh m (a, n) := by
  intro n a h
  by_cases hn : n = 32
  · obtain rfl : 8200 = a := Option.some.inj ((if_pos hn).symm.trans h)
    refine ⟨Nat.succ_pos _, ?_, ?_, fun e he => .inl (htracker e he).1, fun e he => ?_⟩
    · rw [hn]
      decide
    · rw [hblocks]
      exact nofun
    · rw [(htracker e he).2]
      exact nofun
  · exact nomatch (if_neg hn).symm.trans h

/-- A range of the user and a block are tracked, and the block is freed through the address that is
aligned. -/
theorem tracked_of_run_free : ∃ t, t.entries.length = 1 ∧ t.am.memory.blocks = [] ∧ Sound t := by
  refine ⟨_, ?_, ?_, tracked_of_run (show Run (Guarded Covered Step) {}
      [.add 4096 user, .alloc request, .free 8208] _ from
    .cons ⟨trivial, rfl, nofun, by decide, rfl⟩
    (.cons ⟨⟨by decide, fun _ => ⟨rfl, by decide⟩⟩, fresh_request rfl (by decide), rfl⟩
    (.cons ⟨trivial, rfl⟩ (.nil _))))⟩
  · rfl
  · rfl

/-- A reset removes a range of the user, and nothing is freed; a record that is removed leaves its
block behind. -/
theorem reset_removes_unfreed :
    (∃ s t, Run Step {} [.add 4096 user] s ∧ Step s (.reset 0) t ∧ s.entries.length = 1 ∧
      t.entries = [] ∧ t.am.memory.blocks = s.am.memory.blocks ∧ t.am.memory.strays = []) ∧
    ∃ t, Run Step {} [.alloc request, .remove 8208] t ∧ t.entries = [] ∧
      t.am.memory.blocks = [(8200, 32)] := by
  refine ⟨⟨_, _, .cons ⟨rfl, nofun, by decide, rfl⟩ (.nil _), rfl, rfl, rfl, rfl, rfl⟩,
    _, .cons ⟨fresh_request rfl nofun, rfl⟩ (.cons rfl (.nil _)), rfl, rfl⟩

end Steps

end Codrive.Csq.Pointers
