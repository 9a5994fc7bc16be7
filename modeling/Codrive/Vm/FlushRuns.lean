/-
# Histories of frees and flushes

Any sequence of freeing mappings and flushing the VM, on any engines and VMIDs.  What `FlushOk`
keeps out: a flush does not record its engine in the VMID, so each one invalidates everything again;
where the VMID has the engine nevertheless, the ranges start at the last page of a mapping; and a
full mask that lacks an engine leaves that engine's counter behind when a mapping leaves the list.
-/

import Codrive.Vm.Flush
import Mathlib.Data.List.Basic

namespace Codrive.Vm

open Codrive.Basis

section

variable {s t : FlushVm} {bo_va : FreedBoVa} {engine engine' vmid : ℕ} {threshold : ℤ}

/-! ### Marks -/

@[simp] theorem mark_marked :
    (bo_va.mark engine).marked engine' = (bo_va.marked engine' || engine == engine') := by
  unfold FreedBoVa.marked FreedBoVa.mark
  rw [Nat.testBit_or, Nat.one_shiftLeft, Nat.testBit_two_pow]
  rfl

/-- Marking again changes nothing. -/
theorem mark_of_marked (h : bo_va.marked engine = true) : bo_va.mark engine = bo_va := by
  have hmask : bo_va.inv_tlb_eng_mask ||| 1 <<< engine = bo_va.inv_tlb_eng_mask := by
    refine Nat.eq_of_testBit_eq fun i => ?_
    rw [Nat.testBit_or, Nat.one_shiftLeft, Nat.testBit_two_pow]
    by_cases hi : engine = i
    · subst hi
      rw [show bo_va.inv_tlb_eng_mask.testBit engine = true from h, Bool.true_or]
    · rw [decide_eq_false hi, Bool.or_false]
  rw [FreedBoVa.mark, hmask]

/-! ### The pass over the list -/

/-- The list, marked for an engine. -/
def FlushVm.marks (s : FlushVm) (engine : ℕ) : List FreedBoVa := s.freed.map (·.mark engine)

/-- Whether a record leaves the list. -/
def Full (full_eng_mask : ℕ) (bo_va : FreedBoVa) : Bool := bo_va.inv_tlb_eng_mask == full_eng_mask

/-- An iteration, for a record of the list. -/
theorem clearStep_eq (s : FlushVm) (bo_va : FreedBoVa) :
    FlushVm.clearStep engine s bo_va =
      { s with
        freed := s.freed ++ [bo_va.mark engine].filter (!Full s.full_eng_mask ·)
        freed_count := s.freed_count - ([bo_va.mark engine].filter (Full s.full_eng_mask)).length
        inv_tlb_sync_info := Function.update s.inv_tlb_sync_info engine
          { s.inv_tlb_sync_info engine with
            freed_count := (s.inv_tlb_sync_info engine).freed_count -
              ([bo_va].filter fun bo_va => !bo_va.marked engine).length }
        log := s.log ++ ([bo_va.mark engine].filter (Full s.full_eng_mask)).map .left } := by
  by_cases hm : bo_va.marked engine = true
  · by_cases hf : bo_va.inv_tlb_eng_mask = s.full_eng_mask
    · simp [FlushVm.clearStep, hm, mark_of_marked hm, Full, hf]
    · simp [FlushVm.clearStep, hm, mark_of_marked hm, Full, hf]
  · by_cases hf : (bo_va.mark engine).inv_tlb_eng_mask = s.full_eng_mask
    · simp [FlushVm.clearStep, hm, Full, hf]
    · simp [FlushVm.clearStep, hm, Full, hf]

theorem foldl_clearStep (l : List FreedBoVa) (s : FlushVm) :
    l.foldl (FlushVm.clearStep engine) s =
      { s with
        freed := s.freed ++ (l.map (·.mark engine)).filter (!Full s.full_eng_mask ·)
        freed_count :=
          s.freed_count - ((l.map (·.mark engine)).filter (Full s.full_eng_mask)).length
        inv_tlb_sync_info := Function.update s.inv_tlb_sync_info engine
          { s.inv_tlb_sync_info engine with
            freed_count := (s.inv_tlb_sync_info engine).freed_count -
              (l.filter fun bo_va => !bo_va.marked engine).length }
        log := s.log ++ ((l.map (·.mark engine)).filter (Full s.full_eng_mask)).map .left } := by
  induction l generalizing s with
  | nil => simp
  | cons bo_va l ih =>
    have hcons : bo_va :: l = [bo_va] ++ l := rfl
    rw [List.foldl_cons, ih, clearStep_eq, hcons]
    simp only [List.map_append, List.map_cons, List.map_nil, List.filter_append,
      List.length_append, Int.natCast_add, Int.sub_sub, Function.update_idem, Function.update_self,
      List.append_assoc]

/-- **`opu_vm_clear_freed_mapping`** marks every record, and takes those from the list that have
every mark. -/
theorem opuVmClearFreedMapping_eq (s : FlushVm) :
    s.opuVmClearFreedMapping engine =
      { s with
        freed := (s.marks engine).filter (!Full s.full_eng_mask ·)
        freed_count := s.freed_count - ((s.marks engine).filter (Full s.full_eng_mask)).length
        inv_tlb_sync_info := Function.update s.inv_tlb_sync_info engine
          { s.inv_tlb_sync_info engine with
            freed_count := (s.inv_tlb_sync_info engine).freed_count -
              (s.freed.filter fun bo_va => !bo_va.marked engine).length }
        log := s.log ++ ((s.marks engine).filter (Full s.full_eng_mask)).map .left } := by
  rw [FlushVm.opuVmClearFreedMapping, foldl_clearStep]
  rfl

/-! ### A flush -/

/-- What a flush emits before it marks the list. -/
def FlushVm.emitted (s : FlushVm) (threshold : ℤ) (ring : Ring) (vmid : ℕ) : List Event :=
  s.ptBases vmid ++ s.waits ring ++ s.invalidations threshold ring.engine_type vmid ++
    [Event.fence ring.engine_type vmid
      (u64 ((s.inv_tlb_sync_info ring.engine_type).seqno + 1))]

variable {ring : Ring} {sync : Bool}

/-- **A flush**: what it emits, then the pass over the list. -/
theorem amdgpuVmFlush_spec (s : FlushVm) (threshold : ℤ) (ring : Ring) (vmid : ℕ) (sync : Bool) :
    ∃ t, s.amdgpuVmFlush threshold ring vmid sync = t ∧
      t.freed = (s.marks ring.engine_type).filter (!Full s.full_eng_mask ·) ∧
      t.freed_count =
        s.freed_count - ((s.marks ring.engine_type).filter (Full s.full_eng_mask)).length ∧
      (∀ engine, (t.inv_tlb_sync_info engine).freed_count =
        if engine = ring.engine_type then
          (s.inv_tlb_sync_info engine).freed_count -
            (s.freed.filter fun bo_va => !bo_va.marked engine).length
        else (s.inv_tlb_sync_info engine).freed_count) ∧
      t.full_eng_mask = s.full_eng_mask ∧ t.ids = s.ids ∧
      t.log = s.log ++ s.emitted threshold ring vmid ++
        ((s.marks ring.engine_type).filter (Full s.full_eng_mask)).map .left ++
        if sync then [Event.pipelineSync] else [] := by
  refine ⟨_, rfl, ?_⟩
  unfold FlushVm.amdgpuVmFlush
  simp only [opuVmClearFreedMapping_eq]
  cases sync
  · refine ⟨rfl, rfl, fun engine => ?_, rfl, rfl, ?_⟩
    · by_cases he : engine = ring.engine_type
      · subst he
        simp
      · simp [he]
    · simp [FlushVm.emitted, FlushVm.marks]
  · refine ⟨rfl, rfl, fun engine => ?_, rfl, rfl, ?_⟩
    · by_cases he : engine = ring.engine_type
      · subst he
        simp
      · simp [he]
    · simp [FlushVm.emitted, FlushVm.marks]

/-- What is emitted does not leave the list. -/
theorem left_not_mem_emitted : Event.left bo_va ∉ s.emitted threshold ring vmid := by
  unfold FlushVm.emitted FlushVm.ptBases FlushVm.waits FlushVm.invalidations
  simp only [List.mem_append, not_or, List.mem_singleton, reduceCtorEq, not_false_eq_true,
    and_true]
  refine ⟨⟨?_, ?_⟩, ?_⟩
  · split <;> simp
  · split <;> simp
  · split
    · split <;> simp
    · simp

/-- The fence of a flush is that of its engine and VMID. -/
theorem fence_mem_emitted {vmid' seqno : ℕ}
    (h : Event.fence engine vmid seqno ∈ s.emitted threshold ring vmid') :
    engine = ring.engine_type ∧ vmid = vmid' := by
  unfold FlushVm.emitted FlushVm.ptBases FlushVm.waits FlushVm.invalidations at h
  simp only [List.mem_append, List.mem_singleton] at h
  rcases h with ((h | h) | h) | h
  · split at h <;> simp at h
  · split at h <;> simp at h
  · split at h
    · split at h <;> simp at h
    · simp at h
  · cases h
    exact ⟨rfl, rfl⟩

/-! ### What is invalidated -/

theorem Invalidated.append {log l : List Event} (h : Invalidated log engine bo_va) :
    Invalidated (log ++ l) engine bo_va := by
  obtain ⟨vmid, start_addr, end_addr, hmem, hcovers⟩ := h
  refine ⟨vmid, start_addr, end_addr, ?_, hcovers⟩
  rw [List.drop_append]
  exact List.mem_append_left _ hmem

/-- The range of one page covers it. -/
theorem FreedBoVa.OnePage.covers (h : bo_va.OnePage) :
    Covers bo_va.base_addr (sub64 (u64 (bo_va.base_addr + bo_va.size_in_bytes)) 1) bo_va := by
  refine .inr fun page hlo hhi => ?_
  have hlt := bo_va.last_lt
  rcases h with h | ⟨hstart, hoffset⟩
  · omega
  · obtain rfl : page = bo_va.last := by omega
    have hbase : bo_va.base_addr = 4096 * bo_va.last := by
      unfold FreedBoVa.base_addr u64 wrap
      rw [hoffset, Nat.shiftLeft_eq]
      omega
    have hsize : bo_va.size_in_bytes = 4096 := by
      unfold FreedBoVa.size_in_bytes
      rw [hoffset, hstart]
      unfold sub64 u64 wrap
      rw [Nat.shiftLeft_eq]
      omega
    rw [hbase, hsize]
    unfold sub64 u64 wrap
    omega

/-! ### The invariant -/

/-- What the VM is between two steps. -/
structure FlushVm.Inv (engine_num : ℕ) (s : FlushVm) : Prop where
  at_le : ∀ bo_va ∈ s.freed, bo_va.freed_at ≤ s.log.length
  marked : ∀ bo_va ∈ s.freed, ∀ engine, bo_va.marked engine → Invalidated s.log engine bo_va
  engine_count : ∀ engine < engine_num, (s.inv_tlb_sync_info engine).freed_count =
    ((s.freed.filter fun bo_va => !bo_va.marked engine).length : ℤ)
  vm_count : s.freed_count = (s.freed.length : ℤ)
  left : ∀ i bo_va, s.log[i]? = some (.left bo_va) → ∀ engine, s.full_eng_mask.testBit engine →
    Invalidated (s.log.take i) engine bo_va
  recorded : ∀ engine vmid seqno, .fence engine vmid seqno ∈ s.log →
    (s.ids vmid).testBit engine

variable {engine_num : ℕ}

/-- A mapping that lacks a mark is covered by what the flush emits. -/
theorem invalidated_of_unmarked (hs : s.Inv engine_num)
    (hok : FlushOk threshold engine_num s (.flush ring vmid sync)) (hmem : bo_va ∈ s.freed)
    (hm : bo_va.marked ring.engine_type = false) :
    Invalidated (s.log ++ s.emitted threshold ring vmid) ring.engine_type bo_va := by
  obtain ⟨hengine, hswitch, hone, -⟩ := hok
  have hunmarked : bo_va ∈ s.freed.filter fun bo_va => !bo_va.marked ring.engine_type :=
    List.mem_filter.2 ⟨hmem, by rw [hm]; rfl⟩
  have hcount : (s.inv_tlb_sync_info ring.engine_type).freed_count ≠ 0 := by
    rw [hs.engine_count _ hengine]
    have := List.length_pos_of_mem hunmarked
    omega
  -- What is emitted comes after the mapping was freed.
  have hemitted {start_addr end_addr : ℕ}
      (h : Event.invalidateTlb ring.engine_type vmid start_addr end_addr ∈
        s.invalidations threshold ring.engine_type vmid) :
      Event.invalidateTlb ring.engine_type vmid start_addr end_addr ∈
        (s.log ++ s.emitted threshold ring vmid).drop bo_va.freed_at := by
    rw [List.drop_append_of_le_length (hs.at_le _ hmem)]
    refine List.mem_append_right _ ?_
    exact List.mem_append_left _ (List.mem_append_right _ h)
  by_cases hthreshold : threshold ≤ (s.inv_tlb_sync_info ring.engine_type).freed_count
  · refine ⟨vmid, 0, 0, hemitted ?_, .inl ⟨rfl, rfl⟩⟩
    simp [FlushVm.invalidations, hcount, hthreshold]
  · refine ⟨vmid, _, _, hemitted ?_, (hone (Int.not_le.1 hthreshold) _ hmem hm).covers⟩
    have hrange : ¬(s.vmidSwitchInv ring.engine_type vmid = true ∨
        threshold ≤ (s.inv_tlb_sync_info ring.engine_type).freed_count) := by
      simp [hswitch, hthreshold]
    rw [FlushVm.invalidations, if_pos (.inr hcount), if_neg hrange]
    exact List.mem_map.2 ⟨bo_va, hunmarked, rfl⟩

theorem Invalidated.mark {log : List Event} (h : Invalidated log engine bo_va) :
    Invalidated log engine (bo_va.mark engine') := h

/-- A marked mapping of the list, after the flush that marked it. -/
theorem invalidated_of_mem_marks (hs : s.Inv engine_num)
    (hok : FlushOk threshold engine_num s (.flush ring vmid sync))
    (hmem : bo_va ∈ s.marks ring.engine_type) (hm : bo_va.marked engine) :
    Invalidated (s.log ++ s.emitted threshold ring vmid) engine bo_va := by
  obtain ⟨bo_va', hmem', rfl⟩ := List.mem_map.1 hmem
  by_cases hold : bo_va'.marked engine = true
  · exact ((hs.marked _ hmem' engine hold).append).mark
  · have hengine : ring.engine_type = engine := by simpa [hold] using hm
    subst hengine
    exact (invalidated_of_unmarked hs hok hmem' (Bool.eq_false_of_not_eq_true hold)).mark

/-- What lacks the mark of another engine stays on the list. -/
theorem unmarked_marks (hok : FlushOk threshold engine_num s (.flush ring vmid sync))
    (he : engine < engine_num) (hne : engine ≠ ring.engine_type) :
    (((s.marks ring.engine_type).filter (!Full s.full_eng_mask ·)).filter
        fun bo_va => !bo_va.marked engine).length =
      (s.freed.filter fun bo_va => !bo_va.marked engine).length := by
  have hstay : ((s.marks ring.engine_type).filter (!Full s.full_eng_mask ·)).filter
        (fun bo_va => !bo_va.marked engine) =
      (s.marks ring.engine_type).filter fun bo_va => !bo_va.marked engine := by
    rw [List.filter_filter]
    refine List.filter_congr fun bo_va h => ?_
    obtain ⟨bo_va', hmem, rfl⟩ := List.mem_map.1 h
    by_cases hfull : (bo_va'.mark ring.engine_type).inv_tlb_eng_mask = s.full_eng_mask
    · have hmarked : (bo_va'.mark ring.engine_type).marked engine = true := by
        rw [FreedBoVa.marked, hfull]
        exact hok.2.2.2 bo_va' hmem hfull engine he
      rw [hmarked]
      rfl
    · simp [Full, hfull]
  have hsame : (fun bo_va : FreedBoVa => !bo_va.marked engine) ∘
      (fun bo_va : FreedBoVa => bo_va.mark ring.engine_type) =
        fun bo_va : FreedBoVa => !bo_va.marked engine := by
    funext bo_va
    simp [Ne.symm hne]
  rw [hstay, FlushVm.marks, List.filter_map, List.length_map, hsame]

/-- What a flush takes from the list has been invalidated by then. -/
theorem invalidated_of_left {i : ℕ} (hs : s.Inv engine_num)
    (hok : FlushOk threshold engine_num s (.flush ring vmid sync)) (hi : s.log.length ≤ i)
    (h : (s.log ++ s.emitted threshold ring vmid ++
      ((s.marks ring.engine_type).filter (Full s.full_eng_mask)).map Event.left ++
        if sync then [Event.pipelineSync] else [])[i]? = some (.left bo_va))
    (hf : s.full_eng_mask.testBit engine) :
    Invalidated ((s.log ++ s.emitted threshold ring vmid ++
      ((s.marks ring.engine_type).filter (Full s.full_eng_mask)).map Event.left ++
        if sync then [Event.pipelineSync] else []).take i) engine bo_va := by
  rw [List.append_assoc _ (List.map _ _)] at h ⊢
  rcases Nat.lt_or_ge i (s.log ++ s.emitted threshold ring vmid).length with hlt | hge
  · rw [List.getElem?_append_left hlt, List.getElem?_append_right hi] at h
    exact absurd (List.mem_of_getElem? h) left_not_mem_emitted
  · rw [List.getElem?_append_right hge] at h
    rw [List.take_append, List.take_of_length_le hge]
    have hleft : bo_va ∈ (s.marks ring.engine_type).filter (Full s.full_eng_mask) := by
      have hmem := List.mem_of_getElem? h
      cases sync <;> simpa using hmem
    obtain ⟨hmem, hfull⟩ := List.mem_filter.1 hleft
    have hmask : bo_va.inv_tlb_eng_mask = s.full_eng_mask := by simpa [Full] using hfull
    refine (invalidated_of_mem_marks hs hok hmem ?_).append
    rw [FreedBoVa.marked, hmask]
    exact hf

/-- **A flush keeps the invariant.** -/
theorem FlushVm.Inv.flush (hs : s.Inv engine_num)
    (hok : FlushOk threshold engine_num s (.flush ring vmid sync)) :
    (s.amdgpuVmFlush threshold ring vmid sync).Inv engine_num := by
  obtain ⟨t, ht, hfreed, hvm, hengine, hfull, hids, hlog⟩ :=
    amdgpuVmFlush_spec s threshold ring vmid sync
  rw [ht]
  have hmem {bo_va : FreedBoVa} (h : bo_va ∈ t.freed) : bo_va ∈ s.marks ring.engine_type := by
    rw [hfreed] at h
    exact (List.mem_filter.1 h).1
  have hlen : s.log.length ≤ t.log.length := by
    rw [hlog]
    simp only [List.length_append]
    omega
  refine ⟨fun bo_va h => ?_, fun bo_va h engine hm => ?_, fun engine he => ?_, ?_,
    fun i bo_va h engine hf => ?_, fun engine vmid' seqno h => ?_⟩
  · obtain ⟨bo_va', hmem', rfl⟩ := List.mem_map.1 (hmem h)
    exact Nat.le_trans (hs.at_le bo_va' hmem') hlen
  · rw [hlog]
    exact (invalidated_of_mem_marks hs hok (hmem h) hm).append.append
  · rw [hengine engine, hfreed, hs.engine_count _ he]
    split
    · rename_i heq
      subst heq
      have hnil : (((s.marks ring.engine_type).filter (!Full s.full_eng_mask ·)).filter
          fun bo_va => !bo_va.marked ring.engine_type) = [] := by
        refine List.filter_eq_nil_iff.2 fun bo_va h => ?_
        obtain ⟨bo_va', -, rfl⟩ := List.mem_map.1 (List.mem_filter.1 h).1
        simp
      rw [hnil, Int.sub_self]
      rfl
    · rename_i hne
      rw [unmarked_marks hok he hne]
  · rw [hvm, hfreed, hs.vm_count]
    have hsplit := @List.length_eq_length_filter_add _ (s.marks ring.engine_type)
      (Full s.full_eng_mask)
    have hlength : (s.marks ring.engine_type).length = s.freed.length := List.length_map ..
    omega
  · rw [hfull] at hf
    rcases Nat.lt_or_ge i s.log.length with hi | hi
    · rw [hlog, List.append_assoc, List.append_assoc, List.getElem?_append_left hi] at h
      rw [hlog, List.append_assoc, List.append_assoc, List.take_append_of_le_length (by omega)]
      exact hs.left i bo_va h engine hf
    · rw [hlog] at h ⊢
      exact invalidated_of_left hs hok hi h hf
  · rw [hids]
    rw [hlog, List.mem_append, List.mem_append, List.mem_append] at h
    rcases h with ((h | h) | h) | h
    · exact hs.recorded _ _ _ h
    · obtain ⟨rfl, rfl⟩ := fence_mem_emitted h
      simpa [FlushVm.vmidSwitchInv] using hok.2.1
    · simp at h
    · cases sync <;> simp at h

/-- Freeing a mapping keeps the invariant. -/
theorem FlushVm.Inv.free {start last offset : ℕ} {hlast : last < 2 ^ 52} (hs : s.Inv engine_num) :
    (s.opuVmAddFreedMapping start last offset hlast).Inv engine_num := by
  refine ⟨fun bo_va h => ?_, fun bo_va h engine hm => ?_, fun engine he => ?_, ?_, hs.left,
    hs.recorded⟩
  · rcases List.mem_append.1 h with h | h
    · exact hs.at_le bo_va h
    · rw [List.mem_singleton.1 h]
      exact Nat.le_refl _
  · rcases List.mem_append.1 h with h | h
    · exact hs.marked bo_va h engine hm
    · rw [List.mem_singleton.1 h] at hm
      simp [FreedBoVa.marked] at hm
  · have hunmarked :
        FreedBoVa.marked ⟨start, last, offset, hlast, 0, s.log.length⟩ engine = false := by
      simp [FreedBoVa.marked]
    simp [FlushVm.opuVmAddFreedMapping, List.filter_append, hunmarked, hs.engine_count engine he]
  · simp [FlushVm.opuVmAddFreedMapping, hs.vm_count]

/-- The invariant is the promise. -/
theorem FlushVm.Inv.sound (hs : s.Inv engine_num) : s.Sound threshold engine_num := by
  refine ⟨hs.marked, hs.engine_count, hs.vm_count, hs.left, hs.recorded,
    fun ring vmid seqno sync hfence hcount engine vmid' start_addr end_addr h => ?_⟩
  obtain ⟨t, ht, -, -, -, -, -, hlog⟩ := amdgpuVmFlush_spec s threshold ring vmid sync
  have hswitch : s.vmidSwitchInv ring.engine_type vmid = false := by
    simp [FlushVm.vmidSwitchInv, hs.recorded _ _ _ hfence]
  have hnone : s.invalidations threshold ring.engine_type vmid = [] := by
    simp [FlushVm.invalidations, hswitch, hcount]
  rw [ht, hlog, List.append_assoc, List.append_assoc, List.drop_left] at h
  unfold FlushVm.emitted FlushVm.ptBases FlushVm.waits at h
  simp only [hnone, List.mem_append, List.mem_singleton, List.append_nil] at h
  rcases h with ((h | h) | h) | h | h
  · split at h <;> simp at h
  · split at h <;> simp at h
  · cases h
  · simp at h
  · cases sync <;> simp at h

/-- A VM after `opu_vm_init`, with any VMIDs. -/
def FlushVm.init (full_eng_mask : ℕ) (ids : ℕ → ℕ) : FlushVm where
  full_eng_mask := full_eng_mask
  ids := ids

theorem FlushVm.Inv.init (full_eng_mask : ℕ) (ids : ℕ → ℕ) :
    (FlushVm.init full_eng_mask ids).Inv engine_num where
  at_le _ h := by cases h
  marked _ h := by cases h
  engine_count _ _ := rfl
  vm_count := rfl
  left i _ h := by simp [FlushVm.init] at h
  recorded _ _ _ h := by cases h

/-- A step of a history. -/
def FlushStep (threshold : ℤ) (s : FlushVm) (op : FlushOp) (t : FlushVm) : Prop :=
  t = s.exec threshold op

/-- **No stale translation is left in any history of frees and flushes** whose flushes are on
engines that the VMID has, and invalidate ranges of one page only. -/
theorem invalidated_of_run {full_eng_mask : ℕ} {ids : ℕ → ℕ} {ops : List FlushOp}
    (h : Run (Guarded (FlushOk threshold engine_num) (FlushStep threshold))
      (FlushVm.init full_eng_mask ids) ops t) :
    t.Sound threshold engine_num := by
  refine (h.inv (I := FlushVm.Inv engine_num) (fun s op t hs hstep => ?_) (.init ..)).sound
  obtain ⟨hok, rfl⟩ := hstep
  cases op with
  | free start last offset hlast => exact hs.free
  | flush ring vmid sync => exact hs.flush hok

/-- A page is freed, both engines are flushed, and it leaves the list. -/
theorem invalidated_of_run_two :
    ∃ t, Run (Guarded (FlushOk 4 2) (FlushStep 4)) (FlushVm.init 3 fun _ => 3)
        [.free 5 5 0 (by decide), .flush ⟨0, 0⟩ 1 false, .flush ⟨1, 0⟩ 1 true] t ∧
      t.freed = [] ∧ t.Sound 4 2 := by
  have hrun : Run (Guarded (FlushOk 4 2) (FlushStep 4)) (FlushVm.init 3 fun _ => 3)
      [.free 5 5 0 (by decide), .flush ⟨0, 0⟩ 1 false, .flush ⟨1, 0⟩ 1 true] _ :=
    .cons ⟨trivial, rfl⟩ (.cons ⟨by decide, rfl⟩ (.cons ⟨by decide, rfl⟩ (.nil _)))
  exact ⟨_, hrun, by decide, invalidated_of_run hrun⟩

/-- **A flush does not record its engine, and of two freed pages the first keeps its
translation**: the range that is invalidated starts at the last. -/
theorem first_page_keeps_translation :
    (∃ t, Run (FlushStep 4) (FlushVm.init 1 fun _ => 0) [.flush ⟨0, 0⟩ 1 false] t ∧
      t.ids 1 = 0 ∧ ¬t.Sound 4 1) ∧
    ∃ t, Run (FlushStep 4) (FlushVm.init 3 fun _ => 3)
        [.free 5 6 0 (by decide), .flush ⟨0, 0⟩ 1 false] t ∧
      t.log = [.invalidateTlb 0 1 (6 * 4096) (8 * 4096 - 1), .fence 0 1 1] ∧ ¬t.Sound 4 2 := by
  refine ⟨⟨_, .cons rfl (.nil _), rfl, fun h => ?_⟩, _, .cons rfl (.cons rfl (.nil _)), by decide,
    fun h => ?_⟩
  · have hrecorded := h.recorded 0 1 1 (by decide)
    exact absurd hrecorded (by decide)
  · obtain ⟨vmid, start_addr, end_addr, hmem, hcovers⟩ :=
      h.marked ⟨5, 6, 0, by decide, 1, 0⟩ (by decide) 0 (by decide)
    have hlog : Event.invalidateTlb 0 vmid start_addr end_addr ∈
        [.invalidateTlb 0 1 (6 * 4096) (8 * 4096 - 1), Event.fence 0 1 1] := hmem
    simp only [List.mem_cons, Event.invalidateTlb.injEq, List.not_mem_nil, reduceCtorEq,
      or_false] at hlog
    obtain ⟨-, -, rfl, rfl⟩ := hlog
    rcases hcovers with hzero | hpages
    · omega
    · have := hpages 5 (by decide) (by decide)
      omega

end

end Codrive.Vm
