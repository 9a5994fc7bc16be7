/-
# Freeing the page tables

The walk of `amdgpu_vm_free_pts` goes through the tree depth first (`freeLoop_eq`), so it visits
every entry once, after what is below it, and every object is freed once (`freePts_once`).
`tables_of_run` puts the results on runs together.

`amdgpu_vm_free_table` has no body in the repository.  `FreesTable` is what its callers rely on: it
frees the objects that go with the entry, and leaves the entry without entries.
-/

import Codrive.Vm.PageTablesRuns
import Mathlib.Algebra.BigOperators.Group.List.Basic

namespace Codrive.Vm.PageTables

open Codrive.Basis

/-- **What `amdgpu_vm_free_table` is for.** -/
structure FreesTable (free : State → List ℕ → State) : Prop where
  freed : ∀ s p o, (free s p).freed o = s.freed o + (s.entry p).own.count o
  entries : ∀ s p, ((free s p).entry p).entries = false
  other : ∀ s p q, q ≠ p → (free s p).entry q = s.entry q

namespace State

variable {cfg : Config} {s : State} {free : State → List ℕ → State}

/-- The number of entries below an entry. -/
def widthOf (cfg : Config) (path : List ℕ) : ℕ := opuVmNumEntries cfg.mgr (levelOf cfg path)

/-- The levels below the root. -/
def heightOf (cfg : Config) : ℕ := OPU_VM_SPE - cfg.mgr.root_level

/-- The cursor is at this level. -/
structure At (cfg : Config) (c : Cursor) : Prop where
  level : c.level = levelOf cfg c.path
  level_le : c.level ≤ OPU_VM_SPE

/-! ### The cursor -/

/-- The shift of a level, from the one below. -/
theorem levelShift_pred {level : ℕ} (hpos : 0 < level) (hle : level ≤ OPU_VM_SPE) :
    cfg.mgr.levelShift (level - 1) = cfg.mgr.levelShift level + cfg.mgr.frame_size level := by
  unfold VmMgr.levelShift opuVmLevelShift
  have hsub : OPU_VM_SPE - (level - 1) = (OPU_VM_SPE - level) + 1 := by omega
  rw [hsub, shiftLoop]
  have hlevel : OPU_VM_SPE - (OPU_VM_SPE - level) = level := by omega
  rw [hlevel]

/-- The cursor is at the first page of its table. -/
def Aligned (cfg : Config) (c : Cursor) : Prop :=
  2 ^ (cfg.mgr.levelShift c.level + cfg.mgr.frame_size c.level) ∣ c.pfn

/-- From there the way down is through the first entries. -/
theorem descendAll_path {t : Tables} (ht : ∀ p, t p = true → levelOf cfg p ≤ OPU_VM_PTE) (n : ℕ)
    {c : Cursor} (hc : At cfg c) (hal : Aligned cfg c) :
    (descendAll cfg.mgr t n c).path = Dfs.descend t n c.path ∧
      At cfg (descendAll cfg.mgr t n c) := by
  induction n generalizing c with
  | zero => exact ⟨rfl, hc⟩
  | succ n ih =>
    unfold descendAll Dfs.descend opuVmPtDescendant
    by_cases hpath : t c.path = true
    · rw [if_pos hpath, if_pos hpath]
      dsimp only
      have hlevel : c.level + 1 ≤ OPU_VM_SPE := Nat.succ_le_succ (hc.level ▸ ht c.path hpath)
      -- The index is zero.
      have hindex : c.pfn >>> cfg.mgr.levelShift c.level &&&
          opuVmEntriesMask cfg.mgr c.level = 0 := by
        obtain ⟨k, hk⟩ := hal
        unfold opuVmEntriesMask
        rw [Nat.one_shiftLeft, Nat.and_two_pow_sub_one_eq_mod, Nat.shiftRight_eq_div_pow, hk,
          Nat.pow_add, Nat.mul_assoc, Nat.mul_div_cancel_left _ (Nat.two_pow_pos _),
          Nat.mul_mod_right]
      rw [hindex]
      have hshift := @levelShift_pred cfg (c.level + 1) (Nat.succ_pos _) hlevel
      rw [Nat.add_sub_cancel] at hshift
      have hnext : At cfg ⟨c.pfn, 0 :: c.path, c.level + 1⟩ := by
        refine ⟨?_, hlevel⟩
        dsimp only
        rw [hc.level]
        unfold levelOf
        rw [List.length_cons, Nat.add_assoc]
      refine ih hnext ?_
      unfold Aligned
      dsimp only
      rw [← hshift]
      exact (Nat.pow_dvd_pow 2 (Nat.le_add_right _ _)).trans hal
    · rw [if_neg hpath, if_neg hpath]
      exact ⟨rfl, hc⟩

/-- **Where the cursor moves on to.** -/
theorem nextDfs_path {t : Tables} (ht : ∀ p, t p = true → levelOf cfg p ≤ OPU_VM_PTE) {c : Cursor}
    (hc : At cfg c) :
    (amdgpuVmPtNextDfs cfg.mgr t c).map Cursor.path =
        Dfs.next (widthOf cfg) t (heightOf cfg) c.path ∧
      ∀ c' ∈ amdgpuVmPtNextDfs cfg.mgr t c, At cfg c' := by
  obtain ⟨pfn, path, level⟩ := c
  obtain ⟨hlevel, hle⟩ := hc
  dsimp only at hlevel hle
  subst hlevel
  unfold amdgpuVmPtNextDfs
  cases path with
  | nil => exact ⟨rfl, nofun⟩
  | cons i p =>
    have hlevel : levelOf cfg (i :: p) = levelOf cfg p + 1 := by
      unfold levelOf
      rw [List.length_cons, Nat.add_assoc]
    dsimp only [amdgpuVmPtSibling, Dfs.next]
    rw [hlevel, Nat.add_sub_cancel]
    by_cases hlast : i + 1 = widthOf cfg p
    · have hlast' : i + 1 = opuVmNumEntries cfg.mgr (levelOf cfg p) := hlast
      rw [if_pos hlast, if_pos hlast']
      refine ⟨rfl, fun c' hc' => ?_⟩
      obtain rfl := Option.mem_some_iff.1 hc'
      exact ⟨rfl, by dsimp only; omega⟩
    · have hlast' : i + 1 ≠ opuVmNumEntries cfg.mgr (levelOf cfg p) := hlast
      rw [if_neg hlast, if_neg hlast']
      have hheight : OPU_VM_SPE - (levelOf cfg p + 1) = heightOf cfg - (p.length + 1) := by
        unfold levelOf heightOf
        omega
      have hat : At cfg ⟨alignDown (u64 (pfn + 1 <<< cfg.mgr.levelShift (levelOf cfg p)))
          (1 <<< cfg.mgr.levelShift (levelOf cfg p)), (i + 1) :: p, levelOf cfg p + 1⟩ :=
        ⟨hlevel.symm, by dsimp only; omega⟩
      have hal : Aligned cfg ⟨alignDown (u64 (pfn + 1 <<< cfg.mgr.levelShift (levelOf cfg p)))
          (1 <<< cfg.mgr.levelShift (levelOf cfg p)), (i + 1) :: p, levelOf cfg p + 1⟩ := by
        have hshift := @levelShift_pred cfg (levelOf cfg p + 1) (Nat.succ_pos _) (by omega)
        rw [Nat.add_sub_cancel] at hshift
        unfold Aligned alignDown
        dsimp only
        rw [← hshift, Nat.one_shiftLeft]
        exact Nat.dvd_mul_left _ _
      obtain ⟨hpath, hat'⟩ := descendAll_path ht (heightOf cfg - (p.length + 1)) hat hal
      dsimp only at hpath ⊢
      rw [hheight, Option.map_some, hpath]
      refine ⟨rfl, fun c' hc' => ?_⟩
      obtain rfl := Option.mem_some_iff.1 hc'
      exact hat'

/-! ### The loop -/

/-- What the loop frees, and that it goes on in the same tree. -/
theorem freeTableAt_tables (hfree : FreesTable free) {p : List ℕ} {t : State}
    (h : freeTableAt free s p = some t) :
    t = free s p ∧ t.tables p = false ∧ ∀ q, q ≠ p → t.tables q = s.tables q := by
  unfold freeTableAt at h
  split_ifs at h
  obtain rfl := Option.some.inj h
  exact ⟨rfl, hfree.entries s p, fun q hq => congrArg Entry.entries (hfree.other s p q hq)⟩

/-- **The loop of the driver goes depth first.** -/
theorem freeLoop_eq (hfree : FreesTable free) (n : ℕ) {c : Cursor} (hc : At cfg c)
    (hs : ∀ p, s.tables p = true → levelOf cfg p ≤ OPU_VM_PTE) :
    freeLoop cfg.mgr free n c s =
      Dfs.loop (widthOf cfg) tables (freeTableAt free) (heightOf cfg) n c.path s := by
  induction n generalizing c s with
  | zero => rfl
  | succ n ih =>
    obtain ⟨hpath, hat⟩ := nextDfs_path hs hc
    rw [freeLoop, Dfs.loop]
    cases hv : freeTableAt free s c.path with
    | none => rfl
    | some t =>
      obtain ⟨-, hgone, hkept⟩ := freeTableAt_tables hfree hv
      dsimp only
      rw [← hpath]
      cases hnext : amdgpuVmPtNextDfs cfg.mgr s.tables c with
      | none => rfl
      | some c' =>
        refine ih (hat c' hnext) fun p hp => hs p ?_
        by_cases hpc : p = c.path
        · rw [hpc, hgone] at hp
          cases hp
        · rwa [hkept p hpc] at hp

/-- Entries that are freed one after the other, each before its parent. -/
theorem foldlM_freeTableAt (hfree : FreesTable free) {l : List (List ℕ)}
    (hl : l.Pairwise fun a b => a ≠ b ∧ ∀ i, b ≠ i :: a)
    (hin : ∀ p ∈ l, p = [] ∨ s.tables p.tail = true) :
    ∃ t, l.foldlM (freeTableAt free) s = some t ∧ ∀ o,
      t.freed o = s.freed o + (l.map fun p => (s.entry p).own.count o).sum := by
  induction l generalizing s with
  | nil => exact ⟨s, rfl, fun o => rfl⟩
  | cons p l ih =>
    obtain ⟨hp, hl⟩ := List.pairwise_cons.1 hl
    have hv : freeTableAt free s p = some (free s p) := if_pos (hin p List.mem_cons_self)
    obtain ⟨-, -, hkept⟩ := freeTableAt_tables hfree hv
    have hin' : ∀ q ∈ l, q = [] ∨ (free s p).tables q.tail = true := by
      intro q hq
      rcases hin q (List.mem_cons_of_mem p hq) with hnil | htail
      · exact .inl hnil
      · rcases q with _ | ⟨i, r⟩
        · exact .inl rfl
        · refine .inr ?_
          have hne : r ≠ p := by
            rintro rfl
            exact (hp _ hq).2 i rfl
          rw [List.tail_cons] at htail ⊢
          rw [hkept r hne]
          exact htail
    obtain ⟨t, ht, hfreed⟩ := ih hl hin'
    refine ⟨t, ?_, fun o => ?_⟩
    · rw [List.foldlM_cons, hv]
      exact ht
    · have hsame : (l.map fun q => ((free s p).entry q).own.count o) =
          l.map fun q => (s.entry q).own.count o := by
        refine List.map_congr_left fun q hq => ?_
        rw [hfree.other s p q (hp q hq).1.symm]
      rw [hfreed, hsame, hfree.freed, List.map_cons, List.sum_cons, Nat.add_assoc]

/-- The root has an entry for the first page. -/
theorem numEntries_root_pos (hmax : 0 < cfg.mgr.max_pfn) :
    0 < opuVmNumEntries cfg.mgr cfg.mgr.root_level := by
  unfold opuVmNumEntries rootEntries roundUp
  rw [if_pos rfl, Nat.one_shiftLeft, Nat.shiftRight_eq_div_pow]
  generalize opuVmLevelShift cfg.mgr.frame_size cfg.mgr.root_level = shift
  have hpos : 0 < 2 ^ shift := Nat.two_pow_pos shift
  rw [Nat.mul_div_cancel _ hpos]
  exact Nat.div_pos (by omega) hpos

/-- A sum with one term. -/
theorem sum_map_once {α : Type*} [DecidableEq α] {l : List α} (hl : l.Nodup) {a : α} (ha : a ∈ l)
    {f : α → ℕ} (hf : ∀ b ≠ a, f b = 0) : (l.map f).sum = f a := by
  rw [List.sum_map_eq_nsmul_single a f fun b hb _ => hf b hb, List.count_eq_one_of_mem hl ha,
    one_nsmul]

/-- **Freeing the whole tree frees every object once.** -/
theorem freePts_once (hfree : FreesTable free) (h : Inv cfg s)
    (hmax : 0 < cfg.mgr.max_pfn) :
    ∃ n t, amdgpuVmFreePts cfg.mgr free n s = some t ∧ ∀ o < s.created, t.freed o = 1 := by
  have hlevel := h.shape.level
  have hwidth : ∀ p, s.tables p = true → 0 < widthOf cfg p := by
    intro p _
    unfold widthOf
    by_cases hp : levelOf cfg p = cfg.mgr.root_level
    · rw [hp]
      exact numEntries_root_pos hmax
    · unfold opuVmNumEntries
      rw [if_neg hp, Nat.one_shiftLeft]
      exact Nat.two_pow_pos _
  have hheight : ∀ p, s.tables p = true → p.length < heightOf cfg := by
    intro p hp
    have hle : levelOf cfg p + 1 ≤ OPU_VM_SPE := Nat.succ_le_succ (hlevel p hp)
    unfold levelOf at hle
    unfold heightOf
    omega
  have hstart : At cfg (opuVmPtStart cfg.mgr 0) :=
    ⟨rfl, Nat.le_succ_of_le cfg.mgr.root_level_le⟩
  obtain ⟨hfirst, hat⟩ := descendAll_path hlevel (heightOf cfg) hstart (Nat.dvd_zero _)
  obtain ⟨t, ht, hfreed⟩ := foldlM_freeTableAt (s := s) hfree
    (Dfs.pairwise_order (heightOf cfg)) fun p hp => by
      have hin := (@Dfs.mem_order (widthOf cfg) _ _ _ hheight).1 hp
      cases p with
      | nil => exact .inl rfl
      | cons i p => exact .inr hin.2.1
  refine ⟨(Dfs.order (widthOf cfg) s.tables (heightOf cfg)).length, t, ?_, fun o ho => ?_⟩
  · unfold amdgpuVmFreePts amdgpuVmPtFirstDfs
    have hvisit : ∀ s p s', freeTableAt free s p = some s' →
        ∀ q, q ≠ p → s'.tables q = s.tables q :=
      fun _ _ _ hv => (freeTableAt_tables hfree hv).2.2
    have hloop := freeLoop_eq hfree (Dfs.order (widthOf cfg) s.tables (heightOf cfg)).length hat
      hlevel
    rw [hfirst] at hloop
    exact hloop.trans ((Dfs.loop_eq hvisit hwidth fun _ => rfl).trans ht)
  · rw [hfreed]
    rcases h.owned.owner o ho nofun with ⟨hfreed, hno⟩ | ⟨hfreed, p, hp, hother⟩
    · have hzero : ((Dfs.order (widthOf cfg) s.tables (heightOf cfg)).map fun p =>
          (s.entry p).own.count o).sum = 0 := by
        refine List.sum_eq_zero fun x hx => ?_
        obtain ⟨p, -, rfl⟩ := List.mem_map.1 hx
        exact hno p
      rw [hzero, hfreed]
    · -- The owner is in the tree.
      have hin : s.Exists cfg p := by
        refine not_not.1 fun hout => ?_
        rw [h.shape.outside p hout] at hp
        exact nomatch hp
      have hmem : p ∈ Dfs.order (widthOf cfg) s.tables (heightOf cfg) :=
        (Dfs.mem_order hheight).2 hin
      rw [sum_map_once (Dfs.nodup_order _) hmem hother, hp, hfreed]

/-- **The page tables, in every run of allocations that meet the condition.**  Nothing in them
refers to an object that was freed.  A further allocation goes through, or fails and leaves them as
they were, and freeing the whole tree then frees every object once. -/
theorem tables_of_run (hfree : FreesTable free) (hmax : 0 < cfg.mgr.max_pfn) {calls : List Call}
    (hrun : Run (Guarded (StepOk cfg) (Step cfg)) {} calls s) :
    (∀ p o, (s.entry p).Refers o → s.Live o) ∧
      (∀ o off v, s.freed o = 0 → s.pde o off = some v → s.Live v.1) ∧
      (∀ c : Call, s.Exists cfg c.path → StepOk cfg s c → ∃ err t,
        s.amdgpuVmAllocPts cfg c.path c.need_spe c.env = some (err, t) ∧
          (err ≠ none → Unchanged s t) ∧ (err = none → (t.entry c.path).mo.isSome = true)) ∧
      ∃ n t, amdgpuVmFreePts cfg.mgr free n s = some t ∧ ∀ o < s.created, t.freed o = 1 := by
  have h := Inv.of_run hrun
  refine ⟨h.shape.live, h.shape.pde, fun c hpath hok => ?_, freePts_once hfree h hmax⟩
  obtain ⟨err, t, ht, -, hfails, hdone⟩ := h.alloc hpath hok
  exact ⟨err, t, ht, hfails, hdone⟩

/-! ### An example -/

/-- Two levels of tables below the root, both small enough to share pages. -/
def smallTables : Config where
  mgr :=
    { frame_size := fun level =>
        if level = OPU_VM_SPE then 4 else if level = OPU_VM_PTE then 5 else 9
      fragment_size := 9
      root_level := OPU_VM_PDE
      max_pfn := 2048
      use_64k_page := true
      root_level_le := by decide
      frame_size_le := fun level => by split_ifs <;> decide
      huge_lt := by decide
      fragment_size_lt := by decide
      spe := rfl
      max_pfn_le := by decide
      address_lt := by decide
      shift_le := by decide }
  use_offset := true

/-- What `amdgpu_vm_free_table` could be. -/
def freeTable (s : State) (path : List ℕ) : State :=
  { s with
    entry := Function.update s.entry path {}
    freed := fun o => s.freed o + (s.entry path).own.count o }

theorem freesTable_freeTable : FreesTable freeTable where
  freed _ _ _ := rfl
  entries s p := by
    unfold freeTable
    dsimp only
    rw [Function.update_self]
  other s p q hq := Function.update_of_ne hq ..

/-- A table that cannot be created, one that can, and its neighbour in the same page. -/
theorem tables_of_run_neighbours :
    ∃ s, Run (Guarded (StepOk smallTables) (Step smallTables)) {}
        [⟨[], false, {}⟩, ⟨[0], true, { create := false }⟩, ⟨[0], true, {}⟩, ⟨[1], false, {}⟩] s ∧
      (s.entry [1]).mo = (s.entry [0]).shared_mo ∧
      ∃ n t, amdgpuVmFreePts smallTables.mgr freeTable n s = some t ∧
        ∀ o < s.created, t.freed o = 1 := by
  have hrun : ∃ s, Run (Guarded (StepOk smallTables) (Step smallTables)) {}
        [⟨[], false, {}⟩, ⟨[0], true, { create := false }⟩, ⟨[0], true, {}⟩, ⟨[1], false, {}⟩] s ∧
      (s.entry [1]).mo = (s.entry [0]).shared_mo :=
    ⟨_, .cons ⟨.inr (.inr (.inl rfl)), trivial, none, rfl⟩
      (.cons ⟨.inr (.inr (.inr ⟨nofun, .inl rfl⟩)), ⟨trivial, rfl, by decide⟩, some .create, rfl⟩
      (.cons ⟨.inr (.inr (.inr ⟨nofun, .inl rfl⟩)), ⟨trivial, rfl, by decide⟩, none, rfl⟩
      (.cons ⟨.inr (.inr (.inr ⟨nofun, .inl rfl⟩)), ⟨trivial, rfl, by decide⟩, none, rfl⟩
        (.nil _)))),
      rfl⟩
  obtain ⟨s, hrun, hshared⟩ := hrun
  exact ⟨s, hrun, hshared,
    (tables_of_run freesTable_freeTable (by decide) hrun).2.2.2⟩

/-- The parent cannot be updated: the page is freed, and the entry that keeps it still has it.  The
neighbour's table is then looked for in freed memory. -/
theorem failed_update_keeps_freed_page :
    ∃ s t, Run (Step smallTables) {} [⟨[], false, {}⟩] s ∧ s.Exists smallTables [0] ∧
      s.amdgpuVmAllocPts smallTables [0] false { update := false } = some (some .update, t) ∧
      (t.entry [0]).shared_mo = some 1 ∧ t.freed 1 = 1 ∧
      t.Exists smallTables [1] ∧ t.amdgpuVmAllocPts smallTables [1] false {} = none :=
  ⟨_, _, .cons ⟨trivial, none, rfl⟩ (.nil _), ⟨trivial, rfl, by decide⟩, rfl, rfl, rfl,
    ⟨trivial, rfl, by decide⟩, rfl⟩

end State

end Codrive.Vm.PageTables
