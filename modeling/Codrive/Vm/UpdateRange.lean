/-
# The pages that are written, and their addresses

Update by update, the pages of the range are written once each (`Covered`), and the walk comes to an
end.  The addresses are right as long as `dst` moves on with the pages, which it does for entries of
huge pages and of base pages.  For the entries of the pages of 4K below one of 64K it moves on by
64K each, so a table of these is right only as the last one (`Addressed`).  So the range is mapped
if and only if the root has entries for it and, where such tables are used, at most 16 pages of it
are not in huge pages (`mapped_iff`).
-/

import Codrive.Vm.UpdateWalk

namespace Codrive.Vm

open Codrive.Basis

variable {m : VmMgr} {p : Params} {t : Tables} {d k start end_ dst level : ℕ} {w w' : Walk}

/-! ### Pages -/

/-- The pages from `start` on have been written, each once, and no other. -/
structure Covered (m : VmMgr) (start : ℕ) (w : Walk) : Prop where
  inTree : ∀ u ∈ w.updates, u.InTree m
  count : ∀ page, (w.updates.flatMap (Update.leaves m)).countP (covers page) =
    if start ≤ page ∧ page < w.frag_start then 1 else 0

/-- An update writes the pages from its first one on. -/
theorem Update.countP_leaves (u : Update) (page : ℕ) :
    (u.leaves m).countP (covers page) =
      if u.firstPage m ≤ page ∧ page < u.firstPage m + u.count * 2 ^ m.levelShift u.level
      then 1 else 0 := by
  rw [u.leaves_eq]
  exact countP_entries ..

/-- **One more update** covers the next pages. -/
theorem Covered.round (h : Covered m start w) (hle : start ≤ w.frag_start)
    (hround : Round m end_ level w w') : Covered m start w' := by
  obtain ⟨u, hupdates, hinTree, hfirst, -, hlast⟩ := hround.update
  have hlt := hround.lt
  constructor
  · intro v hv
    rw [hupdates, List.mem_append, List.mem_singleton] at hv
    rcases hv with hv | rfl
    · exact h.inTree v hv
    · exact hinTree
  · intro page
    rw [hupdates, List.flatMap_append, List.countP_append, h.count, List.flatMap_singleton,
      u.countP_leaves, hfirst, hlast]
    split <;> split <;> split <;> omega

/-! ### Addresses -/

/-- `dst` is the address of the next page. -/
def Right (start dst : ℕ) (w : Walk) : Prop :=
  w.dst = u64 (dst + 0x1000 * (w.frag_start - start))

/-- Every update has the address of its first page. -/
def AllRight (m : VmMgr) (start dst : ℕ) (w : Walk) : Prop :=
  ∀ u ∈ w.updates, u.addr = u64 (dst + 0x1000 * (u.firstPage m - start))

/-- One more update is right if `dst` is. -/
theorem allRight_round_iff (hround : Round m end_ level w w') :
    AllRight m start dst w' ↔ AllRight m start dst w ∧ Right start dst w := by
  obtain ⟨u, hupdates, -, hfirst, haddr, -⟩ := hround.update
  have hu : u.addr = u64 (dst + 0x1000 * (u.firstPage m - start)) ↔ Right start dst w := by
    rw [Right, haddr, hfirst]
  rw [← hu, AllRight, hupdates]
  constructor
  · intro h
    exact ⟨fun v hv => h v (List.mem_append_left _ hv), h u (by simp)⟩
  · rintro ⟨hall, hright⟩ v hv
    rw [List.mem_append, List.mem_singleton] at hv
    rcases hv with hv | rfl
    · exact hall v hv
    · exact hright

/-- `dst` moves on with the pages. -/
theorem Right.round (h : Right start dst w) (hle : start ≤ w.frag_start)
    (hround : Round m end_ level w w') (hbytes : bytesPerPage m level = 0x1000) :
    Right start dst w' := by
  have hlt := hround.lt
  rw [Right] at h ⊢
  rw [hround.dst, h, hbytes]
  have hsum : 0x1000 * (w'.frag_start - start) =
      0x1000 * (w.frag_start - start) + (w'.frag_start - w.frag_start) * 0x1000 := by omega
  rw [hsum, u64, u64, u64, wrap, wrap, wrap, Nat.mod_add_mod, Nat.add_assoc]

/-- **`dst` moves on too far** with a table of pages of 4K. -/
theorem Right.not_round (h : Right start dst w) (hle : start ≤ w.frag_start)
    (hround : Round m end_ level w w') (hbytes : bytesPerPage m level = 0x10000)
    (hpages : w'.frag_start = w.frag_start + 16) : ¬Right start dst w' := by
  rw [Right] at h ⊢
  rw [hround.dst, h, hbytes, hpages]
  have hsum : w.frag_start + 16 - start = w.frag_start - start + 16 := by omega
  rw [hsum]
  generalize w.frag_start - start = n
  rw [u64, u64, u64, wrap, wrap, wrap]
  omega

/-! ### Huge pages -/

/-- When huge pages can be used from a page on. -/
theorem opuVmCanHugePage_iff (hle : k ≤ end_) (hend : end_ < 2 ^ 64) :
    opuVmCanHugePage m p k end_ = true ↔
      (p.use_huge_page = true ∧ p.system = false) ∧ hugePageCount m ≤ end_ - k ∧
        hugePageCount m ∣ k := by
  have hmask : (k &&& (hugePageCount m - 1) == 0) = true ↔ hugePageCount m ∣ k := by
    rw [beq_iff_eq, hugePageCount_eq, Nat.and_two_pow_sub_one_eq_mod]
    exact (Nat.dvd_iff_mod_eq_zero ..).symm
  rw [opuVmCanHugePage, Bool.and_eq_true, hmask, sub64_of_le hle hend]
  simp only [Bool.and_eq_true, Bool.not_eq_true', decide_eq_true_iff]
  tauto

/-- The rest of a range that begins where huge pages can be used. -/
theorem rest_of_huge (hroot : m.root_level ≤ OPU_VM_PDE)
    (hp : p.use_huge_page = true ∧ p.system = false) (hk : hugePageCount m ∣ k) :
    rest m p k end_ = (end_ - k) % hugePageCount m := by
  rw [rest, if_pos]
  simp [hp.1, hp.2, hroot, Nat.mod_eq_zero_of_dvd hk]

/-- The rest of a range that huge pages are not used for. -/
theorem rest_of_not_huge (hle : k ≤ end_) (hend : end_ < 2 ^ 64)
    (h : opuVmCanHugePage m p k end_ = false ∨ OPU_VM_PDE < m.root_level) :
    rest m p k end_ = end_ - k := by
  rw [rest]
  split
  · next hhuge =>
    simp only [Bool.and_eq_true, Bool.not_eq_true', decide_eq_true_iff, beq_iff_eq] at hhuge
    obtain ⟨⟨hp, hroot⟩, hmod⟩ := hhuge
    have hno := h.resolve_right (Nat.not_lt.2 hroot)
    refine Nat.mod_eq_of_lt (Nat.not_le.1 fun hcount => ?_)
    have hcan := (opuVmCanHugePage_iff (m := m) (p := p) hle hend).2
      ⟨hp, hcount, Nat.dvd_of_mod_eq_zero hmod⟩
    rw [hno] at hcan
    cases hcan
  · rfl

/-- Huge pages leave the rest as it is. -/
theorem rest_of_after_huge {last : ℕ} (hroot : m.root_level ≤ OPU_VM_PDE) (hlt : k ≤ last)
    (hlast : last ≤ end_) (hend : end_ < 2 ^ 64) (hcan : opuVmCanHugePage m p k end_ = true)
    (hdvd : hugePageCount m ∣ last) : rest m p last end_ = rest m p k end_ := by
  obtain ⟨hp, -, hk⟩ := (opuVmCanHugePage_iff (by omega) hend).1 hcan
  rw [rest_of_huge hroot hp hdvd, rest_of_huge hroot hp hk]
  have hsum : end_ - k = end_ - last + (last - k) := by omega
  obtain ⟨q, hq⟩ := Nat.dvd_sub hdvd hk
  rw [hsum, hq, Nat.add_mul_mod_self_left]

/-! ### A step -/

/-- What the addresses are like between the steps: right, and at a table of entries for pages no
huge page fits; or, where the pages of 4K have entries, right up to such a table, which is the last
one if the rest is that short; or wrong, and then the rest is longer. -/
inductive Addressed (m : VmMgr) (p : Params) (start end_ dst : ℕ) (w : Walk) : Prop
  | right (right : Right start dst w) (all : AllRight m start dst w)
      (rest_eq : needSpe m p = true → rest m p w.frag_start end_ = rest m p start end_)
      (small : w.frag_start < end_ → OPU_VM_PDE < w.cursor.level → needSpe m p = true →
        opuVmCanHugePage m p w.frag_start end_ = false ∨ OPU_VM_PDE < m.root_level)
  | last (spe : needSpe m p = true) (not_right : ¬Right start dst w) (all : AllRight m start dst w)
      (rest_iff : rest m p start end_ ≤ 16 ↔ w.frag_start = end_)
  | wrong (spe : needSpe m p = true) (not_all : ¬AllRight m start dst w)
      (long : 16 < rest m p start end_)

/-- All that holds between the steps. -/
structure Inv (m : VmMgr) (p : Params) (start end_ dst : ℕ) (w : Walk) : Prop where
  walking : Walking m p start end_ w
  covered : Covered m start w
  addressed : Addressed m p start end_ dst w

/-- The levels of the tables. -/
theorem level_le (hd : d ≤ m.radix.depth) : m.root_level + d ≤ OPU_VM_SPE := by
  have h₁ : d ≤ 4 - m.root_level := hd
  have h₂ : m.root_level ≤ 3 := m.root_level_le
  change m.root_level + d ≤ 4
  omega

/-- There is a level below all but the last. -/
theorem lt_depth (h : m.root_level + d < OPU_VM_SPE) : d < m.radix.depth := by
  have h₁ : m.root_level + d < 4 := h
  change d < 4 - m.root_level
  omega

/-- **Down a level.** -/
theorem Inv.down (h : Inv m p start end_ dst w) (hcursor : w.cursor = m.cursorAt d w.frag_start)
    (hlt : w.frag_start < end_) (hdown : GoesDown m p end_ d w.frag_start) :
    ∃ w', walkStep m p end_ w = some (.ok w') ∧ Inv m p start end_ dst w' ∧
      w'.frag_start = w.frag_start ∧ w'.cursor = m.cursorAt (d + 1) w.frag_start := by
  have hlevel : m.root_level + d < OPU_VM_SPE := by
    rcases hdown with h | ⟨h, -⟩ | ⟨h, -⟩
    · exact Nat.lt_trans h (by decide)
    · exact h ▸ by decide
    · exact h ▸ by decide
  refine ⟨_, walkStep_down hcursor hdown, ⟨?_, ⟨h.covered.inTree, h.covered.count⟩, ?_⟩, rfl, rfl⟩
  · refine {
      le := h.walking.le
      dvd := h.walking.dvd
      frag := h.walking.frag
      shaped := h.walking.shaped.allocPts (by
        rw [VmMgr.cursorAt, m.radix.path_length])
      done := fun hdone => absurd hdone (Nat.ne_of_lt hlt)
      more := fun _ => ⟨d + 1, lt_depth hlevel, rfl, fun hspe => ?_⟩ }
    have hpte : m.root_level + d = OPU_VM_PTE := Nat.succ.inj hspe
    rcases hdown with h | ⟨h, -⟩ | ⟨-, h⟩
    · rw [hpte] at h
      exact absurd h (by decide)
    · rw [hpte] at h
      exact absurd h (by decide)
    · exact h
  · cases h.addressed with
    | right right all rest_eq small =>
      refine .right right all rest_eq fun hmore hbelow hspe => ?_
      rcases hdown with h | ⟨-, h⟩ | ⟨h, -⟩
      · exact absurd hbelow (Nat.not_lt.2 h)
      · exact .inl h
      · refine small hmore ?_ hspe
        rw [hcursor]
        change 2 < m.root_level + d
        rw [h]
        decide
    | last spe not_right all rest_iff => exact .last spe not_right all rest_iff
    | wrong spe not_all long => exact .wrong spe not_all long

/-- **On from a table that is written.** -/
theorem Walking.moveOn (hw : Walking m p start end_ w) (hend : end_ ≤ coverage m)
    (hd : d ≤ m.radix.depth) (hcursor : w.cursor = m.cursorAt d w.frag_start)
    (hspe : m.root_level + d = OPU_VM_SPE → needSpe m p = true)
    (hwrite : ¬GoesDown m p end_ d w.frag_start) {w₁ : Walk}
    (hloop : updateLoop m p end_ (min (m.radix.after d w.frag_start) end_) end_
      (entryOffset m d w.frag_start)
      { w with tables := amdgpuVmAllocPts m p w.tables (m.cursorAt d w.frag_start) } = some w₁)
    (hcursor₁ : w₁.cursor = w.cursor)
    (htables₁ : w₁.tables = amdgpuVmAllocPts m p w.tables (m.cursorAt d w.frag_start))
    (hlt : w.frag_start < w₁.frag_start)
    (hle : w₁.frag_start ≤ min (m.radix.after d w.frag_start) end_)
    (hdvd : m.radix.weight d ∣ w.frag_start ∧ m.radix.weight d ∣ w₁.frag_start)
    (hbase : m.basePages ∣ w₁.frag_start) (hfrag : FragOk m p end_ w₁)
    (hF : w₁.frag_start = min (m.radix.after d w.frag_start) end_ ∨
      m.root_level + d = OPU_VM_PDE) :
    ∃ c t, walkStep m p end_ w = some (.ok { w₁ with cursor := c, tables := t }) ∧
      Walking m p start end_ { w₁ with cursor := c, tables := t } ∧
      Arrived m d w.frag_start end_ w₁.frag_start c := by
  have hshaped : w₁.tables.Shaped m := by
    rw [htables₁]
    exact hw.shaped.allocPts (by rw [VmMgr.cursorAt, m.radix.path_length])
  have htable : w₁.frag_start = min (m.radix.after d w.frag_start) end_ ∨
      w₁.tables (m.radix.path d w.frag_start) = true := by
    refine hF.imp id fun hpde => ?_
    rw [htables₁]
    exact amdgpuVmAllocPts_path (c := m.cursorAt d w.frag_start) (.inl (by
      change m.root_level + d < 3
      rw [hpde]
      decide))
  obtain ⟨c, t, hmove, harrived, ht⟩ := moveOn_spec hd hend (hcursor₁.trans hcursor) (by omega)
    hshaped htable hdvd (Nat.le_of_lt hlt) (by omega) (by omega)
  refine ⟨c, t, ?_, ?_, harrived⟩
  · rw [walkStep_write hcursor hwrite, hloop]
    exact hmove
  · have hstart := hw.le.1
    refine {
      le := ⟨by change start ≤ w₁.frag_start; omega, by change w₁.frag_start ≤ end_; omega⟩
      dvd := hbase
      frag := hfrag
      shaped := ht
      done := harrived.done
      more := fun hmore => ?_ }
    obtain ⟨e, rfl, he⟩ := harrived.more hmore
    rcases he with he | ⟨rfl, hbefore⟩
    · refine ⟨e, he.trans hd, rfl, fun hlast => hspe ?_⟩
      have h₁ := level_le hd
      omega
    · have hmin : w₁.frag_start ≠ min (m.radix.after d w.frag_start) end_ := by
        change w₁.frag_start < end_ at hmore
        omega
      have hpde := hF.resolve_left hmin
      refine ⟨d + 1, lt_depth (hpde ▸ by decide), rfl, fun hlast => ?_⟩
      have h₁ : m.root_level + d = 2 := hpde
      have h₂ : m.root_level + (d + 1) = 4 := hlast
      omega

/-- The table of the cursor, with the tables it needs allocated. -/
theorem inTable_allocPts (hcursor : w.cursor = m.cursorAt d w.frag_start)
    (hlt : w.frag_start < end_) (hdvd : m.radix.weight d ∣ w.frag_start) :
    InTable m d w.frag_start end_
      { w with tables := amdgpuVmAllocPts m p w.tables (m.cursorAt d w.frag_start) } :=
  ⟨hcursor, rfl, hlt, hdvd⟩

/-- Once an address is wrong, or `dst` is and there is one more update, an address is wrong. -/
theorem Addressed.of_round {w₁ : Walk} (h : Addressed m p start end_ dst w)
    (hround : Round m end_ level w w₁) (hnot : ¬Right start dst w ∨ ¬AllRight m start dst w)
    (hcontent : w'.updates = w₁.updates) : Addressed m p start end_ dst w' := by
  have hwrong : ¬AllRight m start dst w' := by
    intro hall
    have hall₁ : AllRight m start dst w₁ := by
      intro u hu
      exact hall u (hcontent ▸ hu)
    obtain ⟨hallw, hright⟩ := (allRight_round_iff hround).1 hall₁
    exact hnot.elim (fun h => h hright) (fun h => h hallw)
  cases h with
  | right right all => exact (hnot.elim (fun h => h right) (fun h => h all)).elim
  | last spe not_right all rest_iff =>
    refine .wrong spe hwrong (Nat.not_le.1 fun hle => ?_)
    have h₁ := rest_iff.1 hle
    have h₂ := hround.lt
    have h₃ := hround.le
    omega
  | wrong spe not_all long => exact .wrong spe hwrong long

/-- **Huge pages.** -/
theorem Inv.huge (h : Inv m p start end_ dst w) (hend : end_ ≤ coverage m)
    (hbase : m.basePages ∣ end_) (hd : d ≤ m.radix.depth)
    (hcursor : w.cursor = m.cursorAt d w.frag_start) (hlt : w.frag_start < end_)
    (hlevel : m.root_level + d = OPU_VM_PDE)
    (hcan : opuVmCanHugePage m p w.frag_start end_ = true) :
    ∃ w', walkStep m p end_ w = some (.ok w') ∧ Inv m p start end_ dst w' ∧
      w.frag_start < w'.frag_start := by
  have h52 := coverage_le m
  have hweight : m.radix.weight d = hugePageCount m := by
    rw [hugePageCount_eq, ← hlevel]
    rfl
  obtain ⟨-, hcount, hdvd⟩ := (opuVmCanHugePage_iff (Nat.le_of_lt hlt) (by omega)).1 hcan
  have hwrite : ¬GoesDown m p end_ d w.frag_start := by
    rintro (hlow | ⟨-, hno⟩ | ⟨hpte, -⟩)
    · rw [hlevel] at hlow
      exact absurd hlow (by decide)
    · rw [hcan] at hno
      cases hno
    · rw [hlevel] at hpte
      exact absurd hpte (by decide)
  obtain ⟨n, hn⟩ : ∃ n, end_ = n + 1 := ⟨end_ - 1, by omega⟩
  obtain ⟨w₁, hloop, hcursor₁, htables₁, hfrag₁, hfragOk, hround⟩ := updateLoop_huge hd hlevel hend
    hbase n (inTable_allocPts hcursor hlt (hweight ▸ hdvd)) h.walking.frag (hweight ▸ hcount)
  rw [← hn] at hloop
  have hdvd₁ : m.radix.weight d ∣ w₁.frag_start := hfrag₁ ▸ dvd_alignDown ..
  have hbase₁ : m.basePages ∣ w₁.frag_start :=
    basePages_dvd_hugePageCount.trans (hweight ▸ hdvd₁)
  obtain ⟨c, t, hstep, hwalking, harrived⟩ := h.walking.moveOn hend hd hcursor
    (fun hspe => by rw [hlevel] at hspe; exact absurd hspe (by decide)) hwrite hloop hcursor₁
    htables₁ hround.lt (hfrag₁ ▸ alignDown_le ..) ⟨hweight ▸ hdvd, hdvd₁⟩ hbase₁ hfragOk
    (.inr hlevel)
  have hround' : Round m end_ (m.root_level + d) w { w₁ with cursor := c, tables := t } :=
    ⟨hround.lt, hround.le, hround.dst, hround.update⟩
  refine ⟨_, hstep, ⟨hwalking, h.covered.round h.walking.le.1 hround', ?_⟩, hround.lt⟩
  · have hbytes : bytesPerPage m (m.root_level + d) = 0x1000 := by
      rw [bytesPerPage, if_neg]
      rintro ⟨hspe, -⟩
      rw [hlevel] at hspe
      exact absurd hspe (by decide)
    cases haddressed : h.addressed with
    | right right all rest_eq small =>
      have hroot : m.root_level ≤ OPU_VM_PDE := hlevel ▸ Nat.le_add_right ..
      refine .right (right.round h.walking.le.1 hround' hbytes)
        ((allRight_round_iff hround').2 ⟨all, right⟩) (fun hspe => ?_) fun hmore hbelow hspe => ?_
      · rw [← rest_eq hspe]
        exact rest_of_after_huge hroot (Nat.le_of_lt hround.lt) hround.le (by omega) hcan
          (hweight ▸ hdvd₁)
      · -- below this table only where the next huge page does not end in the range
        left
        obtain ⟨e, rfl, he | ⟨-, hbefore⟩⟩ := harrived.more hmore
        · have hbelow' : OPU_VM_PDE < m.root_level + e := hbelow
          omega
        · have hafter : m.radix.weight d ∣ m.radix.after d w.frag_start :=
            (m.radix.weight_dvd_span d).trans (m.radix.span_dvd_after ..)
          have hmin : min (m.radix.after d w.frag_start) end_ = end_ := by
            by_contra hne
            have hmin : min (m.radix.after d w.frag_start) end_ = m.radix.after d w.frag_start := by
              omega
            rw [hfrag₁, hmin, alignDown_of_dvd hafter] at hbefore
            exact Nat.lt_irrefl _ hbefore
          have hlast := lt_alignDown_add (x := end_) (m.radix.weight_pos d)
          rw [hmin] at hfrag₁
          rw [← hfrag₁] at hlast
          rw [← Bool.not_eq_true]
          intro hcan₁
          have hcount₁ := ((opuVmCanHugePage_iff (Nat.le_of_lt hmore) (by omega)).1 hcan₁).2.1
          change hugePageCount m ≤ end_ - w₁.frag_start at hcount₁
          rw [← hweight] at hcount₁
          have hmore₁ : w₁.frag_start < end_ := hmore
          omega
    | last spe not_right all rest_iff =>
      exact h.addressed.of_round hround' (.inl not_right) rfl
    | wrong spe not_all long => exact h.addressed.of_round hround' (.inr not_all) rfl

/-- What the levels of entries for pages are aligned to. -/
theorem aligned_of_pages (hw : Walking m p start end_ w) (hbase : m.basePages ∣ end_)
    (hd : d ≤ m.radix.depth) (hlevel : OPU_VM_PTE ≤ m.root_level + d) {f : ℕ}
    (hf : f = min (m.radix.after d w.frag_start) end_) :
    m.basePages ∣ f ∧ m.radix.weight d ∣ w.frag_start ∧ m.radix.weight d ∣ f := by
  have hweight := weight_dvd_basePages hlevel hd
  have hdvd : m.basePages ∣ f :=
    hf ▸ dvd_min ((basePages_dvd_span hd).trans (m.radix.span_dvd_after ..)) hbase
  exact ⟨hdvd, hweight.trans hw.dvd, hweight.trans hdvd⟩

/-- **Base pages.** -/
theorem Inv.pages (h : Inv m p start end_ dst w) (hend : end_ ≤ coverage m)
    (hbase : m.basePages ∣ end_) (hd : d ≤ m.radix.depth)
    (hcursor : w.cursor = m.cursorAt d w.frag_start) (hlt : w.frag_start < end_)
    (hlevel : m.root_level + d = OPU_VM_PTE) (hspe : needSpe m p = false) :
    ∃ w', walkStep m p end_ w = some (.ok w') ∧ Inv m p start end_ dst w' ∧
      w.frag_start < w'.frag_start := by
  have hbytes : bytesPerPage m (m.root_level + d) = 0x1000 := by
    rw [bytesPerPage, if_neg]
    rintro ⟨hlast, -⟩
    rw [hlevel] at hlast
    exact absurd hlast (by decide)
  have hwrite : ¬GoesDown m p end_ d w.frag_start := by
    rintro (hlow | ⟨hpde, -⟩ | ⟨-, hyes⟩)
    · rw [hlevel] at hlow
      exact absurd hlow (by decide)
    · rw [hlevel] at hpde
      exact absurd hpde (by decide)
    · rw [hspe] at hyes
      cases hyes
  obtain ⟨right, all⟩ : Right start dst w ∧ AllRight m start dst w := by
    cases h.addressed with
    | right right all => exact ⟨right, all⟩
    | last spe => exact absurd spe (by rw [hspe]; decide)
    | wrong spe => exact absurd spe (by rw [hspe]; decide)
  obtain ⟨-, hdvd, -⟩ := aligned_of_pages h.walking hbase hd (Nat.le_of_eq hlevel.symm) rfl
  have hafter := m.radix.lt_after d w.frag_start
  have hround : ∀ v v', Round m end_ (m.root_level + d) v v' →
      start ≤ v.frag_start ∧ Covered m start v ∧ Right start dst v ∧ AllRight m start dst v →
      start ≤ v'.frag_start ∧ Covered m start v' ∧ Right start dst v' ∧ AllRight m start dst v' := by
    rintro v v' hround ⟨hle, hcovered, hright, hall⟩
    exact ⟨hle.trans (Nat.le_of_lt hround.lt), hcovered.round hle hround,
      hright.round hle hround hbytes, (allRight_round_iff hround).2 ⟨hall, hright⟩⟩
  obtain ⟨w₁, hloop, hcursor₁, htables₁, hfrag₁, hfragOk, hle, hcovered, hright, hall⟩ :=
    updateLoop_spec (p := p) (k := w.frag_start)
      (I := fun v => start ≤ v.frag_start ∧ Covered m start v ∧ Right start dst v ∧
        AllRight m start dst v)
      hround
      hd (Nat.le_of_eq hlevel.symm) hend hbase end_ _ (inTable_allocPts hcursor hlt hdvd)
      (show w.frag_start < min (m.radix.after d w.frag_start) end_ by omega) h.walking.frag
      ⟨h.walking.le.1, ⟨h.covered.inTree, h.covered.count⟩, right, all⟩
      (by change min (m.radix.after d w.frag_start) end_ - w.frag_start ≤ end_; omega)
  obtain ⟨hbase₁, hdvd₁⟩ := aligned_of_pages h.walking hbase hd (Nat.le_of_eq hlevel.symm) hfrag₁
  have hgrow : w.frag_start < w₁.frag_start := by omega
  obtain ⟨c, t, hstep, hwalking, harrived⟩ := h.walking.moveOn hend hd hcursor
    (fun hlast => by rw [hlevel] at hlast; exact absurd hlast (by decide)) hwrite hloop hcursor₁
    htables₁ hgrow (Nat.le_of_eq hfrag₁) hdvd₁ hbase₁ hfragOk (.inl hfrag₁)
  refine ⟨_, hstep, ⟨hwalking, ⟨hcovered.inTree, hcovered.count⟩, ?_⟩, hgrow⟩
  exact .right hright hall (fun hyes => absurd hyes (by rw [hspe]; decide))
    fun _ _ hyes => absurd hyes (by rw [hspe]; decide)

/-- A table of pages of 4K below one of 64K has 16. -/
theorem span_spe (huse : m.use_64k_page = true) (hlevel : m.root_level + d = OPU_VM_SPE) :
    m.radix.span d = 16 := by
  have hspan : m.radix.span d =
      2 ^ m.frame_size (m.root_level + d) * 2 ^ m.levelShift (m.root_level + d) := rfl
  rw [hspan, hlevel, levelShift_SPE, m.spe, huse]
  rfl

/-- **Pages of 4K** below one of 64K. -/
theorem Inv.spe (h : Inv m p start end_ dst w) (hend : end_ ≤ coverage m)
    (hbase : m.basePages ∣ end_) (hd : d ≤ m.radix.depth)
    (hcursor : w.cursor = m.cursorAt d w.frag_start) (hlt : w.frag_start < end_)
    (hlevel : m.root_level + d = OPU_VM_SPE) (hspe : needSpe m p = true) :
    ∃ w', walkStep m p end_ w = some (.ok w') ∧ Inv m p start end_ dst w' ∧
      w.frag_start < w'.frag_start := by
  have h52 := coverage_le m
  have hlevel' : OPU_VM_PTE ≤ m.root_level + d := hlevel ▸ by decide
  obtain ⟨⟨huse, hpages⟩, -⟩ : (m.use_64k_page = true ∧ p.pages_addr = true) ∧
      (p.page_order == 0) = true := by
    simpa only [needSpe, Bool.and_eq_true] using hspe
  have hbytes : bytesPerPage m (m.root_level + d) = 0x10000 := by
    rw [bytesPerPage, if_pos ⟨hlevel, huse⟩]
  have hsixteen : m.basePages = 16 := by
    rw [VmMgr.basePages, huse]
    rfl
  have hwrite : ¬GoesDown m p end_ d w.frag_start := by
    rintro (hlow | ⟨hpde, -⟩ | ⟨hpte, -⟩)
    · rw [hlevel] at hlow
      exact absurd hlow (by decide)
    · rw [hlevel] at hpde
      exact absurd hpde (by decide)
    · rw [hlevel] at hpte
      exact absurd hpte (by decide)
  obtain ⟨-, hdvd, -⟩ := aligned_of_pages h.walking hbase hd hlevel' rfl
  have hafter : m.radix.after d w.frag_start = w.frag_start + 16 := by
    have hdvd16 : 16 ∣ w.frag_start := hsixteen ▸ h.walking.dvd
    rw [m.radix.after_eq_add, span_spe huse hlevel, Nat.div_mul_cancel hdvd16]
  have hnext : min (m.radix.after d w.frag_start) end_ = w.frag_start + 16 := by
    have h₁ : 16 ∣ end_ - w.frag_start := hsixteen ▸ Nat.dvd_sub hbase h.walking.dvd
    have h₂ := Nat.le_of_dvd (Nat.sub_pos_of_lt hlt) h₁
    omega
  obtain ⟨n, hn⟩ : ∃ n, end_ = n + 1 := ⟨end_ - 1, by omega⟩
  obtain ⟨w₁, hloop, hcursor₁, htables₁, hfrag₁, hfragOk, hround⟩ := updateLoop_pages hpages hd
    hlevel' hend hbase n (inTable_allocPts (p := p) hcursor hlt hdvd)
    (show w.frag_start < min (m.radix.after d w.frag_start) end_ by omega) h.walking.frag
  rw [← hn] at hloop
  obtain ⟨hbase₁, hdvd₁⟩ := aligned_of_pages h.walking hbase hd hlevel' hfrag₁
  obtain ⟨c, t, hstep, hwalking, harrived⟩ := h.walking.moveOn hend hd hcursor (fun _ => hspe)
    hwrite hloop hcursor₁ htables₁ hround.lt (Nat.le_of_eq hfrag₁) hdvd₁ hbase₁ hfragOk
    (.inl hfrag₁)
  have hround' : Round m end_ (m.root_level + d) w { w₁ with cursor := c, tables := t } :=
    ⟨hround.lt, hround.le, hround.dst, hround.update⟩
  refine ⟨_, hstep, ⟨hwalking, h.covered.round h.walking.le.1 hround', ?_⟩, hround.lt⟩
  rw [hnext] at hfrag₁
  have hend16 : w.frag_start + 16 ≤ end_ := by
    have := hround.le
    omega
  cases haddressed : h.addressed with
  | right right all rest_eq small =>
    have hbelow : OPU_VM_PDE < w.cursor.level := by
      rw [hcursor]
      exact Nat.lt_of_lt_of_le (by decide) hlevel'
    have hrest : rest m p start end_ = end_ - w.frag_start := by
      rw [← rest_eq hspe]
      exact rest_of_not_huge (Nat.le_of_lt hlt) (by omega) (small hlt hbelow hspe)
    refine .last hspe (right.not_round h.walking.le.1 hround' hbytes hfrag₁)
      ((allRight_round_iff hround').2 ⟨all, right⟩) ?_
    change _ ↔ w₁.frag_start = end_
    omega
  | last spe not_right all rest_iff => exact h.addressed.of_round hround' (.inl not_right) rfl
  | wrong spe not_all long => exact h.addressed.of_round hround' (.inr not_all) rfl

/-! ### The whole walk -/

/-- What is left to do: pages, and levels to go down. -/
def left (end_ : ℕ) (w : Walk) : ℕ := (end_ - w.frag_start) * 5 + (4 - w.cursor.level)

/-- **A step of the walk.** -/
theorem Inv.step (h : Inv m p start end_ dst w) (hend : end_ ≤ coverage m)
    (hbase : m.basePages ∣ end_) (hlt : w.frag_start < end_) :
    ∃ w', walkStep m p end_ w = some (.ok w') ∧ Inv m p start end_ dst w' ∧
      left end_ w' < left end_ w := by
  obtain ⟨d, hd, hcursor, hspe⟩ := h.walking.more hlt
  have hwritten : (∃ w', walkStep m p end_ w = some (.ok w') ∧ Inv m p start end_ dst w' ∧
      w.frag_start < w'.frag_start) → ∃ w', walkStep m p end_ w = some (.ok w') ∧
        Inv m p start end_ dst w' ∧ left end_ w' < left end_ w := by
    rintro ⟨w', hstep, hinv, hgrow⟩
    refine ⟨w', hstep, hinv, ?_⟩
    unfold left
    omega
  by_cases hdown : GoesDown m p end_ d w.frag_start
  · obtain ⟨w', hstep, hinv, hsame, hcursor'⟩ := h.down hcursor hlt hdown
    refine ⟨w', hstep, hinv, ?_⟩
    have hlevel : m.root_level + d ≤ 3 := by
      rcases hdown with hlow | ⟨hpde, -⟩ | ⟨hpte, -⟩
      · exact Nat.le_of_lt (Nat.lt_trans hlow (by decide))
      · exact hpde ▸ by decide
      · exact hpte ▸ by decide
    have hw : w.cursor.level = m.root_level + d := by rw [hcursor]; rfl
    have hw' : w'.cursor.level = m.root_level + (d + 1) := by rw [hcursor']; rfl
    unfold left
    rw [hsame, hw, hw']
    omega
  · have h₁ : m.root_level + d ≤ 4 := level_le hd
    have h₂ : ¬m.root_level + d < 2 := fun h => hdown (.inl h)
    have hcases : m.root_level + d = OPU_VM_PDE ∨ m.root_level + d = OPU_VM_PTE ∨
        m.root_level + d = OPU_VM_SPE := by
      change m.root_level + d = 2 ∨ m.root_level + d = 3 ∨ m.root_level + d = 4
      omega
    rcases hcases with hlevel | hlevel | hlevel
    · refine hwritten (h.huge hend hbase hd hcursor hlt hlevel ?_)
      rw [← Bool.not_eq_false]
      exact fun hno => hdown (.inr (.inl ⟨hlevel, hno⟩))
    · refine hwritten (h.pages hend hbase hd hcursor hlt hlevel ?_)
      rw [← Bool.not_eq_true]
      exact fun hyes => hdown (.inr (.inr ⟨hlevel, hyes⟩))
    · exact hwritten (h.spe hend hbase hd hcursor hlt hlevel (hspe hlevel))

/-- **The walk comes to the end of the range.** -/
theorem Inv.walk (h : Inv m p start end_ dst w) (hend : end_ ≤ coverage m)
    (hbase : m.basePages ∣ end_) :
    ∃ n w', walk m p end_ n w = some (.ok w') ∧ Inv m p start end_ dst w' ∧
      w'.frag_start = end_ := by
  induction hleft : left end_ w using Nat.strongRecOn generalizing w with
  | ind l ih =>
    rcases Nat.lt_or_eq_of_le h.walking.le.2 with hlt | hdone
    · obtain ⟨w₁, hstep, hinv, hless⟩ := h.step hend hbase hlt
      obtain ⟨n, w', hwalk, hrest⟩ := ih _ (hleft ▸ hless) hinv rfl
      refine ⟨n + 1, w', ?_, hrest⟩
      obtain ⟨d, -, hcursor, -⟩ := h.walking.more hlt
      have hpfn : w.cursor.pfn < end_ := by
        rw [hcursor]
        exact hlt
      rw [Vm.walk, if_pos hpfn, hstep]
      exact hwalk
    · have hpfn : ¬w.cursor.pfn < end_ := Nat.not_lt.2 (h.walking.done hdone)
      exact ⟨1, w, by rw [Vm.walk, if_neg hpfn], h, hdone⟩

/-- More iterations lead to the same end. -/
theorem walk_mono {n n' : ℕ} (hle : n ≤ n') {r : Except Errno Walk}
    (h : walk m p end_ n w = some r) : walk m p end_ n' w = some r := by
  induction n generalizing n' w with
  | zero => cases h
  | succ n ih =>
    obtain ⟨n', rfl⟩ : ∃ i, n' = i + 1 := ⟨n' - 1, by omega⟩
    rw [walk] at h ⊢
    split at h
    · next hlt =>
      rw [if_pos hlt]
      cases hstep : walkStep m p end_ w with
      | none =>
        rw [hstep] at h
        cases h
      | some r' =>
        rw [hstep] at h
        cases r' with
        | error e => exact h
        | ok w' => exact ih (by omega) h
    · next hnot =>
      rw [if_neg hnot]
      exact h

/-- The walk has one end. -/
theorem walk_unique {n n' : ℕ} {r r' : Except Errno Walk} (h : walk m p end_ n w = some r)
    (h' : walk m p end_ n' w = some r') : r = r' := by
  rcases Nat.le_total n n' with hle | hle
  · exact Option.some.inj ((walk_mono hle h).symm.trans h')
  · exact Option.some.inj (h.symm.trans (walk_mono hle h'))

/-- **The walk starts** with nothing written. -/
theorem inv_walkStart (hdst : dst < 2 ^ 64) (ht : t.Shaped m) (hlt : start < end_)
    (hend : end_ ≤ coverage m) (hbase : m.basePages ∣ start ∧ m.basePages ∣ end_) :
    Inv m p start end_ dst (walkStart m p t start end_ dst) := by
  refine ⟨?_, ⟨nofun, fun page => ?_⟩, .right ?_ nofun (fun _ => rfl) ?_⟩
  · refine {
      le := ⟨le_rfl, Nat.le_of_lt hlt⟩
      dvd := hbase.1
      frag := fun _ => amdgpuVmFragment_spec hlt hend hbase
      shaped := ht
      done := fun hdone => absurd hdone (Nat.ne_of_lt hlt)
      more := fun _ => ⟨0, Nat.zero_le _, rfl, fun hspe => ?_⟩ }
    have hroot : m.root_level ≤ 3 := m.root_level_le
    have hspe' : m.root_level + 0 = 4 := hspe
    omega
  · rw [if_neg]
    · rfl
    · rintro ⟨h₁, h₂⟩
      exact Nat.lt_irrefl _ (h₁.trans_lt h₂)
  · have hzero : 0x1000 * (start - start) = 0 := by rw [Nat.sub_self]
    change dst = u64 (dst + 0x1000 * (start - start))
    rw [hzero, Nat.add_zero, u64_of_lt hdst]
  · exact fun _ hroot _ => .inr hroot

/-- What is written in a table of the tree is for pages that the root has entries for. -/
theorem Update.InTree.lt_coverage {u : Update} (hu : u.InTree m) {page : ℕ}
    (hpage : 0 < (u.leaves m).countP (covers page)) : page < coverage m := by
  obtain ⟨hlevel, hle, htables, hentries⟩ := hu
  rw [u.countP_leaves] at hpage
  split at hpage
  · next hcovered =>
    rw [inTables_iff] at htables
    have hweight : 2 ^ m.levelShift u.level = m.radix.weight u.path.length := by
      rw [hlevel]
      rfl
    rw [Update.firstPage, tableBase_eq, Nat.shiftLeft_eq, hweight, Nat.add_assoc, ← Nat.add_mul]
      at hcovered
    have hpos : 0 < u.pe_start / 8 + u.count := by
      by_contra hzero
      have : u.pe_start / 8 = 0 ∧ u.count = 0 := by omega
      rw [this.1, this.2] at hcovered
      omega
    -- the last of the entries ends inside the tree
    have hlast : m.radix.Inside m.top ((u.pe_start / 8 + u.count - 1) :: u.path) := by
      refine ⟨?_, htables⟩
      rw [hlevel] at hentries
      split
      · next hroot =>
        rw [hroot] at hentries
        have hentries' : u.pe_start / 8 + u.count ≤ m.top := hentries
        omega
      · next hne =>
        rw [opuVmNumEntries_of_ne m (by
          have := List.length_pos_iff.2 hne
          omega)] at hentries
        have hentries' : u.pe_start / 8 + u.count ≤ m.radix.fanout u.path.length := hentries
        omega
    have hdepth : u.path.length ≤ m.radix.depth := by
      have h₁ : u.level ≤ 4 := hle
      change u.path.length ≤ 4 - m.root_level
      omega
    have hend := m.radix.base_add_le hdepth hlast
    rw [Nat.sub_add_cancel hpos, ← coverage_eq] at hend
    omega
  · cases hpage

/-- The rest of nothing. -/
theorem rest_self : rest m p end_ end_ = 0 := by
  rw [rest, Nat.sub_self, Nat.zero_mod, ite_self]

/-- **A range is mapped** if and only if it is empty or the root has entries for it and, where the
pages of 4K below those of 64K have entries, at most 16 of its pages are not in huge pages. -/
theorem mapped_iff (hdst : dst < 2 ^ 64) (ht : t.Shaped m) (haccepted : Accepted m start end_) :
    Mapped m p t start end_ dst ↔ end_ ≤ start ∨
      end_ ≤ coverage m ∧ (needSpe m p = true → rest m p start end_ ≤ 16) := by
  have hbase := basePages_dvd haccepted
  have hupdate : ∀ n, amdgpuVmUpdatePtes m p n t start end_ dst =
      walk m p end_ n (walkStart m p t start end_ dst) := fun n => if_pos haccepted
  rcases Nat.lt_or_ge start end_ with hlt | hempty
  · by_cases hend : end_ ≤ coverage m
    · -- the walk has an end, and there the updates are right or not
      obtain ⟨n, w, hwalk, hinv, hdone⟩ :=
        (inv_walkStart (p := p) hdst ht hlt hend hbase).walk hend hbase.2
      have hall : Mapped m p t start end_ dst ↔ AllRight m start dst w := by
        constructor
        · rintro ⟨n', w', hwalk', -, -, hright⟩
          rw [hupdate] at hwalk'
          cases walk_unique hwalk hwalk'
          exact hright
        · intro hright
          refine ⟨n, w, (hupdate n).trans hwalk, hinv.covered.inTree, fun page => ?_, hright⟩
          rw [hinv.covered.count, hdone]
      rw [hall]
      constructor
      · intro hright
        refine .inr ⟨hend, fun hspe => ?_⟩
        cases hinv.addressed with
        | right right all rest_eq small =>
          rw [← rest_eq hspe, hdone, rest_self]
          exact Nat.zero_le _
        | last spe not_right all rest_iff => exact rest_iff.2 hdone
        | wrong spe not_all long => exact absurd hright not_all
      · intro hcond
        obtain ⟨-, hrest⟩ := hcond.resolve_left (Nat.not_le.2 hlt)
        cases hinv.addressed with
        | right right all => exact all
        | last spe not_right all => exact all
        | wrong spe not_all long => exact absurd (hrest spe) (Nat.not_le.2 long)
    · -- the last page has no entry
      constructor
      · rintro ⟨n, w, -, hinTree, hcount, -⟩
        have hlast := hcount (end_ - 1)
        rw [if_pos (by omega)] at hlast
        have hpos : 0 < (w.updates.flatMap (Update.leaves m)).countP (covers (end_ - 1)) := by
          rw [hlast]
          decide
        rw [List.countP_pos_iff] at hpos
        obtain ⟨leaf, hleaf, hcovers⟩ := hpos
        obtain ⟨u, hu, hmem⟩ := List.mem_flatMap.1 hleaf
        have hpage := (hinTree u hu).lt_coverage (List.countP_pos_iff.2 ⟨leaf, hmem, hcovers⟩)
        omega
      · intro hcond
        exact absurd (hcond.resolve_left (Nat.not_le.2 hlt)).1 hend
  · -- nothing to map
    refine iff_of_true ⟨1, walkStart m p t start end_ dst, ?_, nofun, fun page => ?_, nofun⟩
      (.inl hempty)
    · rw [hupdate, walk, if_neg]
      exact Nat.not_lt.2 hempty
    · rw [if_neg (by omega)]
      rfl

/-! ### System pages of 4K in a tree of pages of 64K -/

/-- The bits of an index at each level. -/
def levelBits (level : ℕ) : ℕ :=
  if level = OPU_VM_SPE then 4 else if level = OPU_VM_PTE then 5 else 9

/-- Four levels, with pages of 64K. -/
def fourLevels : VmMgr where
  frame_size := levelBits
  fragment_size := 0
  root_level := 1
  max_pfn := 2 ^ 27
  use_64k_page := true
  root_level_le := by decide
  frame_size_le level := by
    unfold levelBits
    split
    · decide
    · split <;> decide
  huge_lt := by decide
  fragment_size_lt := by decide
  spe := rfl
  max_pfn_le := by decide
  address_lt := by decide
  shift_le := by decide

/-- Pages of 4K, each with an address of its own. -/
def systemPages : Params where
  pages_addr := true
  page_order := 0
  use_huge_page := false
  flags := 2

theorem mapped_iff_sixteen : Mapped fourLevels systemPages (fun _ => false) 16 32 0x100000 :=
  (mapped_iff (by decide) (fun _ _ => rfl) (by decide)).2
    (.inr ⟨by decide, fun _ => by decide⟩)

/-- Of 32 such pages, the second 16 are written with the address 0x200000, where 0x110000 is
right. -/
theorem thirty_two_pages_misplaced :
    ¬Mapped fourLevels systemPages (fun _ => false) 16 48 0x100000 := by
  rintro ⟨n, w, hwalk, -, -, hright⟩
  have haccepted : Accepted fourLevels 16 48 := by decide
  rw [amdgpuVmUpdatePtes, if_pos haccepted] at hwalk
  have hrun : (walk fourLevels systemPages 48 6
      (walkStart fourLevels systemPages (fun _ => false) 16 48 0x100000)).map (fun r =>
        match r with
        | .ok w => w.updates.map fun u => (u.firstPage fourLevels, u.addr)
        | .error _ => []) = some [(16, 0x100000), (32, 0x200000)] := by decide +kernel
  obtain ⟨r, hr, hupdates⟩ := Option.map_eq_some_iff.1 hrun
  cases walk_unique hr hwalk
  have hsecond : (32, 0x200000) ∈ w.updates.map fun u => (u.firstPage fourLevels, u.addr) := by
    rw [show (w.updates.map fun u => (u.firstPage fourLevels, u.addr)) =
      [(16, 0x100000), (32, 0x200000)] from hupdates]
    decide
  obtain ⟨u, hu, heq⟩ := List.mem_map.1 hsecond
  have haddr := hright u hu
  rw [(Prod.mk.inj heq).1, (Prod.mk.inj heq).2] at haddr
  exact absurd haddr (by decide)

end Codrive.Vm
