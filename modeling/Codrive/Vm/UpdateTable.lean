/-
# The updates of one table

The pages of a range are written table by table, and the entries of a table fragment by fragment.
A fragment ends behind its start, where an entry ends (`amdgpuVmFragment_spec`), so one round of
the loop (`issue`) writes the entries of some pages that follow, and the loop all entries of the
table that are in the range (`updateLoop_spec`).
-/

import Codrive.Vm.Cursor

namespace Codrive.Vm

open Codrive.Basis

variable {m : VmMgr} {p : Params} {d k start end_ : ℕ}

/-! ### Sizes -/

theorem levelShift_SPE : m.levelShift OPU_VM_SPE = 0 := rfl

theorem levelShift_PTE : m.levelShift OPU_VM_PTE = m.frame_size OPU_VM_SPE := by
  rw [VmMgr.levelShift, opuVmLevelShift_succ _ (by decide)]
  exact Nat.add_zero _

theorem levelShift_PDE :
    m.levelShift OPU_VM_PDE = m.frame_size OPU_VM_PTE + m.frame_size OPU_VM_SPE := by
  rw [VmMgr.levelShift, opuVmLevelShift_succ _ (by decide)]
  exact congrArg _ levelShift_PTE

/-- The pages of 4K of a base page. -/
def VmMgr.basePages (m : VmMgr) : ℕ := if m.use_64k_page then 16 else 1

theorem two_pow_levelShift_PTE : 2 ^ m.levelShift OPU_VM_PTE = m.basePages := by
  rw [levelShift_PTE, m.spe, VmMgr.basePages]
  cases m.use_64k_page <;> rfl

theorem hugePageCount_eq : hugePageCount m = 2 ^ m.levelShift OPU_VM_PDE := by
  rw [levelShift_PDE, Nat.pow_add, ← levelShift_PTE, two_pow_levelShift_PTE, hugePageCount,
    Nat.one_shiftLeft]
  rfl

theorem basePages_dvd_hugePageCount : m.basePages ∣ hugePageCount m := by
  rw [hugePageCount_eq, levelShift_PDE, Nat.pow_add, ← levelShift_PTE, two_pow_levelShift_PTE]
  exact Nat.dvd_mul_left ..

/-- A range is accepted if its ends are those of base pages. -/
theorem basePages_dvd (h : Accepted m start end_) : m.basePages ∣ start ∧ m.basePages ∣ end_ := by
  unfold Accepted at h
  rw [VmMgr.basePages]
  cases huse : m.use_64k_page with
  | false => simp
  | true =>
    obtain ⟨hstart, hend⟩ := h huse
    have hmask : ∀ x : ℕ, x <<< PAGE_SHIFT &&& 0xFFFF = 0 → 16 ∣ x := by
      intro x hx
      rw [show (0xFFFF : ℕ) = 2 ^ 16 - 1 by decide, Nat.and_two_pow_sub_one_eq_mod,
        Nat.shiftLeft_eq] at hx
      have hx' : x * 4096 % 65536 = 0 := hx
      omega
    exact ⟨hmask start hstart, hmask end_ hend⟩

/-- The page boundaries of the tree are addresses. -/
theorem coverage_address : coverage m * 4096 < 2 ^ 64 := by
  have h := m.address_lt
  rw [← top_eq, Nat.shiftLeft_eq, Nat.shiftLeft_eq] at h
  rwa [coverage_eq]

/-! ### Fragments -/

/-- A fragment that is no longer than the rest. -/
theorem fragment_pow_le {start end_ : ℕ} (h : start < end_) (hlt : end_ < 2 ^ 64) (x y : ℕ) :
    2 ^ min (min x (wrap 32 (fls64 (sub64 end_ start) + (2 ^ 32 - 1)))) y ≤ end_ - start := by
  rw [sub64_of_le (Nat.le_of_lt h) hlt]
  have hne : end_ - start ≠ 0 := by omega
  have hlog : (end_ - start).log2 < 64 := (Nat.log2_lt hne).2 (by omega)
  have hfls : wrap 32 (fls64 (end_ - start) + (2 ^ 32 - 1)) = (end_ - start).log2 := by
    rw [fls64, if_neg hne, wrap]
    omega
  rw [hfls]
  calc 2 ^ min (min x (end_ - start).log2) y ≤ 2 ^ (end_ - start).log2 :=
        Nat.pow_le_pow_right (by decide) ((Nat.min_le_left ..).trans (Nat.min_le_right ..))
    _ ≤ end_ - start := Nat.log2_self_le hne

/-- A number of pages of 4K in pages of 64K. -/
theorem u64_shiftLeft_shiftRight {x : ℕ} (hx : x * 4096 < 2 ^ 64) :
    u64 (x <<< 12) >>> 16 = x / 16 := by
  have h : x <<< 12 = x * 4096 := Nat.shiftLeft_eq ..
  rw [h, u64_of_lt hx, Nat.shiftRight_eq_div_pow]
  omega

/-- A number of pages of 64K in pages of 4K. -/
theorem u64_shiftLeft_shiftRight' {x : ℕ} (hx : x * 65536 < 2 ^ 64) :
    u64 (x <<< 16) >>> 12 = x * 16 := by
  have h : x <<< 16 = x * 65536 := Nat.shiftLeft_eq ..
  rw [h, u64_of_lt hx, Nat.shiftRight_eq_div_pow]
  omega

/-- **A fragment** is of whole base pages, and not longer than the rest of the range. -/
theorem amdgpuVmFragment_spec (h : start < end_) (hend : end_ ≤ coverage m)
    (hdvd : m.basePages ∣ start ∧ m.basePages ∣ end_) :
    start < (amdgpuVmFragment m p start end_).2 ∧
      m.basePages ∣ (amdgpuVmFragment m p start end_).2 ∧
        (p.pages_addr = true → (amdgpuVmFragment m p start end_).2 = end_) := by
  have haddress := coverage_address (m := m)
  unfold amdgpuVmFragment
  by_cases hfirst : m.fragment_size = 0 ∨ p.pages_addr = true
  · rw [if_pos hfirst]
    exact ⟨h, hdvd.2, fun _ => rfl⟩
  rw [if_neg hfirst]
  cases huse : m.use_64k_page with
  | false =>
    have hpow := fragment_pow_le h (show end_ < 2 ^ 64 by omega)
      (wrap 32 (ffs start + (2 ^ 32 - 1))) m.fragment_size
    have hpos := Nat.two_pow_pos (min (min (wrap 32 (ffs start + (2 ^ 32 - 1)))
      (wrap 32 (fls64 (sub64 end_ start) + (2 ^ 32 - 1)))) m.fragment_size)
    have hbase : m.basePages = 1 := by
      rw [VmMgr.basePages, huse]
      rfl
    dsimp only
    rw [if_neg (by decide), if_neg (by decide), if_neg (by decide), Nat.one_shiftLeft,
      u64_of_lt (by omega), hbase]
    exact ⟨by omega, Nat.one_dvd _, fun hp => absurd (.inr hp) hfirst⟩
  | true =>
    have hbase : m.basePages = 16 := by
      rw [VmMgr.basePages, huse]
      rfl
    have hend64 : end_ * 4096 < 2 ^ 64 :=
      Nat.lt_of_le_of_lt (Nat.mul_le_mul_right 4096 hend) haddress
    have hstart64 : start * 4096 < 2 ^ 64 :=
      Nat.lt_of_le_of_lt (Nat.mul_le_mul_right 4096 (Nat.le_of_lt h)) hend64
    rw [hbase] at hdvd ⊢
    have hpow := fragment_pow_le (show start / 16 < end_ / 16 by omega)
      (show end_ / 16 < 2 ^ 64 by omega)
      (wrap 32 (ffs (start / 16) + (2 ^ 32 - 1))) m.fragment_size
    have hpos := Nat.two_pow_pos (min (min (wrap 32 (ffs (start / 16) + (2 ^ 32 - 1)))
      (wrap 32 (fls64 (sub64 (end_ / 16) (start / 16)) + (2 ^ 32 - 1)))) m.fragment_size)
    dsimp only
    rw [if_pos rfl, if_pos rfl, if_pos rfl, Nat.one_shiftLeft, u64_shiftLeft_shiftRight hstart64,
      u64_shiftLeft_shiftRight hend64]
    generalize 2 ^ min (min (wrap 32 (ffs (start / 16) + (2 ^ 32 - 1)))
      (wrap 32 (fls64 (sub64 (end_ / 16) (start / 16)) + (2 ^ 32 - 1)))) m.fragment_size = len
      at hpow hpos ⊢
    have hle : (start / 16 + len) * 65536 ≤ end_ * 4096 := by
      have hsum : start / 16 + len ≤ end_ / 16 := by omega
      have hround : end_ / 16 * 16 ≤ end_ := Nat.div_mul_le_self ..
      calc (start / 16 + len) * 65536 ≤ end_ / 16 * 65536 := Nat.mul_le_mul_right _ hsum
        _ = end_ / 16 * 16 * 4096 := by rw [Nat.mul_assoc]
        _ ≤ end_ * 4096 := Nat.mul_le_mul_right _ hround
    have hlt : (start / 16 + len) * 65536 < 2 ^ 64 := Nat.lt_of_le_of_lt hle hend64
    rw [u64_of_lt (Nat.lt_of_le_of_lt (Nat.le_mul_of_pos_right _ (by decide)) hlt),
      u64_shiftLeft_shiftRight' hlt]
    exact ⟨by omega, Nat.dvd_mul_left .., fun hp => absurd (.inr hp) hfirst⟩

/-! ### Entries -/

theorem tableBase_eq (path : List ℕ) : tableBase m path = m.radix.base path := by
  induction path with
  | nil => rfl
  | cons i path ih =>
    rw [tableBase, Radix.base, ih, Nat.shiftLeft_eq]
    rfl

theorem inTables_iff (path : List ℕ) : InTables m path ↔ m.radix.Inside m.top path := by
  induction path with
  | nil => exact Iff.rfl
  | cons i path ih =>
    rw [InTables, Radix.Inside, ih]
    cases path with
    | nil => exact Iff.rfl
    | cons j path =>
      rw [opuVmNumEntries_of_ne m (by simp), if_neg (by simp)]
      exact Iff.rfl

/-- The entries written one after another hold each of their pages once. -/
theorem countP_entries (first weight count page : ℕ) :
    ((List.range count).map fun i => (first + i * weight, weight)).countP (covers page) =
      if first ≤ page ∧ page < first + count * weight then 1 else 0 := by
  induction count with
  | zero =>
    rw [List.range_zero, List.map_nil, List.countP_nil, if_neg (by omega)]
  | succ count ih =>
    rw [List.range_succ, List.map_append, List.countP_append, ih, Nat.add_mul, Nat.one_mul]
    simp only [List.map_cons, List.map_nil, List.countP_singleton, covers, Bool.and_eq_true,
      decide_eq_true_iff]
    split <;> split <;> split <;> omega

/-- The leaves of an update. -/
theorem Update.leaves_eq (u : Update) : u.leaves m = (List.range u.count).map fun i =>
    (u.firstPage m + i * 2 ^ m.levelShift u.level, 2 ^ m.levelShift u.level) := by
  simp only [Update.leaves, Nat.shiftLeft_eq, Nat.one_mul]

/-- A page where an entry begins is where its table begins and so many entries on. -/
theorem base_add_digit (hdvd : m.radix.weight d ∣ k) :
    k / m.radix.span d * m.radix.span d + m.radix.digit d k * m.radix.weight d = k := by
  have h₁ := Nat.div_add_mod' (k / m.radix.weight d) (m.radix.fanout d)
  rw [← Radix.div_span] at h₁
  rw [Radix.span, ← Nat.mul_assoc, ← Nat.add_mul]
  calc (k / m.radix.span d * m.radix.fanout d + m.radix.digit d k) * m.radix.weight d
      = k / m.radix.weight d * m.radix.weight d := congrArg (· * m.radix.weight d) h₁
    _ = k := Nat.div_mul_cancel hdvd

/-- The update of an entry of the table of a page writes from this page on. -/
theorem Update.firstPage_eq {u : Update} (hd : d ≤ m.radix.depth) (hk : k < coverage m)
    (hlevel : u.level = m.root_level + d) (hpath : u.path = m.radix.path d k)
    (hpe : u.pe_start = m.radix.digit d k * 8) (hdvd : m.radix.weight d ∣ k) :
    u.firstPage m = k := by
  have hbase := m.radix.base_path hd (hk.trans_le (coverage_le_span m))
  rw [Update.firstPage, tableBase_eq, hpath, hbase, hpe, Nat.mul_div_cancel _ (by decide),
    Nat.shiftLeft_eq, hlevel]
  exact base_add_digit hdvd

/-- The update of entries that end with the table and with the pages is one of the tree. -/
theorem Update.inTree {u : Update} {last : ℕ} (hd : d ≤ m.radix.depth) (hk : k < coverage m)
    (hlevel : u.level = m.root_level + d) (hpath : u.path = m.radix.path d k)
    (hpe : u.pe_start = m.radix.digit d k * 8) (hdvd : m.radix.weight d ∣ k)
    (hlast : k + u.count * m.radix.weight d = last) (hafter : last ≤ m.radix.after d k)
    (hcoverage : last ≤ coverage m) : u.InTree m := by
  have hlength : u.path.length = d := by rw [hpath, m.radix.path_length]
  refine ⟨by rw [hlevel, hlength], ?_, ?_, ?_⟩
  · rw [hlevel]
    have hdepth : d ≤ 4 - m.root_level := hd
    have hroot : m.root_level ≤ 3 := m.root_level_le
    change m.root_level + d ≤ 4
    omega
  · rw [inTables_iff, hpath]
    exact m.radix.inside_path (by rwa [← coverage_eq]) d
  · -- the entries that are written end before the table does
    rw [hpe, Nat.mul_div_cancel _ (by decide), hlevel]
    refine Nat.le_of_mul_le_mul_right ?_ (m.radix.weight_pos d)
    have hstart := base_add_digit hdvd
    rw [Nat.add_mul]
    cases d with
    | zero =>
      have hroot : k / m.radix.span 0 = 0 :=
        Nat.div_eq_of_lt (hk.trans_le (coverage_le_span m))
      rw [hroot, Nat.zero_mul, Nat.zero_add] at hstart
      rw [hstart, hlast]
      exact hcoverage.trans_eq (coverage_eq m)
    | succ d =>
      rw [opuVmNumEntries_of_ne m (by omega)]
      rw [m.radix.after_eq_add] at hafter
      have hspan : m.radix.span (d + 1) =
          2 ^ m.frame_size (m.root_level + (d + 1)) * m.radix.weight (d + 1) := rfl
      omega

/-! ### One round -/

/-- Where a round of the loop ends. -/
def roundEnd (m : VmMgr) (entry_end : ℕ) (w : Walk) : ℕ :=
  if w.cursor.level = OPU_VM_PDE then alignDown entry_end (1 <<< m.levelShift w.cursor.level)
  else min entry_end w.frag_end

/-- The entries a round writes. -/
def roundCount (m : VmMgr) (entry_end : ℕ) (w : Walk) : ℕ :=
  wrap 32 (sub64 (roundEnd m entry_end w) w.frag_start >>> m.levelShift w.cursor.level)

/-- A round of the loop over the fragments of a table. -/
def issue (m : VmMgr) (p : Params) (end_ entry_end pe_start : ℕ) (w : Walk) : Walk :=
  let level := w.cursor.level
  let incr := incrOf m level
  let upd_end := roundEnd m entry_end w
  let nptes := roundCount m entry_end w
  let cur_frag := if level = OPU_VM_PTE then OPU_PTE_FRAG w.frag else 0
  let update := amdgpuVmUpdateFlags m w.cursor pe_start w.dst nptes
    (if cur_frag ≠ 0 then 0 else incr) (p.flags ||| cur_frag)
  let w := { w with
    updates := w.updates ++ [update], dst := u64 (w.dst + nptes * incr), frag_start := upd_end }
  if w.frag_end ≤ w.frag_start ∨ level = OPU_VM_PDE then
    let (frag, frag_end) := amdgpuVmFragment m p w.frag_start end_
    { w with frag := frag, frag_end := frag_end }
  else w

theorem updateLoop_succ (entry_end n pe_start : ℕ) (w : Walk) :
    updateLoop m p end_ entry_end (n + 1) pe_start w =
      if w.cursor.level ≠ OPU_VM_PDE ∧ (issue m p end_ entry_end pe_start w).frag_start < entry_end
      then updateLoop m p end_ entry_end n
        (u64 (pe_start + wrap 32 (roundCount m entry_end w * 8)))
        (issue m p end_ entry_end pe_start w)
      else some (issue m p end_ entry_end pe_start w) :=
  rfl

/-- The fragment ends behind its start and where a base page does. -/
def FragOk (m : VmMgr) (p : Params) (end_ : ℕ) (w : Walk) : Prop :=
  w.frag_start < end_ → w.frag_start < w.frag_end ∧ m.basePages ∣ w.frag_end ∧
    (p.pages_addr = true → w.frag_end = end_)

/-- What a round of the loop does: it writes the entries of the pages up to `last`. -/
structure Issued (m : VmMgr) (p : Params) (end_ pe_start last : ℕ) (w w' : Walk) : Prop where
  cursor : w'.cursor = w.cursor
  tables : w'.tables = w.tables
  frag_start : w'.frag_start = last
  dst : w'.dst = u64 (w.dst +
    (last - w.frag_start) / 2 ^ m.levelShift w.cursor.level * incrOf m w.cursor.level)
  frag : FragOk m p end_ w'
  update : ∃ u, w'.updates = w.updates ++ [u] ∧ u.level = w.cursor.level ∧
    u.path = w.cursor.path ∧ u.pe_start = pe_start ∧ u.addr = w.dst ∧
      u.count = (last - w.frag_start) / 2 ^ m.levelShift w.cursor.level

/-- The count of a round does not wrap. -/
theorem roundCount_eq {entry_end last : ℕ} {w : Walk} (hlast : roundEnd m entry_end w = last)
    (hlt : w.frag_start < last) (hend : last < 2 ^ 64)
    (hcount : (last - w.frag_start) / 2 ^ m.levelShift w.cursor.level ≤ 2 ^ 28) :
    roundCount m entry_end w = (last - w.frag_start) / 2 ^ m.levelShift w.cursor.level := by
  rw [roundCount, hlast, sub64_of_le (Nat.le_of_lt hlt) hend, Nat.shiftRight_eq_div_pow]
  exact wrap_of_lt (Nat.lt_of_le_of_lt hcount (by decide))

/-- **A round of the loop.** -/
theorem issue_issued {entry_end last pe_start : ℕ} {w : Walk} (hend : end_ ≤ coverage m)
    (hlast : roundEnd m entry_end w = last) (hlt : w.frag_start < last) (hle : last ≤ end_)
    (hcount : (last - w.frag_start) / 2 ^ m.levelShift w.cursor.level ≤ 2 ^ 28)
    (hfrag : FragOk m p end_ w) (hdvd : m.basePages ∣ last ∧ m.basePages ∣ end_) :
    Issued m p end_ pe_start last w (issue m p end_ entry_end pe_start w) := by
  have h52 := coverage_le m
  have hcountEq := roundCount_eq hlast hlt (by omega) hcount
  have hnew : last < end_ → ∀ w' : Walk, w'.frag_start = last →
      w'.frag_end = (amdgpuVmFragment m p last end_).2 →
        w'.frag_start < w'.frag_end ∧ m.basePages ∣ w'.frag_end ∧
          (p.pages_addr = true → w'.frag_end = end_) := by
    intro hmore w' hstart hfragEnd
    rw [hstart, hfragEnd]
    exact amdgpuVmFragment_spec hmore hend hdvd
  unfold issue
  dsimp only
  rw [hlast, hcountEq]
  split
  · next hnext =>
    exact ⟨rfl, rfl, rfl, rfl, fun hmore => hnew hmore _ rfl rfl, _, rfl, rfl, rfl, rfl, rfl, rfl⟩
  · next hsame =>
    refine ⟨rfl, rfl, rfl, rfl, fun hmore => ?_, _, rfl, rfl, rfl, rfl, rfl, rfl⟩
    have hlt' := hfrag (hlt.trans_le hle)
    refine ⟨?_, hlt'.2⟩
    exact Nat.not_le.1 fun h => hsame (.inl h)

/-- The bytes that `dst` moves on by for a page of 4K: for an entry of the last level of a tree of
pages of 64K, those of the whole page of 64K. -/
def bytesPerPage (m : VmMgr) (level : ℕ) : ℕ :=
  if level = OPU_VM_SPE ∧ m.use_64k_page = true then 0x10000 else 0x1000

/-- The bytes of an entry, by its pages. -/
theorem incrOf_eq {level : ℕ} (hlevel : OPU_VM_PDE ≤ level) (hle : level ≤ OPU_VM_SPE) :
    incrOf m level = 2 ^ m.levelShift level * bytesPerPage m level := by
  have hcases : level = OPU_VM_PDE ∨ level = OPU_VM_PTE ∨ level = OPU_VM_SPE := by
    have h₁ : 2 ≤ level := hlevel
    have h₂ : level ≤ 4 := hle
    change level = 2 ∨ level = 3 ∨ level = 4
    omega
  rcases hcases with rfl | rfl | rfl
  · rw [incrOf, if_pos rfl, hugePageCount_eq, Nat.shiftLeft_eq, bytesPerPage,
      if_neg (fun h => absurd h.1 (by decide))]
    rfl
  · rw [incrOf, if_neg (by decide), two_pow_levelShift_PTE, bytesPerPage, VmMgr.basePages]
    cases m.use_64k_page <;> rfl
  · rw [incrOf, if_neg (by decide), levelShift_SPE, bytesPerPage]
    cases m.use_64k_page <;> rfl

/-- One update: the entries of the next pages, at a level. -/
structure Round (m : VmMgr) (end_ level : ℕ) (w w' : Walk) : Prop where
  lt : w.frag_start < w'.frag_start
  le : w'.frag_start ≤ end_
  dst : w'.dst =
    u64 (w.dst + (w'.frag_start - w.frag_start) * bytesPerPage m level)
  update : ∃ u, w'.updates = w.updates ++ [u] ∧ u.InTree m ∧ u.firstPage m = w.frag_start ∧
    u.addr = w.dst ∧ w.frag_start + u.count * 2 ^ m.levelShift u.level = w'.frag_start

/-- The table of the page `k` at the depth `d` is written, and has been up to `frag_start`. -/
structure InTable (m : VmMgr) (d k end_ : ℕ) (w : Walk) : Prop where
  cursor : w.cursor = m.cursorAt d k
  same : w.frag_start / m.radix.span d = k / m.radix.span d
  lt : w.frag_start < end_
  dvd : m.radix.weight d ∣ w.frag_start

/-- The byte offset of the entry of a page in its table. -/
def entryOffset (m : VmMgr) (d k : ℕ) : ℕ := m.radix.digit d k * 8

theorem after_congr {k' : ℕ} (h : k / m.radix.span d = k' / m.radix.span d) :
    m.radix.after d k = m.radix.after d k' := by
  rw [Radix.after, Radix.after, h]

/-- The entries from one page to another in the same table are not more than it has. -/
theorem count_le {f last : ℕ} (hafter : last ≤ m.radix.after d f) :
    (last - f) / m.radix.weight d ≤ m.radix.fanout d := by
  refine Nat.div_le_of_le_mul ?_
  rw [m.radix.after_eq_add, Radix.span] at hafter
  have := Nat.div_mul_le_self f (m.radix.fanout d * m.radix.weight d)
  rw [Nat.mul_comm]
  omega

/-- **A round in a table** is an update. -/
theorem issue_round {entry_end last : ℕ} {w : Walk} (hd : d ≤ m.radix.depth)
    (hlevel : OPU_VM_PDE ≤ m.root_level + d) (hend : end_ ≤ coverage m)
    (hw : InTable m d k end_ w) (hfrag : FragOk m p end_ w)
    (hlast : roundEnd m entry_end w = last) (hlt : w.frag_start < last) (hle : last ≤ end_)
    (hafter : last ≤ m.radix.after d k) (hdvd : m.radix.weight d ∣ last)
    (hbase : m.basePages ∣ last ∧ m.basePages ∣ end_) :
    Issued m p end_ (entryOffset m d w.frag_start) last w
        (issue m p end_ entry_end (entryOffset m d w.frag_start) w) ∧
      Round m end_ (m.root_level + d) w
        (issue m p end_ entry_end (entryOffset m d w.frag_start) w) ∧
        roundCount m entry_end w = (last - w.frag_start) / m.radix.weight d := by
  have hshift : 2 ^ m.levelShift w.cursor.level = m.radix.weight d := by
    rw [hw.cursor]
    rfl
  rw [← after_congr hw.same] at hafter
  have hcount : (last - w.frag_start) / 2 ^ m.levelShift w.cursor.level ≤ 2 ^ 28 := by
    rw [hshift]
    refine (count_le hafter).trans ?_
    exact Nat.pow_le_pow_right (by decide) (m.frame_size_le _)
  have hissued : Issued m p end_ (entryOffset m d w.frag_start) last w
      (issue m p end_ entry_end (entryOffset m d w.frag_start) w) :=
    issue_issued hend hlast hlt hle hcount hfrag hbase
  have hroundCount := roundCount_eq hlast hlt (Nat.lt_of_le_of_lt (hle.trans hend)
    (Nat.lt_of_le_of_lt (coverage_le m) (by decide))) hcount
  rw [hshift] at hroundCount
  refine ⟨hissued, ?_, hroundCount⟩
  obtain ⟨u, hupdates, hulevel, hupath, hpe, haddr, hucount⟩ := hissued.update
  have hk : w.frag_start < coverage m := hw.lt.trans_le hend
  have hpath : u.path = m.radix.path d w.frag_start := by
    rw [hupath, hw.cursor]
    exact m.radix.path_congr hd hw.same.symm
  have hlevel' : u.level = m.root_level + d := by
    rw [hulevel, hw.cursor]
    rfl
  have hlast' : w.frag_start + u.count * m.radix.weight d = last := by
    rw [hucount, hshift, Nat.div_mul_cancel (Nat.dvd_sub hdvd hw.dvd)]
    omega
  have hle4 : m.root_level + d ≤ OPU_VM_SPE := by
    have hdepth : d ≤ 4 - m.root_level := hd
    have hroot : m.root_level ≤ 3 := m.root_level_le
    change m.root_level + d ≤ 4
    omega
  constructor
  case lt => rwa [hissued.frag_start]
  case le => rwa [hissued.frag_start]
  case dst =>
    have hcursor : w.cursor.level = m.root_level + d := by rw [hw.cursor]; rfl
    rw [hissued.dst, hissued.frag_start, hcursor, incrOf_eq hlevel hle4, ← Nat.mul_assoc,
      Nat.div_mul_cancel]
    exact Nat.dvd_sub hdvd hw.dvd
  case update =>
    refine ⟨u, hupdates, ?_, ?_, haddr, ?_⟩
    · exact Update.inTree hd hk hlevel' hpath hpe hw.dvd hlast' hafter (hle.trans hend)
    · exact Update.firstPage_eq hd hk hlevel' hpath hpe hw.dvd
    · rw [hissued.frag_start, hlevel']
      exact hlast'

/-- The byte offset moves on with the entries. -/
theorem entryOffset_add {f last : ℕ} (hf : m.radix.weight d ∣ f) (hlast : m.radix.weight d ∣ last)
    (hle : f ≤ last) (hsame : last / m.radix.span d = f / m.radix.span d) :
    u64 (entryOffset m d f + wrap 32 ((last - f) / m.radix.weight d * 8)) =
      entryOffset m d last := by
  have h₁ := base_add_digit hf
  have h₂ := base_add_digit hlast
  have h₃ : (last - f) / m.radix.weight d * m.radix.weight d = last - f :=
    Nat.div_mul_cancel (Nat.dvd_sub hlast hf)
  have hdigit : m.radix.digit d last = m.radix.digit d f + (last - f) / m.radix.weight d := by
    refine Nat.eq_of_mul_eq_mul_right (m.radix.weight_pos d) ?_
    rw [hsame] at h₂
    rw [Nat.add_mul]
    omega
  have hfanout : m.radix.fanout d ≤ 2 ^ 28 :=
    Nat.pow_le_pow_right (by decide) (m.frame_size_le _)
  have hlt := m.radix.digit_lt d last
  rw [entryOffset, entryOffset, wrap_of_lt (by omega), u64_of_lt (by omega)]
  omega

/-- The weights of the levels of entries for pages. -/
theorem weight_dvd_basePages (hlevel : OPU_VM_PTE ≤ m.root_level + d) (hd : d ≤ m.radix.depth) :
    m.radix.weight d ∣ m.basePages := by
  have hcases : m.root_level + d = OPU_VM_PTE ∨ m.root_level + d = OPU_VM_SPE := by
    have h₁ : 3 ≤ m.root_level + d := hlevel
    have h₂ : d ≤ 4 - m.root_level := hd
    have h₃ : m.root_level ≤ 3 := m.root_level_le
    change m.root_level + d = 3 ∨ m.root_level + d = 4
    omega
  have hweight : m.radix.weight d = 2 ^ m.levelShift (m.root_level + d) := rfl
  rcases hcases with h | h
  · rw [hweight, h, two_pow_levelShift_PTE]
  · rw [hweight, h, levelShift_SPE]
    exact Nat.one_dvd _

/-- The tables end where base pages do. -/
theorem basePages_dvd_span (hd : d ≤ m.radix.depth) : m.basePages ∣ m.radix.span d := by
  have hlast : m.root_level + m.radix.depth = OPU_VM_SPE := by
    have hroot : m.root_level ≤ 3 := m.root_level_le
    change m.root_level + (4 - m.root_level) = 4
    omega
  have hspan : m.radix.span m.radix.depth = m.basePages := by
    have hfanout : m.radix.span m.radix.depth =
        2 ^ m.frame_size (m.root_level + m.radix.depth) *
          2 ^ m.levelShift (m.root_level + m.radix.depth) := rfl
    rw [hfanout, hlast, levelShift_SPE, Nat.pow_zero, Nat.mul_one, ← levelShift_PTE,
      two_pow_levelShift_PTE]
  rw [← hspan]
  exact m.radix.span_dvd_span hd le_rfl

/-- What divides two numbers divides the smaller one. -/
theorem dvd_min {x y z : ℕ} (hy : x ∣ y) (hz : x ∣ z) : x ∣ min y z := by
  rcases Nat.le_total y z with h | h
  · rwa [Nat.min_eq_left h]
  · rwa [Nat.min_eq_right h]

/-- A page in front of the end of a table is in it. -/
theorem div_span_of_lt_after {f last : ℕ} (hle : f ≤ last) (hlt : last < m.radix.after d f) :
    last / m.radix.span d = f / m.radix.span d := by
  refine Nat.le_antisymm ?_ (Nat.div_le_div_right hle)
  exact Nat.le_of_lt_succ ((Nat.div_lt_iff_lt_mul (m.radix.span_pos d)).2 hlt)

/-- **The loop over a table** of entries for pages writes all of them that are in the range. -/
theorem updateLoop_spec {I : Walk → Prop}
    (hI : ∀ w w', Round m end_ (m.root_level + d) w w' → I w → I w')
    (hd : d ≤ m.radix.depth) (hlevel : OPU_VM_PTE ≤ m.root_level + d) (hend : end_ ≤ coverage m)
    (hbase : m.basePages ∣ end_) (n : ℕ) (w : Walk) (hw : InTable m d k end_ w)
    (hlt : w.frag_start < min (m.radix.after d k) end_) (hfrag : FragOk m p end_ w) (hIw : I w)
    (hn : min (m.radix.after d k) end_ - w.frag_start ≤ n) :
    ∃ w', updateLoop m p end_ (min (m.radix.after d k) end_) n
        (entryOffset m d w.frag_start) w = some w' ∧
      w'.cursor = w.cursor ∧ w'.tables = w.tables ∧
      w'.frag_start = min (m.radix.after d k) end_ ∧ FragOk m p end_ w' ∧ I w' := by
  have hentryEnd : m.basePages ∣ min (m.radix.after d k) end_ :=
    dvd_min ((basePages_dvd_span hd).trans (m.radix.span_dvd_after d k)) hbase
  have hweight := weight_dvd_basePages hlevel hd
  have hne : m.root_level + d ≠ OPU_VM_PDE := by
    have h : 3 ≤ m.root_level + d := hlevel
    change m.root_level + d ≠ 2
    omega
  generalize hE : min (m.radix.after d k) end_ = entry_end at hlt hn hentryEnd ⊢
  have hafter : entry_end ≤ m.radix.after d k := hE ▸ Nat.min_le_left ..
  have hle : entry_end ≤ end_ := hE ▸ Nat.min_le_right ..
  induction n generalizing w with
  | zero => omega
  | succ n ih =>
    obtain ⟨hfragEnd, hfragBase, -⟩ := hfrag hw.lt
    have hround : roundEnd m entry_end w = min entry_end w.frag_end := by
      have hcursor : w.cursor.level ≠ OPU_VM_PDE := by rwa [hw.cursor]
      rw [roundEnd, if_neg hcursor]
    have hlast : m.basePages ∣ min entry_end w.frag_end := dvd_min hentryEnd hfragBase
    obtain ⟨hissued, hroundOk, hcount⟩ := issue_round hd (Nat.le_of_succ_le hlevel) hend hw hfrag
      hround (by omega) (by omega) (by omega) (hweight.trans hlast) ⟨hlast, hbase⟩
    have hI' := hI _ _ hroundOk hIw
    rw [updateLoop_succ]
    by_cases hmore : (issue m p end_ entry_end (entryOffset m d w.frag_start) w).frag_start <
        entry_end
    · have hcursor : w.cursor.level ≠ OPU_VM_PDE := by rwa [hw.cursor]
      have hsame : min entry_end w.frag_end / m.radix.span d =
          w.frag_start / m.radix.span d := by
        refine div_span_of_lt_after (by omega) ?_
        rw [hissued.frag_start] at hmore
        rw [after_congr hw.same]
        exact hmore.trans_le hafter
      have hoffset : u64 (entryOffset m d w.frag_start + wrap 32 (roundCount m entry_end w * 8)) =
          entryOffset m d
            (issue m p end_ entry_end (entryOffset m d w.frag_start) w).frag_start := by
        rw [hcount, hissued.frag_start]
        exact entryOffset_add hw.dvd (hweight.trans hlast) (by omega) hsame
      rw [if_pos ⟨hcursor, hmore⟩, hoffset]
      obtain ⟨w', hloop, hcursor', htables', hrest⟩ := ih _ {
        cursor := hissued.cursor.trans hw.cursor
        same := by rw [hissued.frag_start, hsame, hw.same]
        lt := hmore.trans_le hle
        dvd := by
          rw [hissued.frag_start]
          exact hweight.trans hlast } hissued.frag hI' hmore (by
            have := hissued.frag_start
            omega)
      exact ⟨w', hloop, hcursor'.trans hissued.cursor, htables'.trans hissued.tables, hrest⟩
    · rw [if_neg (fun h => hmore h.2)]
      refine ⟨_, rfl, hissued.cursor, hissued.tables, ?_, hissued.frag, hI'⟩
      have := hissued.frag_start
      omega

/-- What is aligned is no further than the aligned part. -/
theorem le_alignDown {x y z : ℕ} (hx : z ∣ x) (hle : x ≤ y) : x ≤ alignDown y z := by
  obtain ⟨q, rfl⟩ := hx
  rcases Nat.eq_zero_or_pos z with rfl | hz
  · simp [alignDown]
  · rw [alignDown, Nat.mul_comm]
    exact Nat.mul_le_mul_right _ ((Nat.le_div_iff_mul_le hz).2 (by rwa [Nat.mul_comm]))

/-- **A table of huge pages** is written in one round, up to where the last huge page ends that the
range has of it. -/
theorem updateLoop_huge (hd : d ≤ m.radix.depth) (hlevel : m.root_level + d = OPU_VM_PDE)
    (hend : end_ ≤ coverage m) (hbase : m.basePages ∣ end_) (n : ℕ) {w : Walk}
    (hw : InTable m d k end_ w) (hfrag : FragOk m p end_ w)
    (hhuge : m.radix.weight d ≤ end_ - w.frag_start) :
    ∃ w', updateLoop m p end_ (min (m.radix.after d k) end_) (n + 1)
        (entryOffset m d w.frag_start) w = some w' ∧
      w'.cursor = w.cursor ∧ w'.tables = w.tables ∧
      w'.frag_start = alignDown (min (m.radix.after d k) end_) (m.radix.weight d) ∧
      FragOk m p end_ w' ∧ Round m end_ (m.root_level + d) w w' := by
  have hcursor : w.cursor.level = OPU_VM_PDE := by
    rw [hw.cursor]
    exact hlevel
  have hround : roundEnd m (min (m.radix.after d k) end_) w =
      alignDown (min (m.radix.after d k) end_) (m.radix.weight d) := by
    rw [roundEnd, if_pos hcursor, hcursor, Nat.one_shiftLeft, ← hlevel]
    rfl
  have hdvd : m.radix.weight d ∣ alignDown (min (m.radix.after d k) end_) (m.radix.weight d) :=
    dvd_alignDown ..
  have hweight : m.basePages ∣ m.radix.weight d := by
    have hcount : m.radix.weight d = hugePageCount m := by
      rw [hugePageCount_eq, ← hlevel]
      rfl
    rw [hcount]
    exact basePages_dvd_hugePageCount
  have hpos := m.radix.weight_pos d
  have hlt : w.frag_start < alignDown (min (m.radix.after d k) end_) (m.radix.weight d) := by
    have hnext : w.frag_start + m.radix.weight d ≤ m.radix.after d k := by
      rw [← after_congr hw.same]
      have hlt := m.radix.lt_after d w.frag_start
      have hdvd := (m.radix.weight_dvd_span d).trans (m.radix.span_dvd_after d w.frag_start)
      have := Nat.le_of_dvd (Nat.sub_pos_of_lt hlt) (Nat.dvd_sub hdvd hw.dvd)
      omega
    have hle := le_alignDown (Nat.dvd_add hw.dvd (Nat.dvd_refl _))
      (show w.frag_start + m.radix.weight d ≤ min (m.radix.after d k) end_ by omega)
    omega
  have hle : alignDown (min (m.radix.after d k) end_) (m.radix.weight d) ≤
      min (m.radix.after d k) end_ := alignDown_le ..
  obtain ⟨hissued, hroundOk, -⟩ := issue_round hd (Nat.le_of_eq hlevel.symm) hend hw hfrag hround
    hlt (hle.trans (Nat.min_le_right ..)) (hle.trans (Nat.min_le_left ..)) hdvd
    ⟨hweight.trans hdvd, hbase⟩
  rw [updateLoop_succ, if_neg (fun h => h.1 hcursor)]
  exact ⟨_, rfl, hissued.cursor, hissued.tables, hissued.frag_start, hissued.frag, hroundOk⟩

/-- **A table in one round:** where the addresses of the pages are given one by one, the fragment is
the rest of the range. -/
theorem updateLoop_pages (hp : p.pages_addr = true) (hd : d ≤ m.radix.depth)
    (hlevel : OPU_VM_PTE ≤ m.root_level + d) (hend : end_ ≤ coverage m)
    (hbase : m.basePages ∣ end_) (n : ℕ) {w : Walk} (hw : InTable m d k end_ w)
    (hlt : w.frag_start < min (m.radix.after d k) end_) (hfrag : FragOk m p end_ w) :
    ∃ w', updateLoop m p end_ (min (m.radix.after d k) end_) (n + 1)
        (entryOffset m d w.frag_start) w = some w' ∧
      w'.cursor = w.cursor ∧ w'.tables = w.tables ∧
      w'.frag_start = min (m.radix.after d k) end_ ∧ FragOk m p end_ w' ∧
        Round m end_ (m.root_level + d) w w' := by
  have hne : w.cursor.level ≠ OPU_VM_PDE := by
    rw [hw.cursor]
    have h : 3 ≤ m.root_level + d := hlevel
    change m.root_level + d ≠ 2
    omega
  have hround : roundEnd m (min (m.radix.after d k) end_) w = min (m.radix.after d k) end_ := by
    rw [roundEnd, if_neg hne, (hfrag hw.lt).2.2 hp, Nat.min_assoc, Nat.min_self]
  have hbases : m.basePages ∣ min (m.radix.after d k) end_ :=
    dvd_min ((basePages_dvd_span hd).trans (m.radix.span_dvd_after d k)) hbase
  obtain ⟨hissued, hroundOk, -⟩ := issue_round hd (Nat.le_of_succ_le hlevel) hend hw hfrag hround
    hlt (Nat.min_le_right ..) (Nat.min_le_left ..) ((weight_dvd_basePages hlevel hd).trans hbases)
    ⟨hbases, hbase⟩
  have hdone : ¬(issue m p end_ (min (m.radix.after d k) end_)
      (entryOffset m d w.frag_start) w).frag_start < min (m.radix.after d k) end_ := by
    rw [hissued.frag_start]
    exact Nat.lt_irrefl _
  rw [updateLoop_succ, if_neg (fun h => hdone h.2)]
  exact ⟨_, rfl, hissued.cursor, hissued.tables, hissued.frag_start, hissued.frag, hroundOk⟩

end Codrive.Vm
