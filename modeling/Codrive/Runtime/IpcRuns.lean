/-
# Imports, over every run

`attach_create_iff` says when attaching to a handle gives the byte that was shared: the word that
holds the size must have room for the mark and the place of a fragment.  `Inv.detach` says that an
address that was attached is detached with its import.  `imports_of_run` puts them together.

The word holds pages of the system, and the decoder takes the lowest nine bits of it for the place
of a fragment in pages of 4K.  A block of 2M has 512 pages of 4K, so these bits are free; where
pages are larger, they are not.
-/

import Codrive.Aperture.SharingSpec
import Codrive.Basis.Run
import Codrive.Runtime.Ipc
import Codrive.Runtime.MemoryRuns

namespace Codrive.Runtime

open Codrive.Basis Codrive.Aperture

/-! ### The word -/

section Word

variable {pages offset : ℕ}

/-- The mark is there. -/
theorem isFragment_mark (handle : HsaSharedMemoryStruct) (offset : ℕ) :
    isFragment (markFragment handle offset) = true := by
  unfold isFragment markFragment
  refine decide_eq_true fun hzero => ?_
  have hbit := congrArg (Nat.testBit · 31) hzero
  simp [fragmentFlag, show (2147483648 : ℕ).testBit 31 = true by decide] at hbit

/-- No mark is in a word of 31 bits. -/
theorem isFragment_of_lt {handle : HsaSharedMemoryStruct} (h : handle.SizeInPages < 2 ^ 31) :
    isFragment handle = false := by
  unfold isFragment
  refine decide_eq_false (not_not.2 ?_)
  refine Nat.eq_of_testBit_eq fun i => ?_
  rw [Nat.testBit_and, Nat.zero_testBit, show fragmentFlag = 2 ^ 31 by rfl, Nat.testBit_two_pow]
  by_cases hi : 31 = i
  · rw [← hi, Nat.testBit_lt_two_pow h, Bool.false_and]
  · rw [decide_eq_false hi, Bool.and_false]

/-- The place that is read. -/
theorem word_and_offsetMask : (pages ||| (fragmentFlag ||| offset)) &&& offsetMask =
    pages % 512 ||| offset % 512 := by
  rw [show offsetMask = 2 ^ 9 - 1 by rfl, Nat.and_two_pow_sub_one_eq_mod, Nat.or_mod_two_pow,
    Nat.or_mod_two_pow]
  rw [show fragmentFlag % 2 ^ 9 = 0 by rfl, Nat.zero_or]

/-- The size that is read. -/
theorem word_and_sizeMask : (pages ||| (fragmentFlag ||| offset)) &&&
    (0xFFFFFFFF ^^^ (fragmentFlag ||| offsetMask)) =
      (pages % 2 ^ 31 / 512 ||| offset % 2 ^ 31 / 512) * 512 := by
  refine Nat.eq_of_testBit_eq fun i => ?_
  rw [show 0xFFFFFFFF ^^^ (fragmentFlag ||| offsetMask) = (2 ^ 22 - 1) <<< 9 by decide]
  rw [show 512 = 2 ^ 9 by rfl, ← Nat.shiftLeft_eq]
  simp only [Nat.testBit_and, Nat.testBit_or, Nat.testBit_shiftLeft, Nat.testBit_two_pow_sub_one,
    Nat.testBit_div_two_pow, Nat.testBit_mod_two_pow]
  rw [show fragmentFlag = 2 ^ 31 by rfl, Nat.testBit_two_pow]
  by_cases hlow : i < 9
  · simp [Nat.not_le.2 hlow]
  · have hback : i - 9 + 9 = i := by omega
    by_cases hhigh : i < 31
    · have hne : 31 ≠ i := by omega
      simp [hback, hhigh, hne, show i - 9 < 22 by omega, show 9 ≤ i by omega]
    · simp [hback, hhigh, show ¬i - 9 < 22 by omega]

end Word

/-! ### Creating and attaching -/

/-- The block that `PtrInfo` tells of. -/
def blockOf (thunkInfo : HsaPointerInfo) : PtrInfoBlockData where
  base := if thunkInfo.CPUAddress ≠ 0 then thunkInfo.CPUAddress else thunkInfo.GPUAddress
  length := thunkInfo.SizeInBytes

/-- **The handle has room for the fragment**, and the fragment begins in the pages that are shared.
-/
def Fits (PAGE_SHIFT : ℕ) (block : PtrInfoBlockData) (ptr len : ℕ) : Prop :=
  block.length >>> PAGE_SHIFT < 2 ^ 31 ∧
    ptr - block.base < block.length >>> PAGE_SHIFT <<< PAGE_SHIFT ∧
    (block.base ≠ ptr ∨ block.length ≠ len →
      512 ∣ block.length >>> PAGE_SHIFT ∧ 4096 ∣ ptr - block.base ∧ ptr - block.base < 2 ^ 21)

/-- **The address is that of the byte that was shared**, and the import is made from the handle of
the block. -/
structure Corresponds (shared : HsaSharedMemoryStruct) (offset : ℕ) (address : Option ℕ)
    (i : Import) : Prop where
  address : address = some (i.base + offset)
  handle : i.handle = shared
  inside : offset < i.size

variable {ndebug : Bool} {m : AllocationMap} {mm : MemMgr} {ptr len : ℕ} {err exported : Bool}
  {thunkInfo : HsaPointerInfo} {driver : Option ℕ} {handle shared : HsaSharedMemoryStruct}
  {PAGE_SHIFT : ℕ}

/-- The handle of a block has its size in a word. -/
theorem sizeInPages_lt {address size : ℕ}
    (h : mm.mmShareMemory address size driver = (.success, some shared)) :
    shared.SizeInPages < 2 ^ 32 := by
  obtain ⟨-, hpages, -⟩ := MemMgr.mmShareMemory_success h
  rw [hpages]
  by_cases hsize : 2 ^ (32 + mm.PAGE_SHIFT) ≤ size
  · unfold MemMgr.mmShareMemory at h
    rw [if_pos hsize] at h
    exact nomatch (Prod.mk.inj h).1
  · rw [Nat.shiftRight_eq_div_pow]
    refine Nat.div_lt_of_lt_mul ?_
    rw [← Nat.pow_add, Nat.add_comm]
    omega

/-- **What `IPCCreate` gives**: the handle of a whole block, or that of the block with the mark and
the place of a fragment. -/
theorem ipcCreate_success (h : ipcCreate ndebug m mm ptr len err thunkInfo driver exported =
      some (.success, some handle)) :
    ∃ shared, mm.mmShareMemory (blockOf thunkInfo).base (blockOf thunkInfo).length driver =
        (.success, some shared) ∧
      ((blockOf thunkInfo).base = ptr ∧ (blockOf thunkInfo).length = len ∧ handle = shared ∨
        ((blockOf thunkInfo).base ≠ ptr ∨ (blockOf thunkInfo).length ≠ len) ∧
          handle = markFragment shared (wrap 32 (sub64 ptr (blockOf thunkInfo).base / 4096))) := by
  unfold ipcCreate at h
  by_cases hlen : 0x7FFFFFFF000 < len
  · rw [if_pos hlen] at h
    exact nomatch (Prod.mk.inj (Option.some.inj h)).1
  rw [if_neg hlen] at h
  obtain ⟨⟨status, info⟩, hinfo, h⟩ := Option.bind_eq_some_iff.1 h
  obtain ⟨-, i, hi, -⟩ := ptrInfo_eq (by decide) hinfo
  obtain rfl : info = some (i, blockOf thunkInfo) := hi
  dsimp only at h
  by_cases hwrong : i.agentBaseAddress ≠ ptr ∨ i.sizeInBytes ≠ len
  · rw [if_pos hwrong] at h
    exact nomatch (Prod.mk.inj (Option.some.inj h)).1
  rw [if_neg hwrong] at h
  by_cases hfragment : (blockOf thunkInfo).base ≠ ptr ∨ (blockOf thunkInfo).length ≠ len
  · rw [if_pos hfragment] at h
    by_cases haligned : (blockOf thunkInfo).base % (2 * 1024 * 1024) ≠ 0
    · rw [if_pos haligned] at h
      obtain ⟨-, -, h⟩ := Option.bind_eq_some_iff.1 h
      exact nomatch (Prod.mk.inj (Option.some.inj h)).1
    · rw [if_neg haligned] at h
      split at h
      · rename_i shared hshared
        split at h
        · exact nomatch h
        · obtain ⟨-, -, h⟩ := Option.bind_eq_some_iff.1 h
          obtain ⟨-, hhandle⟩ := Prod.mk.inj (Option.some.inj h)
          exact ⟨shared, hshared, .inr ⟨hfragment, (Option.some.inj hhandle).symm⟩⟩
      · exact nomatch (Prod.mk.inj (Option.some.inj h)).1
  · rw [if_neg hfragment] at h
    obtain ⟨hbase, hlength⟩ := not_or.1 hfragment
    rw [not_not] at hbase hlength
    split at h
    · rename_i shared hshared
      obtain ⟨-, hhandle⟩ := Prod.mk.inj (Option.some.inj h)
      refine ⟨shared, ?_, .inl ⟨hbase, hlength, (Option.some.inj hhandle).symm⟩⟩
      rw [hbase, hlength]
      exact hshared
    · exact nomatch (Prod.mk.inj (Option.some.inj h)).1

/-- The address an attach gives. -/
theorem ipcAttach_address (PAGE_SHIFT : ℕ) (s : Importer) (handle : HsaSharedMemoryStruct)
    (len base : ℕ) : (s.ipcAttach PAGE_SHIFT handle len (some base) true).2.1 =
      some (if isFragment handle then u64 (base + fragOffset handle) else base) := by
  unfold Importer.ipcAttach
  dsimp only
  rw [if_neg (by decide)]
  split_ifs <;> rfl

/-- **A whole block.** -/
theorem corresponds_whole_iff {s : Importer} {base : ℕ} (hlt : shared.SizeInPages < 2 ^ 32) :
    Corresponds shared 0 (s.ipcAttach PAGE_SHIFT shared len (some base) true).2.1
        (Importer.newImport PAGE_SHIFT shared base) ↔
      shared.SizeInPages < 2 ^ 31 ∧ 0 < shared.SizeInPages <<< PAGE_SHIFT := by
  constructor
  · rintro ⟨-, hhandle, hinside⟩
    have hpages := congrArg HsaSharedMemoryStruct.SizeInPages hhandle
    unfold Importer.newImport at hpages hinside
    dsimp only at hpages hinside
    rw [hpages] at hinside
    refine ⟨?_, hinside⟩
    cases hf : isFragment shared with
    | true =>
      unfold importHandle at hpages
      rw [hf, if_pos rfl] at hpages
      dsimp only at hpages
      rw [← hpages]
      exact Nat.lt_of_le_of_lt Nat.and_le_right (by decide)
    | false =>
      unfold isFragment at hf
      have hzero := not_not.1 (of_decide_eq_false hf)
      have hbit := congrArg (Nat.testBit · 31) hzero
      rw [Nat.testBit_and, Nat.zero_testBit, show fragmentFlag = 2 ^ 31 by rfl,
        Nat.testBit_two_pow_self, Bool.and_true, Nat.testBit_eq_decide_div_mod_eq,
        decide_eq_false_iff_not] at hbit
      omega
  · rintro ⟨hpages, hinside⟩
    have hf := isFragment_of_lt hpages
    have himport : importHandle shared = shared := by
      unfold importHandle
      rw [hf]
      rfl
    refine ⟨?_, himport, ?_⟩
    · rw [ipcAttach_address, hf]
      rfl
    · unfold Importer.newImport
      rw [himport]
      exact hinside

/-- **A fragment.** -/
theorem corresponds_fragment_iff {s : Importer} {base offset : ℕ}
    (hlt : base + (Importer.newImport PAGE_SHIFT
      (markFragment shared (wrap 32 (offset / 4096))) base).size < 2 ^ 64) :
    Corresponds shared offset
        (s.ipcAttach PAGE_SHIFT (markFragment shared (wrap 32 (offset / 4096))) len (some base)
          true).2.1
        (Importer.newImport PAGE_SHIFT (markFragment shared (wrap 32 (offset / 4096))) base) ↔
      shared.SizeInPages < 2 ^ 31 ∧ offset < shared.SizeInPages <<< PAGE_SHIFT ∧
        512 ∣ shared.SizeInPages ∧ 4096 ∣ offset ∧ offset < 2 ^ 21 := by
  have hf := isFragment_mark shared (wrap 32 (offset / 4096))
  generalize ho : wrap 32 (offset / 4096) = o at hlt hf ⊢
  -- What the handle is read as.
  have hpages : (importHandle (markFragment shared o)).SizeInPages =
      (shared.SizeInPages % 2 ^ 31 / 512 ||| o % 2 ^ 31 / 512) * 512 := by
    unfold importHandle
    rw [if_pos hf]
    exact word_and_sizeMask
  have hoffset : fragOffset (markFragment shared o) =
      (shared.SizeInPages % 512 ||| o % 512) * 4096 := by
    unfold fragOffset
    rw [if_pos hf]
    exact congrArg (· * 4096) word_and_offsetMask
  have haddress := ipcAttach_address PAGE_SHIFT s (markFragment shared o) len base
  rw [if_pos hf] at haddress
  rw [haddress]
  constructor
  · rintro ⟨haddress, hhandle, hinside⟩
    have hsize : (importHandle (markFragment shared o)).SizeInPages = shared.SizeInPages :=
      congrArg HsaSharedMemoryStruct.SizeInPages hhandle
    have hinside' : offset < shared.SizeInPages <<< PAGE_SHIFT := by
      unfold Importer.newImport at hinside
      dsimp only at hinside
      rwa [hsize] at hinside
    rw [hpages] at hsize
    have hlow : shared.SizeInPages % 512 = 0 := by
      rw [← hsize]
      exact Nat.mul_mod_left _ _
    have hor : shared.SizeInPages % 2 ^ 31 / 512 ||| o % 2 ^ 31 / 512 < 2 ^ 22 :=
      Nat.or_lt_two_pow (by omega) (by omega)
    rw [hoffset, hlow, Nat.zero_or] at haddress
    have hu := Option.some.inj haddress
    unfold u64 wrap at hu
    have hbase : base + offset < 2 ^ 64 := by
      have hlt' : base + (Importer.newImport PAGE_SHIFT (markFragment shared o) base).size <
        2 ^ 64 := hlt
      exact Nat.lt_trans (Nat.add_lt_add_left hinside base) hlt'
    have heq : offset = o % 512 * 4096 := by
      unfold Importer.newImport at hu
      dsimp only at hu
      omega
    exact ⟨by omega, hinside', Nat.dvd_of_mod_eq_zero hlow, ⟨o % 512, by omega⟩, by omega⟩
  · rintro ⟨hlt31, hinside, hlow, ⟨k, hk⟩, hlt21⟩
    have hk' : o = k := by
      rw [← ho, hk, Nat.mul_div_cancel_left _ (by decide)]
      exact wrap_of_lt (by omega)
    subst hk'
    have hsame : importHandle (markFragment shared o) = shared := by
      have hback : (importHandle (markFragment shared o)).SizeInPages = shared.SizeInPages := by
        rw [hpages, show o % 2 ^ 31 / 512 = 0 by omega, Nat.or_zero]
        omega
      unfold importHandle at hback ⊢
      rw [if_pos hf] at hback ⊢
      dsimp only at hback
      rw [hback]
      rfl
    have hsize : (Importer.newImport PAGE_SHIFT (markFragment shared o) base).size =
        shared.SizeInPages <<< PAGE_SHIFT := by
      unfold Importer.newImport
      rw [hsame]
    rw [hsize] at hlt
    refine ⟨?_, hsame, hsize ▸ hinside⟩
    rw [hoffset, Nat.mod_eq_zero_of_dvd hlow, Nat.zero_or, Nat.mod_eq_of_lt (by omega),
      u64_of_lt (by omega)]
    refine congrArg some ?_
    unfold Importer.newImport
    dsimp only
    omega

/-- **Attaching gives what was shared, if the handle has room for it.** -/
theorem attach_create_iff (hcreate : ipcCreate ndebug m mm ptr len err thunkInfo driver exported =
      some (.success, some handle)) (hbase : (blockOf thunkInfo).base ≤ ptr) (hptr : ptr < 2 ^ 64)
    {s : Importer} {base len' : ℕ}
    (hlt : base + (Importer.newImport mm.PAGE_SHIFT handle base).size < 2 ^ 64) :
    (∃ shared, mm.mmShareMemory (blockOf thunkInfo).base (blockOf thunkInfo).length driver =
        (.success, some shared) ∧
      Corresponds shared (ptr - (blockOf thunkInfo).base)
        (s.ipcAttach mm.PAGE_SHIFT handle len' (some base) true).2.1
        (Importer.newImport mm.PAGE_SHIFT handle base)) ↔
      Fits mm.PAGE_SHIFT (blockOf thunkInfo) ptr len := by
  obtain ⟨shared, hshared, hcases⟩ := ipcCreate_success hcreate
  obtain ⟨-, hpages, -⟩ := MemMgr.mmShareMemory_success hshared
  -- The block has one handle.
  have honly : ∀ {P : HsaSharedMemoryStruct → Prop},
      (∃ shared, mm.mmShareMemory (blockOf thunkInfo).base (blockOf thunkInfo).length driver =
        (.success, some shared) ∧ P shared) ↔ P shared := by
    intro P
    constructor
    · rintro ⟨shared', hshared', hP⟩
      obtain rfl := Option.some.inj (Prod.mk.inj (hshared.symm.trans hshared')).2
      exact hP
    · exact fun hP => ⟨shared, hshared, hP⟩
  rw [honly]
  unfold Fits
  rw [← hpages]
  rcases hcases with ⟨hb, hl, rfl⟩ | ⟨hfragment, rfl⟩
  · rw [hb, Nat.sub_self, corresponds_whole_iff (sizeInPages_lt hshared)]
    constructor
    · rintro ⟨hlt31, hinside⟩
      exact ⟨hlt31, hinside, fun hne => absurd hne (not_or.2 ⟨not_not.2 rfl, not_not.2 hl⟩)⟩
    · rintro ⟨hlt31, hinside, -⟩
      exact ⟨hlt31, hinside⟩
  · rw [sub64_of_le hbase hptr] at hlt ⊢
    rw [corresponds_fragment_iff hlt]
    constructor
    · rintro ⟨hlt31, hinside, hrest⟩
      exact ⟨hlt31, hinside, fun _ => hrest⟩
    · rintro ⟨hlt31, hinside, hrest⟩
      exact ⟨hlt31, hinside, hrest hfragment⟩

/-! ### Runs -/

/-- The handle was created, and has room for what was shared. -/
def Made (ndebug : Bool) (PAGE_SHIFT : ℕ) (handle : HsaSharedMemoryStruct) : Prop :=
  ∃ (m : AllocationMap) (mm : MemMgr) (ptr len : ℕ) (err : Bool) (thunkInfo : HsaPointerInfo)
    (driver : Option ℕ) (exported : Bool),
    ipcCreate ndebug m mm ptr len err thunkInfo driver exported = some (.success, some handle) ∧
      mm.PAGE_SHIFT = PAGE_SHIFT ∧ (blockOf thunkInfo).base ≤ ptr ∧ ptr < 2 ^ 64 ∧
      Fits PAGE_SHIFT (blockOf thunkInfo) ptr len

/-- **The condition**: handles have room for what was shared, and the import of a fragment that is
detached can be unmapped. -/
def IpcOk (ndebug : Bool) (PAGE_SHIFT : ℕ) (s : ImportState) : IpcOp → Prop
  | .attach handle _ _ _ => Made ndebug PAGE_SHIFT handle
  | .detach ptr unmapped => unmapped = true ∨ s.proc.allocation_map.find? ptr = none
  | .allocate _ _ | .free _ => True

/-- The import is at this address. -/
def Import.Covers (i : Import) (a : ℕ) : Prop :=
  i.base ≤ a ∧ a < i.base + i.size ∨ i.base = a

/-- The address is the one that was given for the import. -/
def Given (m : AllocationMap) (e : ℕ × Import) : Prop :=
  m.find? e.1 = none ∧ e.1 = e.2.base ∨
    (∃ mem, m.find? e.1 = some mem ∧ mem.region = none) ∧
      e.2.base ≤ e.1 ∧ e.1 < e.2.base + e.2.size

/-- **The invariant**: the imports are those that are attached, and lie apart from each other and
from what is allocated. -/
structure ImportState.Inv (s : ImportState) : Prop where
  imports : s.proc.imports = s.attached.map Prod.snd
  apart : s.attached.Pairwise fun e f => ∀ a, e.2.Covers a → ¬f.2.Covers a
  base_ne : ∀ e ∈ s.attached, e.2.base ≠ 0
  given : ∀ e ∈ s.attached, Given s.proc.allocation_map e
  allocated : ∀ a mem, s.proc.allocation_map.find? a = some mem → mem.region ≠ none →
    ∀ e ∈ s.attached, ¬e.2.Covers a

namespace ImportState

variable {s : ImportState}

/-- The address that was given is one of the import. -/
theorem covers_of_given {m : AllocationMap} {e : ℕ × Import} (h : Given m e) : e.2.Covers e.1 := by
  rcases h with ⟨-, h⟩ | ⟨-, h⟩
  · exact .inr h.symm
  · exact .inl h

/-- An attached import is at the middle of the list. -/
theorem Inv.split (h : s.Inv) {e : ℕ × Import} (he : e ∈ s.attached) :
    ∃ A B, s.attached = A ++ e :: B ∧ ∀ f ∈ A ++ B, ∀ a, e.2.Covers a → ¬f.2.Covers a := by
  obtain ⟨A, B, hsplit⟩ := List.append_of_mem he
  refine ⟨A, B, hsplit, fun f hf a hea hfa => ?_⟩
  have happart := h.apart
  rw [hsplit, List.pairwise_append, List.pairwise_cons] at happart
  obtain ⟨-, ⟨hB, -⟩, hA⟩ := happart
  rcases List.mem_append.1 hf with hf | hf
  · exact hA f hf e (List.mem_cons_self ..) a hfa hea
  · exact hB f hf a hea hfa

/-- An import is found at each of its addresses. -/
theorem Inv.query (h : s.Inv) {e : ℕ × Import} (he : e ∈ s.attached) {a : ℕ}
    (hle : e.2.base ≤ a) (hlt : a < e.2.base + e.2.size) :
    s.proc.queryPointerInfo a = (false, ⟨.registeredShared, 0, e.2.base, e.2.size, 0⟩) := by
  have hfind : (s.proc.imports.find? fun i => i.base ≤ a && a < i.base + i.size) = some e.2 := by
    obtain ⟨A, B, hsplit, happart⟩ := h.split he
    rw [h.imports, hsplit, List.map_append, List.map_cons, List.find?_append]
    have hnone : ((A.map Prod.snd).find? fun i => i.base ≤ a && a < i.base + i.size) = none := by
      refine List.find?_eq_none.2 fun i hi hcov => ?_
      obtain ⟨f, hf, rfl⟩ := List.mem_map.1 hi
      rw [Bool.and_eq_true, decide_eq_true_iff, decide_eq_true_iff] at hcov
      exact happart f (List.mem_append_left _ hf) a (.inl ⟨hle, hlt⟩) (.inl hcov)
    rw [hnone, Option.none_or, List.find?_cons_of_pos]
    simp [hle, hlt]
  unfold Importer.queryPointerInfo
  rw [hfind]

/-- **What is released at the base of an import is this import.** -/
theorem Inv.release (h : s.Inv) {e : ℕ × Import} (he : e ∈ s.attached) {proc : Importer}
    (himports : proc.imports = s.proc.imports) :
    proc.release e.2.base true = (.success, { proc with
      imports := (s.attached.filter fun f => f.1 ≠ e.1).map Prod.snd }) := by
  obtain ⟨A, B, hsplit, happart⟩ := h.split he
  -- The other imports are elsewhere, and so are the addresses given for them.
  have hother : ∀ f ∈ A ++ B, f.2.base ≠ e.2.base ∧ f.1 ≠ e.1 := by
    intro f hf
    have hgiven := h.given f (by
      rw [hsplit]
      rcases List.mem_append.1 hf with hf | hf
      · exact List.mem_append_left _ hf
      · exact List.mem_append_right _ (List.mem_cons_of_mem _ hf))
    refine ⟨fun heq => happart f hf e.2.base (.inr rfl) (.inr heq), fun heq => ?_⟩
    refine happart f hf e.1 (covers_of_given (h.given e he)) ?_
    rw [← heq]
    exact covers_of_given hgiven
  have hfilter : (s.attached.filter fun f => decide (f.1 ≠ e.1)) = A ++ B := by
    rw [hsplit, List.filter_append, List.filter_cons_of_neg (by simp), ← List.filter_append]
    exact List.filter_eq_self.2 fun f hf => decide_eq_true (hother f hf).2
  have himports' : (proc.imports.filter fun i => decide (i.base ≠ e.2.base)) =
      (A ++ B).map Prod.snd := by
    rw [himports, h.imports, hsplit, List.map_append, List.map_cons, List.filter_append,
      List.filter_cons_of_neg (by simp), ← List.filter_append, ← List.map_append]
    refine List.filter_eq_self.2 fun i hi => ?_
    obtain ⟨f, hf, rfl⟩ := List.mem_map.1 hi
    exact decide_eq_true (hother f hf).1
  have hany : (proc.imports.any fun i => decide (i.base = e.2.base)) = true := by
    rw [himports, h.imports]
    exact List.any_eq_true.2 ⟨e.2, List.mem_map_of_mem he, decide_eq_true rfl⟩
  unfold Importer.release Importer.deregisterMemory
  rw [hany, himports', hfilter]
  rfl

/-- **A detach releases exactly the import of the address.** -/
theorem Inv.detach (h : s.Inv) {e : ℕ × Import} (he : e ∈ s.attached) (ndebug : Bool) :
    ∃ m, s.proc.ipcDetach ndebug e.1 true =
        some (.success, ⟨m, (s.attached.filter fun f => f.1 ≠ e.1).map Prod.snd⟩) ∧
      ∀ a, m.find? a = if a = e.1 then none else s.proc.allocation_map.find? a := by
  unfold Importer.ipcDetach
  rcases h.given e he with ⟨hnone, hbase⟩ | ⟨⟨mem, hmem, hregion⟩, hle, hlt⟩
  · rw [hnone]
    dsimp only
    refine ⟨s.proc.allocation_map, ?_, fun a => ?_⟩
    · rw [hbase, h.release he rfl, hbase]
    · by_cases ha : a = e.1
      · rw [if_pos ha, ha, hnone]
      · rw [if_neg ha]
  · rw [hmem]
    dsimp only
    rw [if_neg (not_not.2 hregion)]
    refine ⟨s.proc.allocation_map.erase e.1, ?_, s.proc.allocation_map.find?_erase e.1⟩
    · have hquery : Importer.queryPointerInfo
          { s.proc with allocation_map := s.proc.allocation_map.erase e.1 } e.1 =
            (false, ⟨.registeredShared, 0, e.2.base, e.2.size, 0⟩) := h.query he hle hlt
      rw [hquery]
      have hinfo : ∃ i, ptrInfo ndebug (s.proc.allocation_map.erase e.1) e.1 pointerInfoSize false
          ⟨.registeredShared, 0, e.2.base, e.2.size, 0⟩ true =
            some (.success, some (i, ⟨e.2.base, e.2.size⟩)) := by
        unfold ptrInfo
        rw [if_neg (by decide)]
        simp only [Bool.not_false, Bool.true_or, ne_eq, not_true_eq_false, decide_false,
          Bool.not_true, Bool.false_or, h.base_ne e he, not_false_eq_true, decide_true, if_false]
        rw [assert_of_true rfl]
        exact ⟨_, rfl⟩
      obtain ⟨i, hinfo⟩ := hinfo
      dsimp only
      rw [hinfo]
      exact congrArg some (h.release he rfl)

/-- The address that an attach gives for a handle with room, and the process after it. -/
theorem attach_given {PAGE_SHIFT len base address : ℕ} {ndebug mapped : Bool} {proc t : Importer}
    {handle : HsaSharedMemoryStruct} (hmade : Made ndebug PAGE_SHIFT handle)
    (hlt : base + (Importer.newImport PAGE_SHIFT handle base).size < 2 ^ 64)
    (h : proc.ipcAttach PAGE_SHIFT handle len (some base) mapped = (.success, some address, t)) :
    t.imports = Importer.newImport PAGE_SHIFT handle base :: proc.imports ∧
      (address = base ∧ t.allocation_map = proc.allocation_map ∨
        ∃ size, base ≤ address ∧ address < base + (Importer.newImport PAGE_SHIFT handle base).size ∧
          t.allocation_map = proc.allocation_map.set address { region := none, size }) := by
  obtain ⟨m, mm, ptr, len', err, thunkInfo, driver, exported, hcreate, rfl, hle, hptr, hfits⟩ :=
    hmade
  have hiff := @attach_create_iff _ _ _ _ _ _ _ _ _ _ hcreate hle hptr proc base len hlt
  obtain ⟨shared, -, haddress, -, hinside⟩ := hiff.2 hfits
  rw [ipcAttach_address] at haddress
  have haddress := Option.some.inj haddress
  unfold Importer.ipcAttach at h
  dsimp only at h
  cases mapped with
  | false =>
    rw [if_pos (by decide)] at h
    exact nomatch (Prod.mk.inj h).1
  | true =>
    rw [if_neg (by decide)] at h
    cases hf : isFragment handle with
    | false =>
      rw [hf, if_neg (by decide)] at h
      obtain ⟨-, h⟩ := Prod.mk.inj h
      obtain ⟨hbase, rfl⟩ := Prod.mk.inj h
      exact ⟨rfl, .inl ⟨(Option.some.inj hbase).symm, rfl⟩⟩
    | true =>
      rw [hf, if_pos rfl] at h haddress
      obtain ⟨-, h⟩ := Prod.mk.inj h
      obtain ⟨hbase, rfl⟩ := Prod.mk.inj h
      obtain rfl := Option.some.inj hbase
      have hle : base ≤ u64 (base + fragOffset handle) := by
        rw [haddress]
        exact Nat.le_add_right _ _
      have hin : u64 (base + fragOffset handle) <
          base + (Importer.newImport mm.PAGE_SHIFT handle base).size := by
        rw [haddress]
        exact Nat.add_lt_add_left hinside _
      exact ⟨rfl, .inr ⟨_, hle, hin, rfl⟩⟩

/-- **An attach keeps the invariant.** -/
theorem Inv.attach (h : s.Inv) {PAGE_SHIFT len base address : ℕ} {ndebug mapped : Bool}
    {proc : Importer} {handle : HsaSharedMemoryStruct} (hmade : Made ndebug PAGE_SHIFT handle)
    (hattach : s.proc.ipcAttach PAGE_SHIFT handle len (some base) mapped =
      (.success, some address, proc))
    (hnull : base ≠ 0) (hlt : base + (Importer.newImport PAGE_SHIFT handle base).size < 2 ^ 64)
    (hnew : ∀ a, a = base ∨ base ≤ a ∧
      a < base + (Importer.newImport PAGE_SHIFT handle base).size → ¬s.proc.Has a) :
    Inv ⟨proc, (address, Importer.newImport PAGE_SHIFT handle base) :: s.attached⟩ := by
  obtain ⟨himports, hmap⟩ := attach_given hmade hlt hattach
  -- The address is in the import, and so nothing else has it.
  have hin : ∀ a, (Importer.newImport PAGE_SHIFT handle base).Covers a → ¬s.proc.Has a := by
    rintro a (hin | rfl)
    · exact hnew a (.inr hin)
    · exact hnew _ (.inl rfl)
  have hfind : ∀ a, a ≠ address → proc.allocation_map.find? a = s.proc.allocation_map.find? a := by
    intro a ha
    rcases hmap with ⟨-, hmap⟩ | ⟨size, -, -, hmap⟩
    · rw [hmap]
    · rw [hmap, OrderedMap.find?_set, if_neg ha]
  have hgiven : Given proc.allocation_map (address, Importer.newImport PAGE_SHIFT handle base) := by
    rcases hmap with ⟨haddress, hmap⟩ | ⟨size, hle, hin, hmap⟩
    · refine .inl ⟨?_, haddress⟩
      rw [hmap, haddress]
      exact Option.eq_none_iff_forall_ne_some.2 fun mem hmem =>
        hnew base (.inl rfl) (.inr ⟨mem, hmem⟩)
    · refine .inr ⟨⟨{ region := none, size }, ?_, rfl⟩, hle, hin⟩
      rw [hmap, OrderedMap.find?_set, if_pos rfl]
  have hfar : ∀ e ∈ s.attached, ∀ a,
      (Importer.newImport PAGE_SHIFT handle base).Covers a → ¬e.2.Covers a := by
    intro e he a hnewa hea
    refine hin a hnewa (.inl ⟨e.2, ?_, hea⟩)
    rw [h.imports]
    exact List.mem_map_of_mem he
  refine ⟨?_, ?_, ?_, ?_, ?_⟩
  · rw [himports, h.imports]
    rfl
  · exact List.pairwise_cons.2 ⟨hfar, h.apart⟩
  · exact List.forall_mem_cons.2 ⟨hnull, h.base_ne⟩
  · refine List.forall_mem_cons.2 ⟨hgiven, fun e he => ?_⟩
    have hne : e.1 ≠ address := by
      intro heq
      refine hfar e he e.1 ?_ (covers_of_given (h.given e he))
      rw [heq]
      exact covers_of_given hgiven
    have := h.given e he
    unfold Given at this ⊢
    rwa [hfind e.1 hne]
  · intro a mem hmem hregion
    by_cases ha : a = address
    · subst ha
      rcases hgiven with ⟨hnone, -⟩ | ⟨⟨mem', hmem', hregion'⟩, -⟩
      · exact nomatch hnone.symm.trans hmem
      · rw [← Option.some.inj (hmem'.symm.trans hmem)] at hregion
        exact absurd hregion' hregion
    · dsimp only at hmem
      rw [hfind a ha] at hmem
      refine List.forall_mem_cons.2 ⟨fun hcov => hin a hcov (.inr ⟨mem, hmem⟩), ?_⟩
      exact h.allocated a mem hmem hregion

/-- A detached import leaves the invariant to the others. -/
theorem Inv.filter (h : s.Inv) {ptr : ℕ} {m : AllocationMap}
    (hm : ∀ a, m.find? a = if a = ptr then none else s.proc.allocation_map.find? a) :
    Inv ⟨⟨m, (s.attached.filter fun f => f.1 ≠ ptr).map Prod.snd⟩,
      s.attached.filter fun f => f.1 ≠ ptr⟩ := by
  refine ⟨rfl, h.apart.filter _, fun e he => h.base_ne e (List.mem_filter.1 he).1, ?_, ?_⟩
  · intro e he
    obtain ⟨he, hne⟩ := List.mem_filter.1 he
    have := h.given e he
    unfold Given at this ⊢
    rwa [hm, if_neg (of_decide_eq_true hne)]
  · intro a mem hmem hregion e he
    refine h.allocated a mem ?_ hregion e (List.mem_filter.1 he).1
    dsimp only at hmem
    by_cases ha : a = ptr
    · rw [hm, if_pos ha] at hmem
      exact nomatch hmem
    · rwa [hm, if_neg ha] at hmem

/-- A failed attach leaves the process as it was. -/
theorem attach_failed {PAGE_SHIFT len : ℕ} {mapped : Bool} {proc t : Importer} {base : Option ℕ}
    {handle : HsaSharedMemoryStruct} {status : Status}
    (h : proc.ipcAttach PAGE_SHIFT handle len base mapped = (status, none, t))
    (hnew : ∀ b ∈ base, ¬proc.Has b) : t = proc := by
  unfold Importer.ipcAttach at h
  cases base with
  | none => exact (Prod.mk.inj (Prod.mk.inj h).2).2.symm
  | some base =>
    dsimp only at h
    cases mapped with
    | true =>
      rw [if_neg (by decide)] at h
      split_ifs at h <;> exact nomatch (Prod.mk.inj (Prod.mk.inj h).2).1
    | false =>
      rw [if_pos (by decide)] at h
      obtain ⟨-, h⟩ := Prod.mk.inj h
      obtain ⟨-, rfl⟩ := Prod.mk.inj h
      have hfilter : ((Importer.newImport PAGE_SHIFT handle base :: proc.imports).filter fun i =>
          decide (i.base ≠ base)) = proc.imports := by
        rw [List.filter_cons_of_neg (by simp [Importer.newImport])]
        refine List.filter_eq_self.2 fun i hi => decide_eq_true fun heq => ?_
        exact hnew base rfl (.inl ⟨i, hi, .inr heq⟩)
      exact congrArg (Importer.mk proc.allocation_map) hfilter

/-- Entries may change where nothing is attached. -/
theorem Inv.setMap (h : s.Inv) {m : AllocationMap}
    (hgiven : ∀ e ∈ s.attached, Given s.proc.allocation_map e → Given m e)
    (hallocated : ∀ a mem, m.find? a = some mem → mem.region ≠ none →
      s.proc.allocation_map.find? a = some mem ∨ ∀ e ∈ s.attached, ¬e.2.Covers a) :
    Inv { s with proc := { s.proc with allocation_map := m } } := by
  refine ⟨h.imports, h.apart, h.base_ne, fun e he => hgiven e he (h.given e he), ?_⟩
  intro a mem hmem hregion
  rcases hallocated a mem hmem hregion with hmem | hout
  · exact h.allocated a mem hmem hregion
  · exact hout

/-- **An allocation keeps the invariant.** -/
theorem Inv.allocate (h : s.Inv) {region : ℕ} {answer : Answer}
    (hnew : answer.status = .success → ¬s.proc.Has answer.address) :
    Inv { s with proc := { s.proc with
      allocation_map := (allocateMemory s.proc.allocation_map region answer).2 } } := by
  by_cases hsuccess : answer.status = .success
  · have hout : ∀ e ∈ s.attached, ¬e.2.Covers answer.address := by
      intro e he hcov
      refine hnew hsuccess (.inl ⟨e.2, ?_, hcov⟩)
      rw [h.imports]
      exact List.mem_map_of_mem he
    unfold allocateMemory
    rw [if_pos hsuccess]
    refine h.setMap (fun e he hgiven => ?_) fun a mem hmem _ => ?_
    · have hne : e.1 ≠ answer.address := fun heq => hout e he (heq ▸ covers_of_given hgiven)
      unfold Given at hgiven ⊢
      rwa [OrderedMap.find?_set, if_neg hne]
    · by_cases ha : a = answer.address
      · exact .inr (ha ▸ hout)
      · rw [OrderedMap.find?_set, if_neg ha] at hmem
        exact .inl hmem
  · unfold allocateMemory
    rw [if_neg hsuccess]
    exact h

/-- **Freeing keeps the invariant**: what is attached has no region. -/
theorem Inv.free (h : s.Inv) {ndebug : Bool} {ptr : ℕ} {r : Locked} {m : AllocationMap}
    (hfree : freeMemory ndebug s.proc.allocation_map ptr = some (r, m)) :
    Inv { s with proc := { s.proc with allocation_map := m } } := by
  have hcases : m = s.proc.allocation_map ∨ ∃ mem, s.proc.allocation_map.find? ptr = some mem ∧
      mem.region ≠ none ∧ m = s.proc.allocation_map.erase ptr := by
    unfold freeMemory at hfree
    by_cases hnull : ptr = 0
    · rw [if_pos hnull] at hfree
      exact .inl (Prod.mk.inj (Option.some.inj hfree)).2.symm
    rw [if_neg hnull] at hfree
    cases hmem : s.proc.allocation_map.find? ptr with
    | none =>
      rw [hmem] at hfree
      obtain ⟨-, -, hfree⟩ := Option.map_eq_some_iff.1 hfree
      exact .inl (Prod.mk.inj hfree).2.symm
    | some mem =>
      rw [hmem] at hfree
      dsimp only at hfree
      cases hregion : mem.region with
      | none =>
        rw [hregion] at hfree
        obtain ⟨-, -, hfree⟩ := Option.map_eq_some_iff.1 hfree
        exact .inl (Prod.mk.inj hfree).2.symm
      | some region =>
        rw [hregion] at hfree
        refine .inr ⟨mem, rfl, ?_, (Prod.mk.inj (Option.some.inj hfree)).2.symm⟩
        rw [hregion]
        exact Option.some_ne_none region
  rcases hcases with rfl | ⟨mem, hmem, hregion, rfl⟩
  · exact h
  · refine h.setMap (fun e he hgiven => ?_) fun a mem' hmem' _ => ?_
    · have hne : e.1 ≠ ptr := by
        rintro rfl
        exact h.allocated e.1 mem hmem hregion e he (covers_of_given hgiven)
      unfold Given at hgiven ⊢
      rwa [OrderedMap.find?_erase, if_neg hne]
    · by_cases ha : a = ptr
      · rw [OrderedMap.find?_erase, if_pos ha] at hmem'
        exact nomatch hmem'
      · rw [OrderedMap.find?_erase, if_neg ha] at hmem'
        exact .inl hmem'

/-- **Every step keeps the invariant.** -/
theorem Inv.step {PAGE_SHIFT : ℕ} {ndebug : Bool} {op : IpcOp} {t : ImportState} (h : s.Inv)
    (hok : IpcOk ndebug PAGE_SHIFT s op) (hstep : IpcStep PAGE_SHIFT ndebug s op t) : t.Inv := by
  induction hstep with
  | attachFailed hattach hnew =>
    rw [attach_failed hattach hnew]
    exact h
  | attach hattach hnull hlt hnew => exact h.attach hok hattach hnull hlt hnew
  | @detachFailed ptr unmapped status proc hdetach hstatus hptr =>
    obtain ⟨e, he, rfl⟩ := List.mem_map.1 hptr
    cases unmapped with
    | true =>
      obtain ⟨m, hsuccess, -⟩ := h.detach he ndebug
      obtain ⟨heq, -⟩ := Prod.mk.inj (Option.some.inj (hsuccess.symm.trans hdetach))
      exact absurd heq.symm hstatus
    | false =>
      have hnone := hok.resolve_left (by decide)
      unfold Importer.ipcDetach at hdetach
      rw [hnone] at hdetach
      obtain ⟨-, rfl⟩ := Prod.mk.inj (Option.some.inj hdetach)
      exact h
  | @detach ptr unmapped proc hdetach hptr =>
    obtain ⟨e, he, rfl⟩ := List.mem_map.1 hptr
    cases unmapped with
    | true =>
      obtain ⟨m, hsuccess, hm⟩ := h.detach he ndebug
      obtain ⟨-, rfl⟩ := Prod.mk.inj (Option.some.inj (hsuccess.symm.trans hdetach))
      exact h.filter hm
    | false =>
      have hnone := hok.resolve_left (by decide)
      unfold Importer.ipcDetach at hdetach
      rw [hnone] at hdetach
      exact nomatch (Prod.mk.inj (Option.some.inj hdetach)).1
  | allocate hnew => exact h.allocate hnew
  | free hfree => exact h.free hfree

/-- Nothing is attached at the start. -/
theorem Inv.start : Inv {} where
  imports := rfl
  apart := List.Pairwise.nil
  base_ne _ he := nomatch he
  given _ he := nomatch he
  allocated _ _ hmem := nomatch hmem

end ImportState

/-! ### The result -/

/-- **Attaching gives the byte that was shared if and only if the handle has room for it; and in
every run that keeps to such handles, a detach releases exactly the import of its address.** -/
theorem imports_of_run (hcreate : ipcCreate ndebug m mm ptr len err thunkInfo driver exported =
      some (.success, some handle)) (hbase : (blockOf thunkInfo).base ≤ ptr) (hptr : ptr < 2 ^ 64)
    {ops : List IpcOp} {s : ImportState} (hrun : Run (Guarded (IpcOk ndebug mm.PAGE_SHIFT)
      (IpcStep mm.PAGE_SHIFT ndebug)) {} ops s) :
    (∀ base len', base + (Importer.newImport mm.PAGE_SHIFT handle base).size < 2 ^ 64 →
      ((∃ shared, mm.mmShareMemory (blockOf thunkInfo).base (blockOf thunkInfo).length driver =
          (.success, some shared) ∧
        Corresponds shared (ptr - (blockOf thunkInfo).base)
          (s.proc.ipcAttach mm.PAGE_SHIFT handle len' (some base) true).2.1
          (Importer.newImport mm.PAGE_SHIFT handle base)) ↔
        Fits mm.PAGE_SHIFT (blockOf thunkInfo) ptr len)) ∧
    s.proc.imports = s.attached.map Prod.snd ∧
    ∀ e ∈ s.attached, ∃ A B map, s.proc.imports = A ++ e.2 :: B ∧
      s.proc.ipcDetach ndebug e.1 true = some (.success, ⟨map, A ++ B⟩) ∧
      ∀ a, map.find? a = if a = e.1 then none else s.proc.allocation_map.find? a := by
  have hinv : s.Inv := hrun.inv (fun _ _ _ h hstep => h.step hstep.1 hstep.2) .start
  refine ⟨fun base len' hlt => attach_create_iff hcreate hbase hptr hlt, hinv.imports, ?_⟩
  intro e he
  obtain ⟨map, hdetach, hmap⟩ := hinv.detach he ndebug
  obtain ⟨A, B, hsplit, hfar⟩ := hinv.split he
  refine ⟨A.map Prod.snd, B.map Prod.snd, map, ?_, ?_, hmap⟩
  · rw [hinv.imports, hsplit, List.map_append, List.map_cons]
  · have hfilter : (s.attached.filter fun f => decide (f.1 ≠ e.1)) = A ++ B := by
      rw [hsplit, List.filter_append, List.filter_cons_of_neg (by simp), ← List.filter_append]
      refine List.filter_eq_self.2 fun f hf => decide_eq_true fun heq => ?_
      have hin : f ∈ s.attached := by
        rw [hsplit]
        rcases List.mem_append.1 hf with hf | hf
        · exact List.mem_append_left _ hf
        · exact List.mem_append_right _ (List.mem_cons_of_mem _ hf)
      refine hfar f hf e.1 (ImportState.covers_of_given (hinv.given e he)) ?_
      rw [← heq]
      exact ImportState.covers_of_given (hinv.given f hin)
    rw [hdetach, hfilter, List.map_append]

/-- A block of 2 MiB, as the heaps have them. -/
def heapBlock : Device.MemObj := { start := 2 ^ 21, size := 2 ^ 21, handle := 5 }

/-- A process that has the block. -/
def exporter (PAGE_SHIFT : ℕ) : MemMgr where
  is_dgpu := false
  PAGE_SHIFT
  dgpu_aperture := 0
  dgpu_alt_aperture := 0
  cpuvm_aperture := 1
  props_ := [3]
  vmas _ :=
    { cls := .mmap
      base_ := 4096
      limit_ := 2 ^ 47 - 1
      PAGE_SIZE := 2 ^ PAGE_SHIFT
      PAGE_SHIFT
      mem_objs := Device.MemObjPool.insert {} heapBlock }

/-- The second 4 KiB of the block are a fragment. -/
def fragments : AllocationMap :=
  OrderedMap.empty.set (2 ^ 21 + 4096) { region := some 0, size := 4096 }

/-- What the device knows about an address in the block. -/
def heapInfo : HsaPointerInfo := ⟨.allocated, 0, 2 ^ 21, 2 ^ 21, 0⟩

/-- What is shared of the block, with pages of this size. -/
def heapShared (PAGE_SHIFT : ℕ) : HsaSharedMemoryStruct where
  ShareHandle := 9
  ApeInfo := { type := .dgpu }
  SizeInPages := 2 ^ 21 >>> PAGE_SHIFT
  ExportGpuId := 3

/-- With pages of 4 KiB, the fragment is attached at its place in the import. -/
theorem imports_of_run_fragment :
    ∃ s, Run (Guarded (IpcOk false 12) (IpcStep 12 false)) {}
        [.attach (markFragment (heapShared 12) 1) 4096 (some (2 ^ 30)) true] s ∧
      s.attached.map Prod.fst = [2 ^ 30 + 4096] ∧
      ∃ proc, s.proc.ipcDetach false (2 ^ 30 + 4096) true = some (.success, proc) ∧
        proc.imports = [] := by
  have hcreate : ipcCreate false fragments (exporter 12) (2 ^ 21 + 4096) 4096 false heapInfo
      (some 9) true = some (.success, some (markFragment (heapShared 12) 1)) := by rfl
  have hfits : Fits 12 (blockOf heapInfo) (2 ^ 21 + 4096) 4096 := by
    refine ⟨by decide, by decide, fun _ => ⟨by decide, by decide, by decide⟩⟩
  have hrun : ∃ s, Run (Guarded (IpcOk false 12) (IpcStep 12 false)) {}
      [.attach (markFragment (heapShared 12) 1) 4096 (some (2 ^ 30)) true] s ∧
      s.attached.map Prod.fst = [2 ^ 30 + 4096] := by
    refine ⟨_, .cons ⟨?_, .attach rfl (by decide) (by decide) ?_⟩ (.nil _), rfl⟩
    · exact ⟨_, _, _, _, _, _, _, _, hcreate, rfl, by decide, by decide, hfits⟩
    · rintro a - (⟨i, hi, -⟩ | ⟨mem, hmem⟩)
      · exact nomatch hi
      · exact nomatch hmem
  obtain ⟨s, hrun, haddress⟩ := hrun
  refine ⟨s, hrun, haddress, ?_⟩
  obtain ⟨-, himports, hdetach⟩ := imports_of_run hcreate (by decide) (by decide) hrun
  obtain ⟨e, he⟩ := List.length_eq_one_iff.1 (by
    rw [← List.length_map Prod.fst, haddress]
    rfl : s.attached.length = 1)
  rw [he] at haddress himports
  obtain ⟨A, B, map, hsplit, hdetach, -⟩ := hdetach e (he ▸ List.mem_singleton_self e)
  rw [(List.cons.inj haddress).1] at hdetach
  refine ⟨_, hdetach, ?_⟩
  have hlength := congrArg List.length (hsplit.symm.trans himports)
  rw [List.length_append, List.length_cons, List.map_cons, List.map_nil, List.length_singleton]
    at hlength
  exact List.eq_nil_of_length_eq_zero (by rw [List.length_append]; omega)

/-- **With pages of 64 KiB, the place and the number of pages are mixed up**: the byte at 4 KiB is
attached 132 KiB into an import of no pages. -/
theorem large_pages_lose_fragment :
    ∃ handle proc, ipcCreate false fragments (exporter 16) (2 ^ 21 + 4096) 4096 false heapInfo
        (some 9) true = some (.success, some handle) ∧
      (exporter 16).mmShareMemory (2 ^ 21) (2 ^ 21) (some 9) = (.success, some (heapShared 16)) ∧
      Importer.ipcAttach 16 {} handle 4096 (some (2 ^ 30)) true =
        (.success, some (2 ^ 30 + 33 * 4096), proc) ∧
      (importHandle handle).SizeInPages = 0 ∧ (heapShared 16).SizeInPages = 32 :=
  ⟨_, _, rfl, rfl, rfl, rfl, rfl⟩

end Codrive.Runtime
