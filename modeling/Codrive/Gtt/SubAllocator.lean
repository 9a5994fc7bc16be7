/-
# The GTT sub-allocator

`opu_gtt_sa_init`, `opu_gtt_sa_allocate` and `opu_gtt_sa_free` of
`src/src/cmdio/linux/opu_device.c`: first fit over a bitmap with one bit for each chunk of a
buffer.

| here | source |
|---|---|
| `Finset ℕ` | the set bits of `gtt_sa_bitmap` |
| `kzalloc : Bool` | whether `kzalloc` and `kcalloc` have memory |
| `none` of a search with fuel | the loop has not come to an end yet |

`unsigned int` wraps where a product can leave 32 bits; the chunk numbers of a search are below
`gtt_sa_num_of_chunks + 1`.
-/

import Codrive.Basis.Bitmap
import Codrive.Basis.Machine

namespace Codrive.Gtt

open Codrive.Basis

/-- The error numbers of the sub-allocator. -/
inductive Errno where
  | einval | enomem
  deriving DecidableEq, Repr

/-- `struct opu_mem_obj`. -/
structure MemObj where
  range_start : ℕ
  range_end : ℕ
  gpu_addr : ℕ
  cpu_ptr : ℕ
  deriving DecidableEq, Repr

/-- What the sub-allocator uses of `struct opu_dev`. -/
structure Opu where
  gtt_sa_chunk_size : ℕ
  gtt_sa_num_of_chunks : ℕ
  gtt_sa_bitmap : Finset ℕ
  gtt_start_gpu_addr : ℕ
  gtt_start_cpu_ptr : ℕ
  deriving DecidableEq

/-- `opu_gtt_sa_init`. -/
def opuGttSaInit (kzalloc : Bool) (opu : Opu) (buf_size chunk_size : ℕ) : Except Errno Opu :=
  if buf_size < chunk_size then .error .einval
  else if buf_size = 0 then .error .einval
  else if chunk_size = 0 then .error .einval
  else if !kzalloc then .error .enomem
  else .ok { opu with
    gtt_sa_chunk_size := chunk_size, gtt_sa_num_of_chunks := buf_size / chunk_size,
    gtt_sa_bitmap := ∅ }

/-- What the inner loop of the search comes to. -/
inductive Extended where
  /-- Enough contiguous chunks, the last one. -/
  | done (range_end : ℕ)
  /-- `goto opu_gtt_restart_search` with this `start_search`. -/
  | restart (start_search : ℕ)
  /-- `goto opu_gtt_no_free_chunk`. -/
  | noFreeChunk
  deriving DecidableEq, Repr

/-- The `do … while (cur_size > 0)` of the search. -/
def extendRun (opu : Opu) : ℕ → ℕ → ℕ → Option Extended
  | 0, _, _ => none
  | fuel + 1, found, cur_size =>
    let found := found + 1
    let range_end := findNextZeroBit opu.gtt_sa_bitmap opu.gtt_sa_num_of_chunks found
    if range_end ≠ found then some (.restart found)
    else if found = opu.gtt_sa_num_of_chunks then some .noFreeChunk
    else
      let cur_size := if cur_size ≤ opu.gtt_sa_chunk_size then 0
        else cur_size - opu.gtt_sa_chunk_size
      if cur_size > 0 then extendRun opu fuel found cur_size else some (.done range_end)

/-- The search from `opu_gtt_restart_search` on: `range_start` and `range_end`, or that there is no
free chunk. -/
def searchFrom (opu : Opu) (size : ℕ) : ℕ → ℕ → Option (Option (ℕ × ℕ))
  | 0, _ => none
  | fuel + 1, start_search =>
    let found := findNextZeroBit opu.gtt_sa_bitmap opu.gtt_sa_num_of_chunks start_search
    if found = opu.gtt_sa_num_of_chunks then some none
    else if size ≤ opu.gtt_sa_chunk_size then some (some (found, found))
    else
      match extendRun opu (opu.gtt_sa_num_of_chunks + 1) found (size - opu.gtt_sa_chunk_size) with
      | none => none
      | some (.restart start_search) => searchFrom opu size fuel start_search
      | some .noFreeChunk => some none
      | some (.done range_end) => some (some (found, range_end))

/-- `opu_gtt_sa_calc_gpu_addr` and `opu_gtt_sa_calc_cpu_addr`. -/
def calcAddr (start_addr bit_num chunk_size : ℕ) : ℕ :=
  u64 (start_addr + wrap 32 (bit_num * chunk_size))

/-- `opu_gtt_sa_allocate`, with so many rounds of the search; `none` if they are not enough. -/
def opuGttSaAllocate (kzalloc : Bool) (fuel : ℕ) (opu : Opu) (size : ℕ) :
    Option (Except Errno MemObj × Opu) :=
  if size = 0 then some (.error .einval, opu)
  else if size > wrap 32 (opu.gtt_sa_num_of_chunks * opu.gtt_sa_chunk_size) then
    some (.error .enomem, opu)
  else if !kzalloc then some (.error .enomem, opu)
  else
    match searchFrom opu size fuel 0 with
    | none => none
    | some none => some (.error .enomem, opu)
    | some (some (range_start, range_end)) =>
      some (.ok
        { range_start := range_start, range_end := range_end,
          gpu_addr := calcAddr opu.gtt_start_gpu_addr range_start opu.gtt_sa_chunk_size,
          cpu_ptr := calcAddr opu.gtt_start_cpu_ptr range_start opu.gtt_sa_chunk_size },
        { opu with gtt_sa_bitmap := setBits opu.gtt_sa_bitmap range_start range_end })

/-- `opu_gtt_sa_free`; a null pointer is `none`. -/
def opuGttSaFree (opu : Opu) : Option MemObj → Opu
  | none => opu
  | some mem_obj =>
    { opu with
      gtt_sa_bitmap := clearBits opu.gtt_sa_bitmap mem_obj.range_start mem_obj.range_end }

/-! ### The search -/

/-- `ceil(size / chunk_size)`. -/
def chunksFor (opu : Opu) (size : ℕ) : ℕ :=
  (size + opu.gtt_sa_chunk_size - 1) / opu.gtt_sa_chunk_size

section

variable {opu : Opu} {size : ℕ}

theorem chunksFor_of_le (hs : 0 < size)
    (h : size ≤ opu.gtt_sa_chunk_size) : chunksFor opu size = 1 := by
  unfold chunksFor
  exact Nat.div_eq_of_lt_le (by omega) (by omega)

theorem chunksFor_of_gt (hc : 0 < opu.gtt_sa_chunk_size) (h : opu.gtt_sa_chunk_size < size) :
    chunksFor opu size = chunksFor opu (size - opu.gtt_sa_chunk_size) + 1 := by
  unfold chunksFor
  rw [show size + opu.gtt_sa_chunk_size - 1 =
    size - opu.gtt_sa_chunk_size + opu.gtt_sa_chunk_size - 1 + opu.gtt_sa_chunk_size by omega,
    Nat.add_div_right _ hc]

theorem chunksFor_pos (hc : 0 < opu.gtt_sa_chunk_size) (hs : 0 < size) :
    1 ≤ chunksFor opu size :=
  (Nat.le_div_iff_mul_le hc).2 (by omega)

/-- So many chunks cover the bytes. -/
theorem le_chunksFor_mul (hc : 0 < opu.gtt_sa_chunk_size) :
    size ≤ chunksFor opu size * opu.gtt_sa_chunk_size := by
  unfold chunksFor
  have := Nat.div_add_mod (size + opu.gtt_sa_chunk_size - 1) opu.gtt_sa_chunk_size
  have := Nat.mod_lt (size + opu.gtt_sa_chunk_size - 1) hc
  rw [Nat.mul_comm]
  omega

/-- **The inner loop**, from a clear chunk on, looks at one chunk after the other: it finds all of
the chunks it needs, or one that is taken, or the end of the buffer. -/
theorem extendRun_spec (hc : 0 < opu.gtt_sa_chunk_size) {fuel found cur_size : ℕ}
    (hcur : 0 < cur_size) (hfound : found < opu.gtt_sa_num_of_chunks)
    (hfuel : opu.gtt_sa_num_of_chunks ≤ found + fuel) :
    ∃ r, extendRun opu fuel found cur_size = some r ∧
      match r with
      | .done last => last = found + chunksFor opu cur_size ∧ last < opu.gtt_sa_num_of_chunks ∧
          ∀ i, found < i → i ≤ last → i ∉ opu.gtt_sa_bitmap
      | .restart next => found < next ∧ next ≤ found + chunksFor opu cur_size ∧
          next < opu.gtt_sa_num_of_chunks ∧ next ∈ opu.gtt_sa_bitmap
      | .noFreeChunk => opu.gtt_sa_num_of_chunks ≤ found + chunksFor opu cur_size := by
  induction fuel generalizing found cur_size with
  | zero => omega
  | succ fuel ih =>
    rw [extendRun]
    obtain ⟨h₁, h₂, h₃, h₄⟩ := findNextZeroBit_spec opu.gtt_sa_bitmap
      (show found + 1 ≤ opu.gtt_sa_num_of_chunks from hfound)
    have hpos := chunksFor_pos hc hcur
    generalize hf : findNextZeroBit opu.gtt_sa_bitmap opu.gtt_sa_num_of_chunks (found + 1) = f at *
    simp only
    by_cases hne : f = found + 1
    · rw [if_neg (by simpa using hne)]
      by_cases hend : found + 1 = opu.gtt_sa_num_of_chunks
      · rw [if_pos hend]
        exact ⟨_, rfl, by dsimp only; omega⟩
      · rw [if_neg hend]
        have hclear : found + 1 ∉ opu.gtt_sa_bitmap := hne ▸ h₄ (by omega)
        by_cases hle : cur_size ≤ opu.gtt_sa_chunk_size
        · -- the last chunk that is needed
          rw [if_pos hle, if_neg (Nat.lt_irrefl 0)]
          refine ⟨_, rfl, ?_, by omega, fun i hi₁ hi₂ => ?_⟩
          · rw [chunksFor_of_le hcur hle, hne]
          · rwa [show i = found + 1 by omega]
        · rw [if_neg hle, if_pos (by omega)]
          obtain ⟨r, hr, hspec⟩ := @ih (found + 1) (cur_size - opu.gtt_sa_chunk_size) (by omega)
            (by omega) (by omega)
          have hchunks := chunksFor_of_gt hc (Nat.lt_of_not_le hle)
          refine ⟨r, hr, ?_⟩
          cases r with
          | done last =>
            obtain ⟨g₁, g₂, g₃⟩ := hspec
            refine ⟨by omega, g₂, fun i hi₁ hi₂ => ?_⟩
            by_cases hi : i = found + 1
            · rwa [hi]
            · exact g₃ i (by omega) hi₂
          | restart next =>
            obtain ⟨g₁, g₂, g₃, g₄⟩ := hspec
            exact ⟨by omega, by omega, g₃, g₄⟩
          | noFreeChunk =>
            dsimp only at hspec ⊢
            omega
    · -- the next chunk is taken
      rw [if_pos hne]
      exact ⟨_, rfl, by omega, by omega, by omega, h₃ _ (Nat.le_refl _) (by omega)⟩

/-- **The search**, from a chunk on before which no run starts that is long enough: it comes to an
end, with the first run that is long enough, if there is one. -/
theorem searchFrom_spec (hc : 0 < opu.gtt_sa_chunk_size) (hs : 0 < size) {fuel start : ℕ}
    (hstart : start ≤ opu.gtt_sa_num_of_chunks) (hfuel : opu.gtt_sa_num_of_chunks < start + fuel)
    (hno : ∀ first < start, ¬ClearRun opu.gtt_sa_bitmap opu.gtt_sa_num_of_chunks first
      (chunksFor opu size)) :
    ∃ r, searchFrom opu size fuel start = some r ∧
      match r with
      | none => ∀ first, ¬ClearRun opu.gtt_sa_bitmap opu.gtt_sa_num_of_chunks first
          (chunksFor opu size)
      | some (first, last) => last + 1 = first + chunksFor opu size ∧
          ClearRun opu.gtt_sa_bitmap opu.gtt_sa_num_of_chunks first (chunksFor opu size) := by
  have hpos := chunksFor_pos hc hs
  induction fuel generalizing start with
  | zero => omega
  | succ fuel ih =>
    rw [searchFrom]
    obtain ⟨h₁, h₂, h₃, h₄⟩ := findNextZeroBit_spec opu.gtt_sa_bitmap hstart
    generalize hf : findNextZeroBit opu.gtt_sa_bitmap opu.gtt_sa_num_of_chunks start = f at *
    -- a run that starts in front of `f` would start at a chunk that is taken
    have hbefore : ∀ first < f, ¬ClearRun opu.gtt_sa_bitmap opu.gtt_sa_num_of_chunks first
        (chunksFor opu size) := by
      intro first hlt hrun
      rcases Nat.lt_or_ge first start with h | h
      · exact hno first h hrun
      · exact hrun.2 first (Nat.le_refl _) (by omega) (h₃ first h hlt)
    by_cases hend : f = opu.gtt_sa_num_of_chunks
    · rw [if_pos hend]
      refine ⟨_, rfl, fun first hrun => ?_⟩
      rcases Nat.lt_or_ge first f with h | h
      · exact hbefore first h hrun
      · have := hrun.1
        omega
    · rw [if_neg hend]
      have hclear := h₄ (by omega)
      by_cases hle : size ≤ opu.gtt_sa_chunk_size
      · rw [if_pos hle]
        have hone := chunksFor_of_le hs hle
        refine ⟨_, rfl, by omega, by omega, fun i hi₁ hi₂ => ?_⟩
        rwa [show i = f by omega]
      · rw [if_neg hle]
        have hchunks := chunksFor_of_gt hc (Nat.lt_of_not_le hle)
        obtain ⟨r, hr, hspec⟩ := @extendRun_spec opu hc
          (opu.gtt_sa_num_of_chunks + 1) f (size - opu.gtt_sa_chunk_size) (by omega) (by omega)
          (by omega)
        rw [hr]
        cases r with
        | done last =>
          obtain ⟨g₁, g₂, g₃⟩ := hspec
          refine ⟨_, rfl, by omega, by omega, fun i hi₁ hi₂ => ?_⟩
          by_cases hi : i = f
          · rwa [hi]
          · exact g₃ i (by omega) (by omega)
        | restart next =>
          obtain ⟨g₁, g₂, g₃, g₄⟩ := hspec
          refine ih (by omega) (by omega) fun first hlt hrun => ?_
          -- every run from here that is long enough has the chunk that is taken
          rcases Nat.lt_or_ge first f with h | h
          · exact hbefore first h hrun
          · exact hrun.2 next (by omega) (by omega) g₄
        | noFreeChunk =>
          refine ⟨_, rfl, fun first hrun => ?_⟩
          rcases Nat.lt_or_ge first f with h | h
          · exact hbefore first h hrun
          · have := hrun.1
            dsimp only at hspec
            omega

end

end Codrive.Gtt
