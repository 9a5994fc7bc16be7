/-
# Filling memory with words

`Runtime::FillMemory` of `src/src/drive/Runtime.cpp`, and `GpuAgent::DmaFill` of
`src/src/drive/Agent.cpp`.  The pointer information says whether a GPU fills the range or the host
does.  `DmaFill` does nothing and reports success, `memset` writes the low byte of the value, the
range test is made in 64-bit words that wrap, and `PtrInfo` writes no list of agents, since it gets
its pointer by value.  So a fill does what it should only where these make no difference
(`fillMemory_ok_iff`).

| here | source |
|---|---|
| `OwnedInfo` | what `PtrInfo` writes to `info` |
| `agent_count` | the value of the variable, which nothing has written |
| `none` as a result | a null pointer that is followed |
-/

import Codrive.Basis.Bytes
import Codrive.Runtime.Memory

namespace Codrive.Runtime

open Codrive.Basis

/-- `IAgent::AgentType`. -/
inductive AgentType
  | kGpu
  | kCpu
  | kUnknown
  deriving DecidableEq

/-- `hsa_amd_pointer_info_t`, with the owner. -/
structure OwnedInfo extends PointerInfo where
  /-- `agentOwner`, `none` for a null pointer. -/
  agentOwner : Option AgentType
  /-- `size_t`. -/
  size_lt : sizeInBytes < 2 ^ 64

/-- `memset`. -/
def memset (img : Image) (ptr c size : ℕ) : Image := fun x =>
  if ptr ≤ x ∧ x < ptr + size then byteOf c 0 else img x

/-- `GpuAgent::DmaFill`. -/
def dmaFill (img : Image) (_ptr _value _count : ℕ) : Status × Image := (.success, img)

/-- `base <= ptr && endPtr <= base + info.sizeInBytes`, in 64-bit words. -/
def InRange64 (base sizeInBytes ptr count : ℕ) : Prop :=
  base ≤ ptr ∧ u64 (ptr + u64 (count * 4)) ≤ u64 (base + sizeInBytes)

instance (base sizeInBytes ptr count : ℕ) : Decidable (InRange64 base sizeInBytes ptr count) :=
  inferInstanceAs (Decidable (_ ∧ _))

/-- `FillMemory`, where the host fills. -/
def hostFill (info : OwnedInfo) (img : Image) (ptr value count : ℕ) : Status × Image :=
  if InRange64 info.hostBaseAddress info.sizeInBytes ptr count then
    (.success, memset img ptr value (u64 (count * 4)))
  else (.invalidAllocation, img)

/-- `Runtime::FillMemory`; `err` is what `PtrInfo` returns. -/
def fillMemory (err : Status) (info : OwnedInfo) (agent_count : ℕ) (img : Image)
    (ptr value count : ℕ) : Option (Status × Image) :=
  if err ≠ .success then some (err, img)
  else if InRange64 info.agentBaseAddress info.sizeInBytes ptr count then
    match info.agentOwner with
    | none => none
    | some .kGpu => some (dmaFill img ptr value count)
    | some _ =>
      -- `accessible` is null, so that the loop must not start
      if agent_count ≠ 0 then none else some (hostFill info img ptr value count)
  else some (hostFill info img ptr value count)

/-! ### The purpose -/

/-- Memory with a range of words set to a value. -/
def filled (img : Image) (ptr value count : ℕ) : Image := fun x =>
  if ptr ≤ x ∧ x < ptr + 4 * count then byteOf value ((x - ptr) % 4) else img x

/-- The range of the words lies in an allocation. -/
def InAllocation (base sizeInBytes ptr count : ℕ) : Prop :=
  base ≤ ptr ∧ ptr + 4 * count ≤ base + sizeInBytes

/-- The range of the words lies in the allocation, by one of its two addresses. -/
def OwnedInfo.Known (info : OwnedInfo) (ptr count : ℕ) : Prop :=
  InAllocation info.agentBaseAddress info.sizeInBytes ptr count ∨
    InAllocation info.hostBaseAddress info.sizeInBytes ptr count

/-- What `FillMemory` should do: return an error and change nothing, or fill a range of the
allocation. -/
def FillOk (info : OwnedInfo) (img : Image) (ptr value count : ℕ) (r : Option (Status × Image)) :
    Prop :=
  ∃ status img', r = some (status, img') ∧ (status ≠ .success ∧ img' = img ∨
    status = .success ∧ info.Known ptr count ∧ img' = filled img ptr value count)

/-- The host may fill: if the test passes, the range is in the allocation, and the bytes of the
value are all the same. -/
def HostFills (info : OwnedInfo) (ptr value count : ℕ) : Prop :=
  InRange64 info.hostBaseAddress info.sizeInBytes ptr count →
    info.Known ptr count ∧ (count = 0 ∨ ∀ i < 4, byteOf value i = byteOf value 0)

/-- Where none of this makes a difference: a GPU finds the range filled, and the host fills with
words of one byte; no list of agents is read. -/
def Fills (err : Status) (info : OwnedInfo) (agent_count : ℕ) (img : Image)
    (ptr value count : ℕ) : Prop :=
  err = .success →
    if InRange64 info.agentBaseAddress info.sizeInBytes ptr count then
      match info.agentOwner with
      | none => False
      | some .kGpu => info.Known ptr count ∧ ∀ i < count, img.Holds (ptr + 4 * i) 4 value
      | some _ => agent_count = 0 ∧ HostFills info ptr value count
    else HostFills info ptr value count

section

variable {info : OwnedInfo} {img img' : Image} {ptr value count : ℕ}

/-- **What a filled range is**: each of its words is the value, and nothing else has changed. -/
theorem eq_filled_iff : img' = filled img ptr value count ↔
    (∀ i < count, img'.Holds (ptr + 4 * i) 4 value) ∧
      ∀ x, x < ptr ∨ ptr + 4 * count ≤ x → img' x = img x := by
  constructor
  · rintro rfl
    refine ⟨fun i hi j hj => ?_, fun x hx => if_neg (by omega)⟩
    rw [filled, if_pos (by omega)]
    congr 1
    omega
  · rintro ⟨hin, hout⟩
    funext x
    rw [filled]
    split
    · rename_i hx
      have := hin ((x - ptr) / 4) (by omega) ((x - ptr) % 4) (Nat.mod_lt _ (by decide))
      rwa [show ptr + 4 * ((x - ptr) / 4) + (x - ptr) % 4 = x by omega] at this
    · rename_i hx
      exact hout x (by omega)

/-- Memory is as if it had been filled exactly if each word is the value. -/
theorem self_eq_filled_iff : img = filled img ptr value count ↔
    ∀ i < count, img.Holds (ptr + 4 * i) 4 value :=
  eq_filled_iff.trans ⟨And.left, fun h => ⟨h, fun _ _ => rfl⟩⟩

/-- **`memset` fills with words** exactly if their bytes are all the same. -/
theorem memset_eq_filled_iff : memset img ptr value (4 * count) = filled img ptr value count ↔
    count = 0 ∨ ∀ i < 4, byteOf value i = byteOf value 0 := by
  constructor
  · intro h
    rcases Nat.eq_zero_or_pos count with hzero | hpos
    · exact .inl hzero
    · refine .inr fun i hi => ?_
      have hx := congrFun h (ptr + i)
      rw [memset, filled, if_pos (by omega), if_pos (by omega), Nat.add_sub_cancel_left,
        Nat.mod_eq_of_lt hi] at hx
      exact hx.symm
  · intro h
    funext x
    rw [memset, filled]
    split
    · rename_i hx
      obtain rfl | hsame := h
      · omega
      · exact (hsame _ (Nat.mod_lt _ (by decide))).symm
    · rfl

/-- The size of a known range does not wrap. -/
theorem OwnedInfo.Known.size_eq (h : info.Known ptr count) : u64 (count * 4) = 4 * count := by
  have hlt := info.size_lt
  rw [Nat.mul_comm]
  refine u64_of_lt ?_
  obtain ⟨hlo, hhi⟩ | ⟨hlo, hhi⟩ := h <;> omega

/-- **The host fills** as it should exactly where the condition for it holds. -/
theorem hostFill_ok_iff :
    FillOk info img ptr value count (some (hostFill info img ptr value count)) ↔
      HostFills info ptr value count := by
  rw [hostFill, HostFills]
  by_cases hin : InRange64 info.hostBaseAddress info.sizeInBytes ptr count
  · rw [if_pos hin]
    constructor
    · rintro ⟨status, img', hr, ⟨hne, -⟩ | ⟨-, hknown, himg⟩⟩ _ <;> cases hr
      · exact absurd rfl hne
      · rw [hknown.size_eq] at himg
        exact ⟨hknown, memset_eq_filled_iff.1 himg⟩
    · intro h
      obtain ⟨hknown, hsame⟩ := h hin
      refine ⟨_, _, rfl, .inr ⟨rfl, hknown, ?_⟩⟩
      rw [hknown.size_eq]
      exact memset_eq_filled_iff.2 hsame
  · rw [if_neg hin]
    exact ⟨fun _ h => absurd h hin, fun _ => ⟨_, _, rfl, .inl ⟨by decide, rfl⟩⟩⟩

/-- **The device fills** as it should exactly where nothing is to be done. -/
theorem dmaFill_ok_iff : FillOk info img ptr value count (some (dmaFill img ptr value count)) ↔
    info.Known ptr count ∧ ∀ i < count, img.Holds (ptr + 4 * i) 4 value := by
  constructor
  · rintro ⟨status, img', hr, ⟨hne, -⟩ | ⟨-, hknown, himg⟩⟩ <;> cases hr
    · exact absurd rfl hne
    · exact ⟨hknown, self_eq_filled_iff.1 himg⟩
  · rintro ⟨hknown, hwords⟩
    exact ⟨_, _, rfl, .inr ⟨rfl, hknown, self_eq_filled_iff.2 hwords⟩⟩

theorem not_fillOk_none : ¬FillOk info img ptr value count none := by
  rintro ⟨_, _, h, -⟩
  cases h

/-- **`FillMemory` fills**, for any answer of `PtrInfo`, exactly where the condition for the path
that it takes holds. -/
theorem fillMemory_ok_iff (err : Status) (info : OwnedInfo) (agent_count : ℕ) (img : Image)
    (ptr value count : ℕ) :
    FillOk info img ptr value count (fillMemory err info agent_count img ptr value count) ↔
      Fills err info agent_count img ptr value count := by
  rw [fillMemory, Fills]
  by_cases herr : err ≠ .success
  · rw [if_pos herr]
    exact ⟨fun _ h => absurd h herr, fun _ => ⟨_, _, rfl, .inl ⟨herr, rfl⟩⟩⟩
  rw [if_neg herr, forall_prop_of_true (not_not.1 herr)]
  by_cases hin : InRange64 info.agentBaseAddress info.sizeInBytes ptr count
  swap
  · rw [if_neg hin, if_neg hin]
    exact hostFill_ok_iff
  rw [if_pos hin, if_pos hin]
  have hother : FillOk info img ptr value count
      (if agent_count ≠ 0 then none else some (hostFill info img ptr value count)) ↔
        agent_count = 0 ∧ HostFills info ptr value count := by
    by_cases hcount : agent_count ≠ 0
    · rw [if_pos hcount]
      exact ⟨fun h => absurd h not_fillOk_none, fun h => absurd h.1 hcount⟩
    · rw [if_neg hcount]
      exact hostFill_ok_iff.trans (and_iff_right (not_not.1 hcount)).symm
  cases info.agentOwner with
  | none => exact ⟨not_fillOk_none, False.elim⟩
  | some owner =>
    cases owner with
    | kGpu => exact dmaFill_ok_iff
    | kCpu => exact hother
    | kUnknown => exact hother

end

theorem page_lt : 4096 < 2 ^ 64 := by decide

/-- A page of host memory. -/
def hostPage : OwnedInfo :=
  { type := .registeredUser, agentBaseAddress := 2 ^ 40, hostBaseAddress := 4096,
    sizeInBytes := 4096, userData := 0, agentOwner := some .kCpu, size_lt := page_lt }

/-- **The host writes one byte of the value four times.** -/
theorem host_writes_low_byte :
    ¬FillOk hostPage (fun _ => 0) 4096 1 1
      (fillMemory .success hostPage 0 (fun _ => 0) 4096 1 1) := by
  have hrun : fillMemory .success hostPage 0 (fun _ => 0) 4096 1 1 =
      some (.success, memset (fun _ => 0) 4096 1 4) := by
    rfl
  rw [hrun]
  rintro ⟨status, img', hr, ⟨hne, -⟩ | ⟨-, -, himg⟩⟩ <;> cases hr
  · exact hne rfl
  · have hbyte := congrFun himg 4097
    rw [memset, filled, if_pos (by decide), if_pos (by decide)] at hbyte
    exact absurd hbyte (by decide)

/-- **The device writes nothing.** -/
example : ¬FillOk { hostPage with agentOwner := some .kGpu } (fun _ => 0) (2 ^ 40) 1 1
    (fillMemory .success { hostPage with agentOwner := some .kGpu } 0 (fun _ => 0) (2 ^ 40) 1
      1) := by
  have hrun : fillMemory .success { hostPage with agentOwner := some .kGpu } 0 (fun _ => 0) (2 ^ 40)
      1 1 = some (dmaFill (fun _ => 0) (2 ^ 40) 1 1) := by
    rfl
  rw [hrun, dmaFill_ok_iff]
  rintro ⟨-, hwords⟩
  exact absurd (hwords 0 (by decide) 0 (by decide)) (by decide)

end Codrive.Runtime
