/-
# The arguments of a kernel

`PushArgImpl` and `PushArgPtrImpl` of `src/src/driver/csq_cmd.cpp`, with `clearArgs`,
`pushArgPrivate` and the typed pushes that they call of `CmdDispatch` in
`src/src/driver/inc/csq_cmd.h`.

| here | source |
|---|---|
| `arg_vec`, `arg_count` | the vector of bytes, and a `uint32_t` |
| `size`, `ptr` | `sizeof(T)` and the bytes of `val` |
| `mem`, `v` | the memory that the caller's pointer points into, and the pointer |
| `none` | `assert(0 && "Unsupported kernel argument size")` ends the process |

`sizeof` is that of the 64-bit targets, where a `double` and a pointer have 8 bytes, and the bytes
of a pointer are stored lowest first.  A value is copied byte by byte, so its type is its size.  The
pushes of the types that neither function reaches, and the debug output, are left out.

The vector grows push by push from where it ends, and `laidOut_of_pushes` says that this is the
layout of a struct all the same.  The trailing padding of the struct is not pushed, and the count is
the number of pushes in 32 bits.
-/

import Codrive.Basis.Bytes
import Codrive.Basis.Machine
import Codrive.Basis.StructLayout
import Mathlib.Data.List.Induction

namespace Codrive.Csq.KernelArgs

open Codrive.Basis

/-- What a `CmdDispatch` keeps of the arguments. -/
structure CmdDispatch where
  arg_vec : List UInt8
  arg_count : ℕ

/-- So many rounds of `arg_vec.push_back`. -/
def pushBack (arg_vec : List UInt8) (ptr : ℕ → UInt8) : ℕ → List UInt8
  | 0 => arg_vec
  | i + 1 => pushBack arg_vec ptr i ++ [ptr i]

namespace CmdDispatch

/-- `clearArgs`. -/
def clearArgs (d : CmdDispatch) : CmdDispatch := { d with arg_count := 0, arg_vec := [] }

/-- `padding_size` of `pushArgPrivate`. -/
def paddingSize (d : CmdDispatch) (size : ℕ) : ℕ :=
  wrap 32 (if d.arg_vec.length % size ≠ 0 then size - d.arg_vec.length % size else 0)

/-- `pushArgPrivate<T>`. -/
def pushArgPrivate (d : CmdDispatch) (size : ℕ) (ptr : ℕ → UInt8) : CmdDispatch where
  arg_vec := pushBack (pushBack d.arg_vec (fun _ => 0) (d.paddingSize size)) ptr size
  arg_count := wrap 32 (d.arg_count + 1)

/-- `pushDoubleArg`. -/
def pushDoubleArg (d : CmdDispatch) (val : ℕ → UInt8) : CmdDispatch := d.pushArgPrivate 8 val

/-- `pushShortArg`. -/
def pushShortArg (d : CmdDispatch) (val : ℕ → UInt8) : CmdDispatch := d.pushArgPrivate 2 val

/-- `pushIntArg`. -/
def pushIntArg (d : CmdDispatch) (val : ℕ → UInt8) : CmdDispatch := d.pushArgPrivate 4 val

/-- `pushBooleanArg`. -/
def pushBooleanArg (d : CmdDispatch) (val : ℕ → UInt8) : CmdDispatch := d.pushArgPrivate 1 val

/-- `pushPointerArg`. -/
def pushPointerArg (d : CmdDispatch) (addr : ℕ) : CmdDispatch := d.pushArgPrivate 8 (byteOf addr)

end CmdDispatch

/-- `PushArgImpl`; `idx` is not looked at. -/
def PushArgImpl (ndebug : Bool) (ker : CmdDispatch) (mem : Image) (_idx sz v : ℕ) :
    Option CmdDispatch :=
  let val : ℕ → UInt8 := fun i => mem (v + i)
  match sz with
  | 8 => some (ker.pushDoubleArg val)
  | 2 => some (ker.pushShortArg val)
  | 4 => some (ker.pushIntArg val)
  | 1 => some (ker.pushBooleanArg val)
  | _ => (assert ndebug false).map fun _ => ker

/-- `PushArgPtrImpl`; `idx` and `sz` are not looked at. -/
def PushArgPtrImpl (ker : CmdDispatch) (_idx _sz v : ℕ) : CmdDispatch := ker.pushPointerArg v

/-- A call, with the memory it finds. -/
inductive Push where
  | value (mem : Image) (idx sz v : ℕ)
  | pointer (idx sz v : ℕ)

/-- One call. -/
def CmdDispatch.push (ndebug : Bool) (ker : CmdDispatch) : Push → Option CmdDispatch
  | .value mem idx sz v => PushArgImpl ndebug ker mem idx sz v
  | .pointer idx sz v => some (PushArgPtrImpl ker idx sz v)

/-- One call after the other. -/
def CmdDispatch.pushes (ndebug : Bool) (ker : CmdDispatch) (args : List Push) :
    Option CmdDispatch :=
  args.foldlM (CmdDispatch.push ndebug) ker

/-! ### What is pushed -/

/-- The sizes of the values that can be pushed; a pointer can always be. -/
def Push.Supported : Push → Prop
  | .value _ _ sz _ => sz = 1 ∨ sz = 2 ∨ sz = 4 ∨ sz = 8
  | .pointer .. => True

/-- **The argument's own bytes**: what is stored where the caller points to, or the address. -/
def Push.bytes : Push → List UInt8
  | .value mem _ sz v => (List.range sz).map fun i => mem (v + i)
  | .pointer _ _ v => leBytes 8 v

/-- The fields of the struct. -/
def fields (args : List Push) : List (List UInt8) := args.map Push.bytes

variable {ndebug : Bool} {d : CmdDispatch} {p : Push} {args : List Push} {size : ℕ}

theorem fields_snoc (args : List Push) (p : Push) :
    fields (args ++ [p]) = fields args ++ [p.bytes] := by
  simp [fields]

theorem length_bytes_pos (h : p.Supported) : 0 < p.bytes.length := by
  cases p with
  | value mem idx sz v => rcases h with rfl | rfl | rfl | rfl <;> simp [Push.bytes]
  | pointer idx sz v => simp [Push.bytes]

theorem length_bytes_le (h : p.Supported) : p.bytes.length ≤ 8 := by
  cases p with
  | value mem idx sz v => rcases h with rfl | rfl | rfl | rfl <;> simp [Push.bytes]
  | pointer idx sz v => simp [Push.bytes]

/-! ### One push -/

theorem pushBack_eq (arg_vec : List UInt8) (ptr : ℕ → UInt8) (k : ℕ) :
    pushBack arg_vec ptr k = arg_vec ++ (List.range k).map ptr := by
  induction k with
  | zero => simp [pushBack]
  | succ k ih => rw [pushBack, ih, List.range_succ, List.map_append, List.append_assoc]; rfl

/-- The padding goes up to the next multiple of the size. -/
theorem paddingSize_eq (hpos : 0 < size) (hle : size ≤ 8) :
    d.paddingSize size = nextMultiple size d.arg_vec.length - d.arg_vec.length := by
  have hlt : d.arg_vec.length % size < size := Nat.mod_lt _ hpos
  rw [nextMultiple, Nat.add_sub_cancel_left, CmdDispatch.paddingSize]
  by_cases h : d.arg_vec.length % size = 0
  · rw [if_neg (not_not.2 h), h, Nat.sub_zero, Nat.mod_self]
    rfl
  · rw [if_pos h, wrap_of_lt (by omega),
      Nat.mod_eq_of_lt (show size - d.arg_vec.length % size < size by omega)]

theorem pushArgPrivate_arg_vec (ptr : ℕ → UInt8) (hpos : 0 < size) (hle : size ≤ 8) :
    (d.pushArgPrivate size ptr).arg_vec = d.arg_vec ++
      List.replicate (nextMultiple size d.arg_vec.length - d.arg_vec.length) 0 ++
        (List.range size).map ptr := by
  rw [CmdDispatch.pushArgPrivate, pushBack_eq, pushBack_eq, paddingSize_eq hpos hle]
  simp [List.map_const']

/-- **What a push does**: padding, the argument's own bytes, and one more in the count. -/
theorem push_eq (ndebug : Bool) (d : CmdDispatch) (h : p.Supported) :
    ∃ d', d.push ndebug p = some d' ∧ d'.arg_count = wrap 32 (d.arg_count + 1) ∧
      d'.arg_vec = d.arg_vec ++
        List.replicate (fieldStart d.arg_vec.length p.bytes - d.arg_vec.length) 0 ++ p.bytes := by
  -- the width alone chooses the type
  have hpush : ∃ ptr, d.push ndebug p = some (d.pushArgPrivate p.bytes.length ptr) ∧
      p.bytes = (List.range p.bytes.length).map ptr := by
    cases p with
    | value mem idx sz v =>
      refine ⟨fun i => mem (v + i), ?_, by simp [Push.bytes]⟩
      rcases h with rfl | rfl | rfl | rfl <;> rfl
    | pointer idx sz v => exact ⟨byteOf v, rfl, by simp [Push.bytes, leBytes]⟩
  obtain ⟨ptr, hpush, hbytes⟩ := hpush
  refine ⟨_, hpush, rfl, ?_⟩
  rw [pushArgPrivate_arg_vec ptr (length_bytes_pos h) (length_bytes_le h), ← hbytes, fieldStart]

/-! ### All pushes -/

theorem pushes_append (ndebug : Bool) (d : CmdDispatch) (args args' : List Push) :
    d.pushes ndebug (args ++ args') = (d.pushes ndebug args).bind fun d' =>
      d'.pushes ndebug args' := by
  rw [CmdDispatch.pushes, List.foldlM_append]
  rfl

/-- **What has been pushed stays**, whatever is pushed behind it. -/
theorem prefix_of_pushes {d' : CmdDispatch} (hargs : ∀ p ∈ args, p.Supported)
    (h : d.pushes ndebug args = some d') : d.arg_vec <+: d'.arg_vec := by
  induction args generalizing d with
  | nil =>
    obtain rfl := Option.some.inj h
    exact List.prefix_rfl
  | cons p args ih =>
    obtain ⟨d₁, hpush, -, hvec⟩ := push_eq ndebug d (hargs p List.mem_cons_self)
    rw [CmdDispatch.pushes, List.foldlM_cons, hpush] at h
    have hrest := ih (fun q hq => hargs q (List.mem_cons_of_mem _ hq)) h
    rw [hvec, List.append_assoc] at hrest
    exact (List.prefix_append ..).trans hrest

/-- **The vector is a struct's image after every push**: up to the end of the last argument, with
the count in 32 bits. -/
theorem pushes_eq (ndebug : Bool) (d : CmdDispatch) (args : List Push)
    (h : ∀ p ∈ args, p.Supported) : ∃ d', d.clearArgs.pushes ndebug args = some d' ∧
      d'.arg_count = wrap 32 args.length ∧
      StructImage 0 (fields args) (fieldsEnd (fields args)) d'.arg_vec := by
  induction args using List.reverseRecOn with
  | nil => exact ⟨d.clearArgs, rfl, rfl, .nil 0⟩
  | append_singleton args p ih =>
    obtain ⟨d₁, hpushes, hcount, himage⟩ := ih fun q hq => h q (List.mem_append_left _ hq)
    obtain ⟨d₂, hpush, hcount₂, hvec⟩ := push_eq ndebug d₁ (h p (by simp))
    refine ⟨d₂, ?_, ?_, ?_⟩
    · rw [pushes_append, hpushes, Option.bind_some, CmdDispatch.pushes, List.foldlM_cons, hpush]
      rfl
    · rw [hcount₂, hcount, List.length_append, List.length_singleton]
      exact Nat.mod_add_mod ..
    · rw [fields_snoc, hvec, himage.length]
      exact himage.snoc p.bytes

/-- **The vector `d'` has is the struct of the arguments**, after `args` were pushed from `d` on. -/
structure LaidOut (ndebug : Bool) (d : CmdDispatch) (args : List Push) (d' : CmdDispatch) :
    Prop where
  /-- Own bytes and zeros up to the end of the last argument, and nothing behind it. -/
  upToEnd : StructImage 0 (fields args) (fieldsEnd (fields args)) d'.arg_vec
  /-- With the trailing padding it is the whole struct, and the struct is nothing else. -/
  whole : ∀ img, StructImage 0 (fields args) (structSize (fields args)) img ↔
    img = d'.arg_vec ++ List.replicate (structSize (fields args) - fieldsEnd (fields args)) 0
  /-- An argument is at the least multiple of its size from the end of the one before it. -/
  placed : ∀ before p after, args = before ++ p :: after → ∃ d₁ off,
    d.pushes ndebug before = some d₁ ∧
    IsLeast {o | d₁.arg_vec.length ≤ o ∧ p.bytes.length ∣ o} off ∧
    (∀ i < p.bytes.length, d'.arg_vec[off + i]? = p.bytes[i]?) ∧
    ∃ d₂, d.pushes ndebug (before ++ [p]) = some d₂ ∧ d₂.arg_vec.length = off + p.bytes.length
  /-- What was pushed first is as it was. -/
  kept : ∀ before after, args = before ++ after → ∃ d₁, d.pushes ndebug before = some d₁ ∧
    d₁.arg_vec <+: d'.arg_vec

/-- **The arguments are laid out as a struct**: every sequence of supported ones can be pushed, and
their bytes are those of the struct with these fields, less its trailing padding; the count is the
number of pushes in 32 bits. -/
theorem laidOut_of_pushes (ndebug : Bool) (d : CmdDispatch) (args : List Push)
    (h : ∀ p ∈ args, p.Supported) : ∃ d', d.clearArgs.pushes ndebug args = some d' ∧
      LaidOut ndebug d.clearArgs args d' ∧ d'.arg_count = args.length % 2 ^ 32 := by
  obtain ⟨d', hpushes, hcount, himage⟩ := pushes_eq ndebug d args h
  refine ⟨d', hpushes, ?_, hcount⟩
  constructor
  case upToEnd => exact himage
  case whole =>
    have hwhole := himage.append_padding (Nat.le_refl _)
      (structSize (fields args) - fieldsEnd (fields args))
    rw [Nat.add_sub_cancel' (fieldsEnd_le_structSize _)] at hwhole
    intro img
    constructor
    · exact fun himg => himg.unique hwhole
    · rintro rfl
      exact hwhole
  case placed =>
    rintro before p after rfl
    obtain ⟨d₁, hbefore, -, himage₁⟩ := pushes_eq ndebug d before fun q hq =>
      h q (List.mem_append_left _ hq)
    obtain ⟨d₂, hnext, -, himage₂⟩ := pushes_eq ndebug d (before ++ [p]) fun q hq =>
      h q (by simp only [List.mem_append, List.mem_cons] at hq ⊢; tauto)
    have hpos := length_bytes_pos (h p (by simp))
    refine ⟨d₁, fieldStart (fieldsEnd (fields before)) p.bytes, hbefore, ?_, ?_, d₂, hnext, ?_⟩
    · rw [himage₁.length]
      exact isLeast_nextMultiple hpos _
    · exact himage.field (fields before) p.bytes (fields after) (by simp [fields])
    · rw [himage₂.length, fields_snoc, fieldsEnd_snoc]
  case kept =>
    rintro before after rfl
    obtain ⟨d₁, hbefore, -, -⟩ :=
      pushes_eq ndebug d before fun q hq => h q (List.mem_append_left _ hq)
    rw [pushes_append, hbefore, Option.bind_some] at hpushes
    exact ⟨d₁, hbefore, prefix_of_pushes (fun q hq => h q (List.mem_append_right _ hq)) hpushes⟩

/-! ### Some pushes -/

/-- A memory whose bytes are the low bytes of their addresses. -/
def counting : Image := fun a => UInt8.ofNat a

/-- A `char`, an `int`, a pointer and a `short`. -/
def mixed : List Push :=
  [.value counting 0 1 7, .value counting 1 4 32, .pointer 2 8 4660, .value counting 3 2 5]

/-- Three bytes behind the `char`, and none behind the others. -/
theorem laidOut_of_mixed : (∃ d, CmdDispatch.pushes false ⟨[], 0⟩ mixed = some d ∧
    d.arg_vec = [7, 0, 0, 0, 32, 33, 34, 35, 0x34, 0x12, 0, 0, 0, 0, 0, 0, 5, 6]) ∧
    ∃ d, CmdDispatch.pushes false ⟨[], 0⟩ mixed = some d ∧ LaidOut false ⟨[], 0⟩ mixed d ∧
      d.arg_count = 4 % 2 ^ 32 := by
  refine ⟨⟨_, rfl, by decide⟩, laidOut_of_pushes false ⟨[], 0⟩ mixed ?_⟩
  simp [mixed, Push.Supported]

/-- A `double` and a `char`. -/
def doubleAndChar : List Push := [.value counting 0 8 16, .value counting 1 1 7]

/-- As many `char`s as a count of 32 bits does not hold. -/
def manyChars : List Push := List.replicate (2 ^ 32) (.value counting 0 1 7)

/-- **The struct of a `double` and a `char` has 16 bytes**, of which nine are pushed, and a count
of 32 bits is back at zero after as many pushes as it has values. -/
theorem padding_and_count_lost :
    (∃ d, CmdDispatch.pushes false ⟨[], 0⟩ doubleAndChar = some d ∧
      ¬StructImage 0 (fields doubleAndChar) (structSize (fields doubleAndChar)) d.arg_vec) ∧
    (∀ p ∈ manyChars, p.Supported) ∧
    ∃ d, CmdDispatch.pushes false ⟨[], 0⟩ manyChars = some d ∧ d.arg_count ≠ manyChars.length := by
  have hlength : manyChars.length = 2 ^ 32 := List.length_replicate
  have hsupported : ∀ p ∈ manyChars, p.Supported := by
    intro p hp
    rw [List.eq_of_mem_replicate hp]
    exact .inl rfl
  refine ⟨⟨_, rfl, fun h => ?_⟩, hsupported, ?_⟩
  · have := h.length
    revert this
    decide
  · obtain ⟨d, hpushes, hcount, -⟩ := pushes_eq false ⟨[], 0⟩ manyChars hsupported
    refine ⟨d, hpushes, ?_⟩
    rw [hcount, hlength]
    decide

end Codrive.Csq.KernelArgs
