/-
# Mapping the pages of an object for DMA

`opu_pages_dma_map_continue`, `opu_pages_dma_unmap_continue`, `opu_pages_dma_map` and
`opu_pages_dma_unmap` of `src/src/cmdio/linux/opu_mo_mgr.c`, called with the `dma_addr` of one
object.

The first pair maps all pages as one chunk, the second one a chunk for each `2^order` pages.  The
pages of a chunk follow one another, so a chunk is told by the place of its first page in the list
and its bytes.

| here | source |
|---|---|
| a number as a `dma_addr_t` | the mapping that `dma_map_page` made, in the order they were made |
| `Entry.error` | what `dma_mapping_error` finds |
| `memory`, `fails` | `kvzalloc` finds memory; `dma_map_page` of this chunk fails |
| `none` as a state | the kernel faults: a read outside an array, or of freed memory |

The state counts how often each mapping was unmapped, and says whether something was unmapped that
is no mapping of these bytes.
-/

import Codrive.Basis.Machine
import Mathlib.Data.Nat.Notation
import Mathlib.Logic.Function.Basic

namespace Codrive.Dma

open Codrive.Basis

abbrev PAGE_SHIFT : ℕ := 12

abbrev PAGE_SIZE : ℕ := 4096

/-- `opu_pages`; a `struct page` is its number. -/
structure Pages where
  pages : List ℕ
  order : ℕ

/-- `npages`. -/
def Pages.npages (a : Pages) : ℕ := a.pages.length

/-- An entry of the table. -/
inductive Entry
  | zero
  | error
  | mapping (id : ℕ)
  deriving DecidableEq

/-- The table at `dma_addr`. -/
structure Table where
  entries : List Entry
  freed : Bool := false
  deriving DecidableEq

/-- What was mapped: the place of the first page, and the bytes. -/
structure Chunk where
  first : ℕ
  bytes : ℕ
  deriving DecidableEq

/-- The object, and the mappings that were made. -/
structure State where
  dma_addr : Option Table := none
  /-- How many mappings were made. -/
  mapped : ℕ := 0
  chunk : ℕ → Chunk := fun _ => ⟨0, 0⟩
  unmaps : ℕ → ℕ := fun _ => 0
  /-- Something else was unmapped. -/
  stray : Bool := false

/-- The errors. -/
inductive Errno
  | noMem
  | inval
  deriving DecidableEq

namespace State

/-- `dma_map_page`. -/
def dmaMap (s : State) (c : Chunk) : State :=
  { s with mapped := s.mapped + 1, chunk := Function.update s.chunk s.mapped c }

/-- `dma_unmap_page`. -/
def dmaUnmap (s : State) (e : Entry) (bytes : ℕ) : State :=
  match e with
  | .mapping id =>
    if (s.chunk id).bytes = bytes then
      { s with unmaps := Function.update s.unmaps id (s.unmaps id + 1) }
    else { s with stray := true }
  | _ => { s with stray := true }

variable (a : Pages) (s : State)

/-! ### One chunk -/

/-- `opu_pages_dma_map_continue`. -/
def opuPagesDmaMapContinue (memory fails : Bool) : Option (Option Errno × State) :=
  if !memory then some (some .noMem, s)
  else
    match a.pages[0]? with
    | none => none
    | some _ =>
      -- The freed table is handed out too.
      if fails then some (some .inval, { s with dma_addr := some ⟨[.error], true⟩ })
      else some (none,
        { s.dmaMap ⟨0, u64 (a.npages <<< PAGE_SHIFT)⟩ with
          dma_addr := some ⟨[.mapping s.mapped], false⟩ })

/-- `opu_pages_dma_unmap_continue`. -/
def opuPagesDmaUnmapContinue : Option State :=
  match s.dma_addr with
  | none => some s
  | some table =>
    if table.freed then none
    else
      match table.entries[0]? with
      | none => none
      | some e =>
        some { s.dmaUnmap e (u64 (a.npages <<< PAGE_SHIFT)) with dma_addr := none }

/-! ### A chunk for each `2^order` pages -/

/-- `nallocs`; a shift of 32 bits by more is undefined. -/
def nallocs : Option ℕ := if a.order < 32 then some (wrap 32 a.npages >>> a.order) else none

/-- The bytes of a chunk. -/
def chunkBytes : ℕ := u64 (PAGE_SIZE <<< a.order)

/-- `dma_unmap_page` of these entries. -/
def unmapEntries (entries : List Entry) : State :=
  entries.foldl (fun s e => s.dmaUnmap e (chunkBytes a)) s

/-- The loop over the chunks, from chunk `i` on, with the entries that are there.  After a failure
those are unmapped from the last one on. -/
def mapChunks (fails : ℕ → Bool) : ℕ → ℕ → List Entry → State →
    Option (Option Errno × List Entry × State)
  | 0, _, entries, s => some (none, entries, s)
  | n + 1, i, entries, s =>
    -- The index is an `int`.
    if 2 ^ 31 ≤ i <<< a.order then none
    else
      match a.pages[i <<< a.order]? with
      | none => none
      | some _ =>
        if fails i then
          some (some .inval, entries ++ .error :: List.replicate n .zero,
            s.unmapEntries a entries.reverse)
        else
          mapChunks fails n (i + 1) (entries ++ [.mapping s.mapped])
            (s.dmaMap ⟨i <<< a.order, chunkBytes a⟩)

/-- `opu_pages_dma_map`. -/
def opuPagesDmaMap (memory : Bool) (fails : ℕ → Bool) : Option (Option Errno × State) := do
  let n ← nallocs a
  if !memory then return (some .noMem, s)
  let (err, entries, s) ← mapChunks a fails n 0 [] s
  -- The table is handed out after a failure too.
  return (err, { s with dma_addr := some ⟨entries, false⟩ })

/-- `opu_pages_dma_unmap`. -/
def opuPagesDmaUnmap : Option State :=
  match s.dma_addr with
  | none => some s
  | some table => do
    let n ← nallocs a
    if table.freed || table.entries.length < n then none
    else some { s.unmapEntries a (table.entries.take n) with dma_addr := none }

/-! ### The calls -/

/-- A call. -/
inductive Call
  | mapContinue (memory fails : Bool)
  | unmapContinue
  | map (memory : Bool) (fails : ℕ → Bool)
  | unmap

/-- What a call returns, and the state it leads to. -/
def call : Call → Option (Option Errno × State)
  | .mapContinue memory fails => s.opuPagesDmaMapContinue a memory fails
  | .unmapContinue => (s.opuPagesDmaUnmapContinue a).map fun t => (none, t)
  | .map memory fails => s.opuPagesDmaMap a memory fails
  | .unmap => (s.opuPagesDmaUnmap a).map fun t => (none, t)

/-- The step of a call. -/
def Step (s : State) (c : Call) (t : State) : Prop := ∃ err, s.call a c = some (err, t)

end State

end Codrive.Dma
