/-
# Sharing allocations with other processes

`IPCCreate`, `IPCAttach` and `IPCDetach` of `src/src/drive/Runtime.cpp`.  A handle is the driver's;
for a fragment of a block it is the handle of the block, with a flag and the place of the fragment
put into the word that holds the size.

| here | source |
|---|---|
| `HsaSharedMemoryStruct` | `hsa_amd_ipc_memory_t`, whose `handle[6]` is `SizeInPages` |
| `mmShareMemory` | `DEVICE->ShareMemory` |
| `imports` | the objects that `RegisterSharedHandle` and `RegisterSharedHandleToNodes` have made |
| `exported` | `IPCFragmentExport` succeeds |
| `mapped` | one of the calls that map an import succeeds |
| `none` as a result | a failed assertion, or the null region of an entry that was not there |

The agents that an import is mapped to are left out.
-/

import Codrive.Aperture.Sharing
import Codrive.Runtime.Memory

namespace Codrive.Runtime

open Codrive.Basis Codrive.Aperture

/-- The mark of a fragment. -/
def fragmentFlag : ℕ := 0x80000000

/-- The bits for the place of a fragment. -/
def offsetMask : ℕ := 0x1FF

/-- `sizeof(hsa_amd_pointer_info_t)`. -/
def pointerInfoSize : ℕ := 48

/-- The handle of a fragment. -/
def markFragment (handle : HsaSharedMemoryStruct) (offset : ℕ) : HsaSharedMemoryStruct :=
  { handle with SizeInPages := handle.SizeInPages ||| (fragmentFlag ||| offset) }

/-- `IPCCreate`. -/
def ipcCreate (ndebug : Bool) (m : AllocationMap) (mm : MemMgr) (ptr len : ℕ) (err : Bool)
    (thunkInfo : HsaPointerInfo) (driver : Option ℕ) (exported : Bool) :
    Option (Status × Option HsaSharedMemoryStruct) :=
  if 0x7FFFFFFF000 < len then some (.invalidArgument, none)
  else do
    let (_, info) ← ptrInfo ndebug m ptr pointerInfoSize err thunkInfo true
    match info with
    | none => return (.invalidArgument, none)
    | some (info, block) =>
      if info.agentBaseAddress ≠ ptr ∨ info.sizeInBytes ≠ len then
        return (.invalidArgument, none)
      else if block.base ≠ ptr ∨ block.length ≠ len then
        if block.base % (2 * 1024 * 1024) ≠ 0 then do
          assert ndebug false
          return (.invalidArgument, none)
        else
          match mm.mmShareMemory block.base block.length driver with
          | (.success, some handle) =>
            let offset := wrap 32 (sub64 ptr block.base / 4096)
            match (m.find? ptr).bind AllocationRegion.region with
            | none => none
            | some _ => do
              assert ndebug exported
              return (if exported then .success else .invalidAllocation,
                some (markFragment handle offset))
          | _ => return (.invalidArgument, none)
      else
        match mm.mmShareMemory ptr len driver with
        | (.success, some handle) => return (.success, some handle)
        | _ => return (.invalidArgument, none)

/-! ### The process that imports -/

/-- An import: where it is, the handle it was made from, and its size. -/
structure Import where
  base : ℕ
  handle : HsaSharedMemoryStruct
  size : ℕ

/-- The process that imports. -/
structure Importer where
  allocation_map : AllocationMap := .empty
  imports : List Import := []

/-- The handle marks a fragment. -/
def isFragment (handle : HsaSharedMemoryStruct) : Bool := handle.SizeInPages &&& fragmentFlag ≠ 0

/-- The place of the fragment. -/
def fragOffset (handle : HsaSharedMemoryStruct) : ℕ :=
  if isFragment handle then (handle.SizeInPages &&& offsetMask) * 4096 else 0

/-- The handle of the block. -/
def importHandle (handle : HsaSharedMemoryStruct) : HsaSharedMemoryStruct :=
  if isFragment handle then
    { handle with
      SizeInPages := handle.SizeInPages &&& (0xFFFFFFFF ^^^ (fragmentFlag ||| offsetMask)) }
  else handle

namespace Importer

variable (PAGE_SHIFT : ℕ) (ndebug : Bool) (s : Importer)

/-- The import that a call makes at this address. -/
def newImport (handle : HsaSharedMemoryStruct) (base : ℕ) : Import :=
  { base
    handle := importHandle handle
    size := (importHandle handle).SizeInPages <<< PAGE_SHIFT }

/-- `DEVICE->DeregisterMemory`. -/
def deregisterMemory (address : ℕ) : Bool × Importer :=
  (s.imports.any fun i => i.base = address,
    { s with imports := s.imports.filter fun i => i.base ≠ address })

/-- `IPCAttach`: the status, `*mapped_ptr`, and the process.  `base` is where the driver puts what
is imported, if it imports it. -/
def ipcAttach (handle : HsaSharedMemoryStruct) (len : ℕ) (base : Option ℕ) (mapped : Bool) :
    Status × Option ℕ × Importer :=
  match base with
  | none => (.invalidArgument, none, s)
  | some importAddress =>
    let i := newImport PAGE_SHIFT handle importAddress
    let s := { s with imports := i :: s.imports }
    if !mapped then (.outOfResources, none, (s.deregisterMemory importAddress).2)
    else if isFragment handle then
      let address := u64 (importAddress + fragOffset handle)
      let len := min len (sub64 i.size (fragOffset handle))
      (.success, some address,
        { s with allocation_map := s.allocation_map.set address { region := none, size := len } })
    else (.success, some importAddress, s)

/-- `DEVICE->QueryPointerInfo` of a pointer into an import; says whether it fails. -/
def queryPointerInfo (ptr : ℕ) : Bool × HsaPointerInfo :=
  match s.imports.find? fun i => i.base ≤ ptr && ptr < i.base + i.size with
  | none => (true, ⟨.unknown, 0, 0, 0, 0⟩)
  | some i => (false, ⟨.registeredShared, 0, i.base, i.size, 0⟩)

/-- The end of `IPCDetach`; `unmapped` says whether `UnmapMemoryToGPU` succeeds. -/
def release (address : ℕ) (unmapped : Bool) : Status × Importer :=
  if !unmapped then (.invalidArgument, s)
  else
    match s.deregisterMemory address with
    | (true, s) => (.success, s)
    | (false, s) => (.invalidArgument, s)

/-- `IPCDetach`. -/
def ipcDetach (ptr : ℕ) (unmapped : Bool) : Option (Status × Importer) :=
  match s.allocation_map.find? ptr with
  | none => some (s.release ptr unmapped)
  | some it =>
    if it.region ≠ none then some (.invalidArgument, s)
    else do
      let s := { s with allocation_map := s.allocation_map.erase ptr }
      let (err, thunkInfo) := s.queryPointerInfo ptr
      let (_, info) ← ptrInfo ndebug s.allocation_map ptr pointerInfoSize err thunkInfo true
      match info with
      | none => return (.invalidArgument, s)
      | some (_, block) => return s.release block.base unmapped

end Importer

/-! ### Runs of the process that imports -/

/-- The process, and the addresses it was given for its imports and has not detached. -/
structure ImportState where
  proc : Importer := {}
  attached : List (ℕ × Import) := []

/-- A call of the process. -/
inductive IpcOp
  | attach (handle : HsaSharedMemoryStruct) (len : ℕ) (base : Option ℕ) (mapped : Bool)
  | detach (ptr : ℕ) (unmapped : Bool)
  | allocate (region : ℕ) (answer : Answer)
  | free (ptr : ℕ)

/-- The process has this memory: an import has the address, or an allocation begins at it. -/
def Importer.Has (s : Importer) (address : ℕ) : Prop :=
  (∃ i ∈ s.imports, i.base ≤ address ∧ address < i.base + i.size ∨ i.base = address) ∨
    ∃ mem, s.allocation_map.find? address = some mem

/-- **The steps of the process that imports.**  What the driver and the regions give it, it does not
have; it detaches what it has attached. -/
inductive IpcStep (PAGE_SHIFT : ℕ) (ndebug : Bool) : ImportState → IpcOp → ImportState → Prop
  | attachFailed {s handle len base mapped status proc}
      (h : s.proc.ipcAttach PAGE_SHIFT handle len base mapped = (status, none, proc))
      (hnew : ∀ b ∈ base, ¬s.proc.Has b) :
    IpcStep PAGE_SHIFT ndebug s (.attach handle len base mapped) { s with proc }
  | attach {s handle len base mapped address proc}
      (h : s.proc.ipcAttach PAGE_SHIFT handle len (some base) mapped =
        (.success, some address, proc))
      (hnull : base ≠ 0) (hlt : base + (Importer.newImport PAGE_SHIFT handle base).size < 2 ^ 64)
      (hnew : ∀ a, a = base ∨ base ≤ a ∧
        a < base + (Importer.newImport PAGE_SHIFT handle base).size → ¬s.proc.Has a) :
    IpcStep PAGE_SHIFT ndebug s (.attach handle len (some base) mapped)
      ⟨proc, (address, Importer.newImport PAGE_SHIFT handle base) :: s.attached⟩
  | detachFailed {s ptr unmapped status proc}
      (h : s.proc.ipcDetach ndebug ptr unmapped = some (status, proc))
      (hstatus : status ≠ .success) (hptr : ptr ∈ s.attached.map Prod.fst) :
    IpcStep PAGE_SHIFT ndebug s (.detach ptr unmapped) { s with proc }
  | detach {s ptr unmapped proc}
      (h : s.proc.ipcDetach ndebug ptr unmapped = some (.success, proc))
      (hptr : ptr ∈ s.attached.map Prod.fst) :
    IpcStep PAGE_SHIFT ndebug s (.detach ptr unmapped)
      ⟨proc, s.attached.filter fun e => e.1 ≠ ptr⟩
  | allocate {s region answer} (hnew : answer.status = .success → ¬s.proc.Has answer.address) :
    IpcStep PAGE_SHIFT ndebug s (.allocate region answer)
      { s with proc := { s.proc with
        allocation_map := (allocateMemory s.proc.allocation_map region answer).2 } }
  | free {s ptr r m} (h : freeMemory ndebug s.proc.allocation_map ptr = some (r, m)) :
    IpcStep PAGE_SHIFT ndebug s (.free ptr)
      { s with proc := { s.proc with allocation_map := m } }

end Codrive.Runtime
