/-
# Loading a code object

`ExecutableImpl::LoadCodeObject` and what it calls, of `src/src/drive/loader/Executable.cpp`.

| here | source |
|---|---|
| `CodeObject` | what `code::CodeObject` has read from the file: `PT_LOAD` segments, symbols of the kinds it keeps, `SHT_RELA` sections with their tables |
| a number | an agent, or the place of a `Segment` in `segments` |
| `Result` | what a call returns; nothing where it ends the process |
| `ndebug` | whether the build compiles assertions out |
| `alloc : Option ℕ` | the address of the memory `SegmentAlloc` answers with, or null |

A `CodeObject` always is of version 3.  The memory of a segment is an image of `size` bytes that
starts with zeros; a write outside of it ends the process.  A segment is frozen only with its
executable, which loads nothing after that.  The fields of a symbol that are copied into the table
and not read are kept with the symbol.
-/

import Codrive.Basis.Bytes
import Codrive.Basis.Machine
import Mathlib.Data.List.ModifyLast

namespace Codrive.Loader

open Codrive.Basis

/-- The values of `status_t` here. -/
inductive Status where
  | success
  | error
  | frozenExecutable
  | invalidCodeObject
  | outOfResources
  | variableAlreadyDefined
  | variableUndefined
  deriving DecidableEq, Repr

/-! ### The code object -/

/-- `SHF_ALLOC`. -/
abbrev SHF_ALLOC : ℕ := 0x2

/-- A section of the file. -/
structure Section where
  type : ℕ
  flags : ℕ
  addr : ℕ
  size : ℕ
  deriving DecidableEq, Repr

/-- A `PT_LOAD` segment of the file; `data` has its file size. -/
structure DataSegment where
  vaddr : ℕ
  memsz : ℕ
  offset : ℕ
  data : List UInt8
  deriving DecidableEq, Repr

/-- The kinds of symbols that are kept. -/
inductive Kind where
  | kernel | variable
  deriving DecidableEq, Repr

/-- `SymbolV3`; `common` is whether its type is `STT_COMMON`. -/
structure SymbolV3 where
  name : String
  kind : Kind
  common : Bool
  sec : Option Section
  value : ℕ
  size : ℕ
  deriving DecidableEq, Repr

/-- `SymbolV3::IsDeclaration`. -/
def SymbolV3.isDeclaration (sym : SymbolV3) : Bool := sym.common

/-- `SectionOffset` of a kernel or variable symbol. -/
def SymbolV3.sectionOffset (sym : SymbolV3) (sec : Section) : ℕ := sub64 sym.value sec.addr

/-- `VAddr` of a kernel or variable symbol. -/
def SymbolV3.vaddr (sym : SymbolV3) : ℕ := sym.value

/-- `RelocationV3`, as it is read. -/
structure RelocationV3 where
  offset : ℕ
  symbol : ℕ
  type : ℕ
  addend : ℕ
  deriving DecidableEq, Repr

/-- A relocation section, its target section and the values of the symbols it is linked with. -/
structure RelocationSection where
  target : Option Section
  symbols : List ℕ
  entries : List RelocationV3
  deriving DecidableEq, Repr

/-- `code::CodeObject`. -/
structure CodeObject where
  dataSegments : List DataSegment
  symbols : List SymbolV3
  relocationSections : List RelocationSection
  deriving DecidableEq, Repr

/-! ### The executable -/

/-- `Segment`, with its memory. -/
structure Segment where
  ptr : ℕ
  size : ℕ
  vaddr : ℕ
  storage_offset : ℕ
  image : Image

/-- `LoadedCodeObjectImpl`. -/
structure LoadedCodeObject where
  agent : Option ℕ
  loaded_segments : List ℕ
  deriving DecidableEq, Repr

/-- `SymbolImpl`: a symbol of the code object, and what the loader makes of it. -/
structure SymbolImpl where
  sym : SymbolV3
  size : ℕ
  address : ℕ
  owning_segment : Option ℕ
  agent : Option ℕ
  deriving DecidableEq, Repr

/-- An object that the executable owns. -/
inductive ExecutableObject where
  | loadedCodeObject (i : ℕ)
  | segment (i : ℕ)
  deriving DecidableEq, Repr

/-- `ExecutableImpl`, and the device segments that were allocated for it. -/
structure Executable where
  frozen : Bool := false
  program_symbols : List (String × SymbolImpl) := []
  agent_symbols : List ((String × Option ℕ) × SymbolImpl) := []
  objects : List ExecutableObject := []
  loaded_code_objects : List LoadedCodeObject := []
  segments : List Segment := []

/-- What a call returns, and the executable after it. -/
abbrev Result := Option (Status × Executable)

/-! ### Segments -/

/-- `Segment::IsAddressInSegment`. -/
def Segment.isAddressInSegment (seg : Segment) (addr : ℕ) : Bool :=
  decide (seg.vaddr ≤ addr ∧ addr < u64 (seg.vaddr + seg.size))

/-- `Segment::Offset`. -/
def Segment.offset (ndebug : Bool) (seg : Segment) (addr : ℕ) : Option ℕ :=
  (assert ndebug (seg.isAddressInSegment addr)).map fun _ => sub64 addr seg.vaddr

/-- `Segment::Address`. -/
def Segment.address (ndebug : Bool) (seg : Segment) (addr : ℕ) : Option ℕ :=
  (seg.offset ndebug addr).map fun o => u64 (seg.ptr + o)

/-- `Segment::Copy`. -/
def Segment.copy (ndebug : Bool) (seg : Segment) (addr : ℕ) (src : List UInt8) : Option Segment :=
  if src = [] then some seg
  else
    match seg.offset ndebug addr with
    | none => none
    | some o =>
      if o + src.length ≤ seg.size then some { seg with image := seg.image.write o src } else none

/-- The segments of the code object that is being loaded. -/
def Executable.backSegments (s : Executable) : List ℕ :=
  match s.loaded_code_objects.getLast? with
  | none => []
  | some lco => lco.loaded_segments

/-- `VirtualAddressSegment`. -/
def Executable.virtualAddressSegment (s : Executable) (vaddr : ℕ) : Option ℕ :=
  s.backSegments.find? fun i => s.segments[i]?.any (·.isAddressInSegment vaddr)

/-- `SectionSegment`. -/
def Executable.sectionSegment (s : Executable) (sec : Section) : Option ℕ :=
  s.backSegments.find? fun i => s.segments[i]?.any (·.isAddressInSegment sec.addr)

/-- The loop of `LoadSegments` over `LoadSegmentV3`. -/
def loadSegmentsV3 (ndebug : Bool) : List DataSegment → Segment → Option Segment
  | [], load_segment => some load_segment
  | d :: ds, load_segment =>
    match load_segment.copy ndebug d.vaddr d.data with
    | none => none
    | some load_segment => loadSegmentsV3 ndebug ds load_segment

/-- The segment that is made for the segments of the file. -/
def newSegment (ptr : ℕ) (first last : DataSegment) : Segment where
  ptr := ptr
  size := u64 (last.vaddr + last.memsz)
  vaddr := first.vaddr
  storage_offset := first.offset
  image := fun _ => 0

/-- `LoadSegments`. -/
def loadSegments (ndebug : Bool) (alloc : Option ℕ) (c : CodeObject) (s : Executable) : Result :=
  match c.dataSegments.head?, c.dataSegments.getLast? with
  | some first, some last =>
    match alloc with
    | none => some (.outOfResources, s)
    | some ptr =>
      match loadSegmentsV3 ndebug c.dataSegments (newSegment ptr first last) with
      | none => none
      | some load_segment =>
        some (.success, { s with
          segments := s.segments ++ [load_segment]
          objects := s.objects ++ [.segment s.segments.length]
          loaded_code_objects := s.loaded_code_objects.modifyLast fun lco =>
            { lco with loaded_segments := lco.loaded_segments ++ [s.segments.length] } })
  | _, _ => some (.invalidCodeObject, s)

/-! ### Symbols -/

/-- `SymbolAddress`: 0 where no segment has the section. -/
def symbolAddress (ndebug : Bool) (s : Executable) (sym : SymbolV3) (sec : Section) : Option ℕ :=
  match (s.sectionSegment sec).bind (s.segments[·]?) with
  | none => some 0
  | some seg => seg.address ndebug sym.vaddr

/-- `size` of the table's kernel symbol. -/
def kernelSize (sym : SymbolV3) (sec : Section) : ℕ :=
  if sym.size = 0 ∧ sym.sectionOffset sec < sec.size then sec.size - sym.sectionOffset sec
  else sym.size

/-- The symbol that `LoadDefinitionSymbol` makes. -/
def makeSymbol (ndebug : Bool) (agent : Option ℕ) (s : Executable) (sym : SymbolV3) (sec : Section)
    (address : ℕ) : Option SymbolImpl :=
  match sym.kind with
  | .variable => some ⟨sym, sym.size, address, none, agent⟩
  | .kernel =>
    ((s.sectionSegment sec).bind (s.segments[·]?)).bind fun seg =>
      (seg.address ndebug sec.addr).map fun owning_segment =>
        ⟨sym, kernelSize sym sec, address, some owning_segment, agent⟩

/-- `program_symbols_` has the name. -/
def Executable.programDefined (s : Executable) (name : String) : Bool :=
  s.program_symbols.any (·.1 = name)

/-- `agent_symbols_` has the name with the agent. -/
def Executable.agentDefined (s : Executable) (name : String) (agent : Option ℕ) : Bool :=
  s.agent_symbols.any (·.1 = (name, agent))

/-- The table that a definition goes to has its name: that of the agents when there is one. -/
def Executable.defined (s : Executable) (agent : Option ℕ) (name : String) : Bool :=
  if agent.isSome then s.agentDefined name agent else s.programDefined name

/-- `insert` into the table that a definition goes to. -/
def Executable.define (s : Executable) (agent : Option ℕ) (name : String) (symbol : SymbolImpl) :
    Executable :=
  if agent.isSome then { s with agent_symbols := s.agent_symbols ++ [((name, agent), symbol)] }
  else { s with program_symbols := s.program_symbols ++ [(name, symbol)] }

/-- `LoadDefinitionSymbol`. -/
def loadDefinitionSymbol (ndebug : Bool) (agent : Option ℕ) (sym : SymbolV3) (s : Executable) :
    Result :=
  if s.defined agent sym.name then some (.variableAlreadyDefined, s)
  else
    match sym.sec with
    | none => none
    | some sec =>
      match symbolAddress ndebug s sym sec with
      | none => none
      | some 0 => some (.invalidCodeObject, s)
      | some (address + 1) =>
        match makeSymbol ndebug agent s sym sec (address + 1) with
        | none => none
        | some symbol => some (.success, s.define agent sym.name symbol)

/-- `LoadDeclarationSymbol`. -/
def loadDeclarationSymbol (agent : Option ℕ) (sym : SymbolV3) (s : Executable) : Result :=
  if s.programDefined sym.name || s.agentDefined sym.name agent then some (.success, s)
  else some (.variableUndefined, s)

/-- `LoadSymbol`. -/
def loadSymbol (ndebug : Bool) (agent : Option ℕ) (sym : SymbolV3) (s : Executable) : Result :=
  if sym.isDeclaration then loadDeclarationSymbol agent sym s
  else loadDefinitionSymbol ndebug agent sym s

/-- The loop of `LoadCodeObject` over `LoadSymbol`. -/
def loadSymbols (ndebug : Bool) (agent : Option ℕ) : List SymbolV3 → Executable → Result
  | [], s => some (.success, s)
  | sym :: syms, s =>
    match loadSymbol ndebug agent sym s with
    | none => none
    | some (.success, s) => loadSymbols ndebug agent syms s
    | some (status, s) => some (status, s)

/-! ### Relocations -/

/-- `rel.calcValue`, where the symbol has the value `S`. -/
def calcValue (S : ℕ) (rel : RelocationV3) : ℕ :=
  match rel.type with
  | 1 => u64 (S + rel.addend)
  | 2 => sub64 (u64 (S + rel.addend)) rel.offset
  | 6 => S
  | 7 => S
  | 8 => rel.addend
  | _ => 0

/-- `rel.symbolValue` after `get_symbol`, which leaves it 0 where there is no such symbol. -/
def symbolValue (sec : RelocationSection) (rel : RelocationV3) : ℕ :=
  sec.symbols.getD rel.symbol 0

/-- `ApplyStaticRelocationV3` computes the value, and writes nothing. -/
def applyStaticRelocationV3 (sec : RelocationSection) (rel : RelocationV3) : Status × ℕ :=
  (.success, calcValue (symbolValue sec rel) rel)

/-- `ApplyStaticRelocationSectionV3`. -/
def applyStaticRelocationSectionV3 (sec : RelocationSection) (s : Executable) : Result :=
  match sec.entries.find? fun rel => (applyStaticRelocationV3 sec rel).1 ≠ .success with
  | none => some (.success, s)
  | some rel => some ((applyStaticRelocationV3 sec rel).1, s)

/-- `ApplyDynamicRelocationV3`: eight bytes are written for every type. -/
def applyDynamicRelocationV3 (ndebug : Bool) (sec : RelocationSection) (rel : RelocationV3)
    (s : Executable) : Result :=
  let S := symbolValue sec rel
  match s.virtualAddressSegment rel.offset, s.virtualAddressSegment S with
  | some i, some j =>
    match s.segments[i]?, s.segments[j]? with
    | some relSeg, some symSeg =>
      match symSeg.address ndebug (calcValue S rel) with
      | none => none
      | some symAddr =>
        match relSeg.copy ndebug rel.offset (leBytes 8 symAddr) with
        | none => none
        | some relSeg => some (.success, { s with segments := s.segments.set i relSeg })
    | _, _ => none
  | _, _ => none

/-- `ApplyDynamicRelocationSectionV3`. -/
def applyDynamicRelocationsV3 (ndebug : Bool) (sec : RelocationSection) :
    List RelocationV3 → Executable → Result
  | [], s => some (.success, s)
  | rel :: rels, s =>
    match applyDynamicRelocationV3 ndebug sec rel s with
    | none => none
    | some (.success, s) => applyDynamicRelocationsV3 ndebug sec rels s
    | some (status, s) => some (status, s)

/-- The way a section is sent: the test is on the type of the target section, not on its flags. -/
def Section.isStatic (target : Section) : Bool := target.type &&& SHF_ALLOC ≠ 0

/-- `ApplyRelocationsV3`. -/
def applyRelocationsV3 (ndebug : Bool) : List RelocationSection → Executable → Result
  | [], s => some (.success, s)
  | sec :: secs, s =>
    match sec.target with
    | none => none
    | some target =>
      match if target.isStatic then applyStaticRelocationSectionV3 sec s
        else applyDynamicRelocationsV3 ndebug sec sec.entries s with
      | none => none
      | some (.success, s) => applyRelocationsV3 ndebug secs s
      | some (status, s) => some (status, s)

/-! ### `LoadCodeObject` -/

/-- The code object is registered. -/
def Executable.register (s : Executable) (agent : Option ℕ) : Executable :=
  { s with
    objects := s.objects ++ [.loadedCodeObject s.loaded_code_objects.length]
    loaded_code_objects := s.loaded_code_objects ++ [⟨agent, []⟩] }

/-- `LoadCodeObject` after the code object is registered. -/
def loadRegistered (ndebug : Bool) (agent alloc : Option ℕ) (c : CodeObject) (s : Executable) :
    Result :=
  match loadSegments ndebug alloc c s with
  | none => none
  | some (.success, s) =>
    match loadSymbols ndebug agent c.symbols s with
    | none => none
    | some (.success, s) => applyRelocationsV3 ndebug c.relocationSections s
    | some (status, s) => some (status, s)
  | some (status, s) => some (status, s)

/-- `LoadCodeObject`.  `options` is whether the options are parsed, `code` what `InitAsHandle` reads
from the handle. -/
def loadCodeObject (ndebug : Bool) (agent alloc : Option ℕ) (options : Bool)
    (code : Option CodeObject) (s : Executable) : Result :=
  if s.frozen then some (.frozenExecutable, s)
  else if !options then some (.error, s)
  else
    match code with
    | none => some (.invalidCodeObject, s)
    | some c => loadRegistered ndebug agent alloc c (s.register agent)

end Codrive.Loader
