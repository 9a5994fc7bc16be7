/-
# Allocating and freeing page tables

`amdgpu_vm_alloc_pts`, `opu_vm_get_entry_mo_index`, `amdgpu_vm_update_pde` and `amdgpu_vm_free_pts`
of `src/src/cmdio/linux/opu_vm_mgr.c`.

A small table shares a page of memory with its siblings: the first entry of the group keeps the page
in `shared_mo`, and each table of the group has it as its `mo`, at its own offset.

| here | source |
|---|---|
| `entry` | `struct opu_vm_pt`, by the path to it; `{}` where no array has it |
| `entries` | `entry->entries` is an array |
| a number as an object | an `opu_mo`, in the order they were created |
| `pde` | what the tables in an object say: at this byte offset, an object and an offset in it |
| `Env` | which steps succeed: `kvmalloc_array`, `opu_memobj_create_internal`, `opu_vm_clear_mo` and the `update` of the parent |
| `none` as a state | the kernel faults: it follows a null pointer, uses a freed object, or reads `pt_mo` uninitialised |

The functions of `update_funcs` are not in the repository; one that fails writes nothing.  Neither
is `amdgpu_vm_free_table`: it is the parameter `free`.  The file does not compile as it is:
`use_64_page` is the field `use_64k_page`, and `entry->bo`, which no line sets, is no field.
`num_entries` is written only.
-/

import Codrive.Basis.Dfs
import Codrive.Vm.UpdatePtes
import Mathlib.Logic.Function.Basic

namespace Codrive.Vm.PageTables

open Codrive.Basis

/-- `opu_vm_pt`. -/
structure Entry where
  mo : Option ℕ := none
  is_shared_mo : Bool := false
  mo_offset : ℕ := 0
  shared_mo : Option ℕ := none
  entries : Bool := false
  deriving DecidableEq

/-- The page tables, and the objects. -/
structure State where
  entry : List ℕ → Entry := fun _ => {}
  /-- How many objects were created. -/
  created : ℕ := 0
  /-- How often an object was freed. -/
  freed : ℕ → ℕ := fun _ => 0
  pde : ℕ → ℕ → Option (ℕ × ℕ) := fun _ _ => none

/-- What the driver is set up with. -/
structure Config where
  mgr : VmMgr
  /-- `opu_setting_vm_use_offset`. -/
  use_offset : Bool

/-- Which steps succeed. -/
structure Env where
  array : Bool := true
  create : Bool := true
  clear : Bool := true
  update : Bool := true

/-- The step that failed. -/
inductive Errno
  | array
  | create
  | clear
  | update
  deriving DecidableEq

namespace State

/-- Which entries have a table of entries below them. -/
def tables (s : State) : Tables := fun p => (s.entry p).entries

variable (cfg : Config) (s : State)

/-- The level of an entry. -/
def levelOf (path : List ℕ) : ℕ := cfg.mgr.root_level + path.length

/-- The entry is in an array of the tree. -/
def Exists (path : List ℕ) : Prop :=
  Dfs.Inside (fun p => opuVmNumEntries cfg.mgr (levelOf cfg p)) s.tables path

/-! ### Shared pages -/

/-- Tables of this level share pages. -/
def sharedLevel (level : ℕ) : Bool :=
  cfg.use_offset && cfg.mgr.use_64k_page && cfg.mgr.frame_size level < 9 &&
    4 ≤ cfg.mgr.frame_size level && (level = OPU_VM_SPE || level = OPU_VM_PTE)

/-- `opu_vm_get_entry_mo_index`: the entry that keeps the page, and the offset in it.  The root has
no parent. -/
def opuVmGetEntryMoIndex (path : List ℕ) : Option (Option (List ℕ × ℕ)) :=
  let level := levelOf cfg path
  if !sharedLevel cfg level then some none
  else
    match path with
    | [] => none
    | cur_entry_index :: parent =>
      let shared_entry_bit := 9 - cfg.mgr.frame_size level
      let mo_entry_index := alignDown cur_entry_index (1 <<< shared_entry_bit)
      some (some (mo_entry_index :: parent,
        (cur_entry_index - mo_entry_index) * 1 <<< cfg.mgr.frame_size level * 8))

/-! ### Allocating -/

/-- The entry has become this one. -/
def setEntry (path : List ℕ) (e : Entry) : State :=
  { s with entry := Function.update s.entry path e }

/-- `entry->entries` is a new array, of zeros. -/
def newEntries (path : List ℕ) : State :=
  { s with
    entry := fun q =>
      if q = path then { s.entry path with entries := true }
      else if q.tail = path ∧ q ≠ [] then {} else s.entry q }

/-- `kvfree(entry->entries)`, which has what is in the array no more. -/
def freeEntries (path : List ℕ) : State :=
  { s with
    entry := fun q =>
      if q = path then { s.entry path with entries := false }
      else if q.tail = path ∧ q ≠ [] ∧ (s.entry path).entries then {} else s.entry q }

/-- `opu_memobj_free_internal`. -/
def freeMo (o : ℕ) : State := { s with freed := Function.update s.freed o (s.freed o + 1) }

/-- `amdgpu_vm_update_pde`, where the entry has this object.  Says whether it succeeded. -/
def amdgpuVmUpdatePde (path : List ℕ) (mo : ℕ) (ok : Bool) : Option (Bool × State) :=
  match path with
  | [] => some (true, s)
  | i :: parent =>
    match (s.entry parent).mo with
    | none => none
    | some pmo =>
      if s.freed mo ≠ 0 ∨ s.freed pmo ≠ 0 then none
      else if ok then
        let pde := i * 8 + (s.entry parent).mo_offset
        some (true, { s with
          pde := Function.update s.pde pmo
            (Function.update (s.pde pmo) pde (some (mo, (s.entry path).mo_offset))) })
      else some (false, s)

/-- A new object, with nothing in it. -/
def newMo : State :=
  { s with
    created := s.created + 1
    pde := Function.update s.pde s.created fun _ => none }

/-- The entry has the object, which this call created, or one that its siblings have.  The PDE of
the parent is updated; where that fails, everything is undone from `free_mo` on. -/
def updateParent (path : List ℕ) (mo : ℕ) (pt_mo : Option ℕ) (env : Env) :
    Option (Option Errno × State) :=
  match s.amdgpuVmUpdatePde path mo env.update with
  | none => none
  | some (true, t) => some (none, t)
  | some (false, t) =>
    let t := t.setEntry path { t.entry path with mo := none, mo_offset := 0 }
    match pt_mo with
    | none => none
    | some o => some (some .update, (t.freeMo o).freeEntries path)

/-- `amdgpu_vm_alloc_pts` from where the entry has no object. -/
def allocMo (path : List ℕ) (env : Env) : Option (Option Errno × State) :=
  match opuVmGetEntryMoIndex cfg path with
  | none => none
  | some none =>
    if !env.create then some (some .create, s.freeEntries path)
    else
      let pt_mo := s.created
      let t := s.newMo
      if !env.clear then some (some .clear, (t.freeMo pt_mo).freeEntries path)
      else
        let e := { t.entry path with mo := some pt_mo, mo_offset := 0, is_shared_mo := false }
        (t.setEntry path e).updateParent path pt_mo (some pt_mo) env
  | some (some (owner, shared_mo_byte_offset)) =>
    match (s.entry owner).shared_mo with
    | none =>
      if !env.create then some (some .create, s.freeEntries path)
      else
        let pt_mo := s.created
        let t := s.newMo
        if !env.clear then some (some .clear, (t.freeMo pt_mo).freeEntries path)
        else
          let t := t.setEntry owner { t.entry owner with shared_mo := some pt_mo }
          let e := { t.entry path with
            mo := some pt_mo, mo_offset := shared_mo_byte_offset, is_shared_mo := true }
          (t.setEntry path e).updateParent path pt_mo (some pt_mo) env
    | some mo =>
      -- `pt_mo` is not set.
      let e := { s.entry path with
        mo := some mo, mo_offset := shared_mo_byte_offset, is_shared_mo := true }
      (s.setEntry path e).updateParent path mo none env

/-- The level has tables of entries. -/
def hasEntries (path : List ℕ) (need_spe : Bool) : Bool :=
  levelOf cfg path < OPU_VM_PTE || (levelOf cfg path = OPU_VM_PTE && need_spe)

/-- `amdgpu_vm_alloc_pts`. -/
def amdgpuVmAllocPts (path : List ℕ) (need_spe : Bool) (env : Env) :
    Option (Option Errno × State) :=
  if hasEntries cfg path need_spe && !(s.entry path).entries && !env.array then
    some (some .array, s)
  else
    let t := if hasEntries cfg path need_spe && !(s.entry path).entries then
      s.newEntries path else s
    if (t.entry path).mo.isSome then some (none, t) else t.allocMo cfg path env

/-! ### Freeing -/

/-- The loop `while (opu_vm_pt_descendant(..))`.  No entry of level `OPU_VM_SPE` has entries. -/
def descendAll (m : VmMgr) (t : Tables) : ℕ → Cursor → Cursor
  | 0, c => c
  | n + 1, c =>
    match opuVmPtDescendant m t c with
    | some c => descendAll m t n c
    | none => c

/-- `amdgpu_vm_pt_first_dfs`, with no start. -/
def amdgpuVmPtFirstDfs (m : VmMgr) (t : Tables) : Cursor :=
  descendAll m t (OPU_VM_SPE - m.root_level) (opuVmPtStart m 0)

/-- `amdgpu_vm_pt_next_dfs`; no cursor where the entry becomes null. -/
def amdgpuVmPtNextDfs (m : VmMgr) (t : Tables) (c : Cursor) : Option Cursor :=
  match c.path with
  | [] => none
  | _ :: parent =>
    match amdgpuVmPtSibling m c with
    | some c => some (descendAll m t (OPU_VM_SPE - c.level) c)
    | none => some ⟨c.pfn, parent, c.level - 1⟩

/-- `amdgpu_vm_free_table` of an entry that is there. -/
def freeTableAt (free : State → List ℕ → State) (s : State) (path : List ℕ) : Option State :=
  if path = [] ∨ s.tables path.tail then some (free s path) else none

/-- `for_each_amdgpu_vm_pt_dfs_safe`, for so many entries: the cursor moves on before the entry is
freed. -/
def freeLoop (m : VmMgr) (free : State → List ℕ → State) : ℕ → Cursor → State → Option State
  | 0, _, _ => none
  | n + 1, c, s =>
    match freeTableAt free s c.path with
    | none => none
    | some t =>
      match amdgpuVmPtNextDfs m s.tables c with
      | none => some t
      | some c => freeLoop m free n c t

/-- `amdgpu_vm_free_pts` of the whole tree. -/
def amdgpuVmFreePts (m : VmMgr) (free : State → List ℕ → State) (n : ℕ) (s : State) :
    Option State :=
  freeLoop m free n (amdgpuVmPtFirstDfs m s.tables) s

/-! ### The calls -/

/-- An allocation of the table of an entry. -/
structure Call where
  path : List ℕ
  need_spe : Bool := false
  env : Env := {}

/-- The step of a call: a cursor is at an entry of the tree. -/
def Step (cfg : Config) (s : State) (c : Call) (t : State) : Prop :=
  s.Exists cfg c.path ∧ ∃ err, s.amdgpuVmAllocPts cfg c.path c.need_spe c.env = some (err, t)

end State

end Codrive.Vm.PageTables
