/-
# The depth first walk over the page tables

`amdgpu_vm_pt_first_dfs`, `amdgpu_vm_pt_continue_dfs`, `amdgpu_vm_pt_next_dfs`,
`for_each_amdgpu_vm_pt_dfs_safe` and `amdgpu_vm_free_pts` of `src/src/cmdio/linux/opu_vm_mgr.c`,
lines 303-368 and 689-710.

An entry can be read as long as the array that it is in has not been released; a read of any other
ends the walk without a result (`none`).  The body of the loop is a parameter: it works on a state
that says which entries have a table (`tables`), and logs which entry it was called for.
`amdgpu_vm_free_table` has no body in the repository; it is the body `free` of `amdgpuVmFreePts`.
-/

import Codrive.Basis.DfsChain
import Codrive.Vm.Geometry

namespace Codrive.Vm.DfsWalk

open Codrive.Basis

variable (g : Geometry)

/-- The array that the entry is in is there. -/
def alive (t : Tables) : List ℕ → Bool
  | [] => true
  | _ :: parent => t parent

/-- `while (amdgpu_vm_pt_descendant(..));`, for less than so many turns. -/
def descendants (t : Tables) : ℕ → Cursor → Option Cursor
  | 0, _ => none
  | turns + 1, c =>
    if alive t c.path then
      match g.opuVmPtDescendant t c with
      | some c => descendants t turns c
      | none => some c
    else none

/-- `amdgpu_vm_pt_first_dfs`. -/
def amdgpuVmPtFirstDfs (t : Tables) (turns : ℕ) (start : Option Cursor) : Option Cursor :=
  descendants g t turns (start.getD (g.opuVmPtStart 0))

/-- `amdgpu_vm_pt_next_dfs`; `some none` where the entry becomes null. -/
def amdgpuVmPtNextDfs (t : Tables) (turns : ℕ) (c : Cursor) : Option (Option Cursor) :=
  match c.path with
  | [] => some none
  | _ :: parent =>
    if alive t parent then
      match g.amdgpuVmPtSibling c with
      | some c => (descendants g t turns c).map some
      | none => some (Geometry.amdgpuVmPtAncestor c)
    else none

section

variable {σ : Type} (tables : σ → Tables) (body : σ → List ℕ → σ)

/-- The loop of `for_each_amdgpu_vm_pt_dfs_safe`, for less than so many turns: the entries that the
body was called for, and the state.  The cursor moves on before the body is called. -/
def forEach (start : Option Cursor) (turns : ℕ) : ℕ → Cursor → σ → Option (List (List ℕ) × σ)
  | 0, _, _ => none
  | n + 1, c, s =>
    match amdgpuVmPtNextDfs g (tables s) turns c with
    | none => none
    | some cursor =>
      -- `amdgpu_vm_pt_continue_dfs`
      if start.map Cursor.path = some c.path then some ([], s)
      else if alive (tables s) c.path then
        match cursor with
        | none => some ([c.path], body s c.path)
        | some cursor =>
          (forEach start turns n cursor (body s c.path)).map fun r => (c.path :: r.1, r.2)
      else none

/-- `for_each_amdgpu_vm_pt_dfs_safe`. -/
def forEachDfsSafe (start : Option Cursor) (turns : ℕ) (s : σ) : Option (List (List ℕ) × σ) :=
  match amdgpuVmPtFirstDfs g (tables s) turns start with
  | none => none
  | some c => forEach g tables body start turns turns c s

/-- `amdgpu_vm_free_pts`: the entries whose tables were freed, in order. -/
def amdgpuVmFreePts (free : σ → List ℕ → σ) (start : Option Cursor) (turns : ℕ) (s : σ) :
    Option (List (List ℕ) × σ) :=
  match forEachDfsSafe g tables free start turns s with
  | none => none
  | some (freed, s) =>
    match start with
    | none => some (freed, s)
    | some start =>
      if alive (tables s) start.path then some (freed ++ [start.path], free s start.path) else none

/-- A body that may release the table of its entry, and leaves the others. -/
structure Body : Prop where
  other : ∀ s p q, q ≠ p → tables (body s p) q = tables s q
  own : ∀ s p, tables (body s p) p = true → tables s p = true

/-- The tables are a tree of the geometry: each has entries, and none is below the last level. -/
structure Tree (t : Tables) : Prop where
  level : ∀ p, t p = true → g.root_level + p.length ≤ OPU_VM_PTE
  width : ∀ p, t p = true → 0 < g.width p

/-- The entry is below the start, or anywhere if there is none. -/
def Below (start : Option (List ℕ)) (q : List ℕ) : Prop := ∀ p ∈ start, p <:+ q ∧ p ≠ q

/-- **What the walk and `amdgpu_vm_free_pts` are for.** -/
structure Visits (t : Tables) (start : Option (List ℕ)) (visited freed : List (List ℕ)) :
    Prop where
  once : visited.Nodup
  mem : ∀ q, q ∈ visited ↔ Dfs.Inside g.width t q ∧ Below start q
  /-- No entry comes before one below it. -/
  order : visited.Pairwise fun a b => ¬a <:+ b
  freedOnce : freed.Nodup
  freedMem : ∀ q, q ∈ freed ↔ Dfs.Inside g.width t q ∧ ∀ p ∈ start, p <:+ q

/-- The walk ends, reads no released entry, and visits what it should. -/
def Right (start : Option Cursor) (s : σ) : Prop :=
  ∃ turns visited freed s' s'', forEachDfsSafe g tables body start turns s = some (visited, s') ∧
    amdgpuVmFreePts g tables body start turns s = some (freed, s'') ∧
    Visits g (tables s) (start.map Cursor.path) visited freed

end

/-- The way down from the start is through first entries. -/
def Straight (t : Tables) (d k : ℕ) : Prop :=
  ∀ n, Dfs.Inside g.width t (List.replicate n 0 ++ g.radix.path d k) →
    t (List.replicate n 0 ++ g.radix.path d k) = true → g.radix.digit (d + n) k = 0

end Codrive.Vm.DfsWalk
