/-
# The segments of a mapping

`opu_vm_bo_split_mapping` (`src/src/cmdio/linux/opu_vm_mgr.c`): a mapping of a buffer is handed to
the page-table update in segments, each within one node of the buffer.

| here | source |
|---|---|
| `MmNode` | `struct drm_mm_node`, with at least a page |
| `Mo` | `struct opu_mo`; what is no device memory has one node (`opu_pte_memobj_set_caching`) |
| `Segment` | the arguments of a call of `opu_vm_bo_update_mapping` |
| `Target` | an address, or an offset into `pages_addr` |
| `update` | what the call returns |

`mapping->end` is the field `last` that `amdgpu_vm_bo_map` writes.  A call that reads a node behind
the last one has no result.
-/

import Codrive.Basis.Tiling
import Codrive.Vm.BoMapRuns

namespace Codrive.Vm

open Codrive.Basis

/-- `PAGE_SHIFT`. -/
abbrev PAGE_SHIFT : ℕ := 12

/-- `S64_MAX`. -/
abbrev S64_MAX : ℕ := 2 ^ 63 - 1

/-- A node of device memory. -/
structure MmNode where
  start : ℕ
  size : ℕ
  start_lt : start < 2 ^ 64
  size_lt : size < 2 ^ 64
  pos : 0 < size >>> PAGE_SHIFT

/-- The pages of a node. -/
def MmNode.pages (n : MmNode) : ℕ := n.size >>> PAGE_SHIFT

/-- The memory of a buffer. -/
structure Mo where
  is_dev_mem : Bool
  mm_node_array : List MmNode
  single : is_dev_mem = false → mm_node_array.length = 1

/-- The pages of a buffer. -/
def Mo.pages (mo : Mo) : ℕ := (mo.mm_node_array.map MmNode.pages).sum

/-- What is handed to the page-table update. -/
structure Segment where
  start : ℕ
  last : ℕ
  addr : ℕ
  dma_addr : Bool
  deriving DecidableEq, Repr

/-- The `while` loop: the node that an offset is in, and the offset there. -/
def skipNodes : List MmNode → ℕ → Option (List MmNode × ℕ)
  | [], _ => none
  | node :: nodes, pfn =>
    if node.pages ≤ pfn then skipNodes nodes (pfn - node.pages) else some (node :: nodes, pfn)

/-- The segment of an iteration. -/
def segment (vram_base_offset : ℕ) (is_dev_mem : Bool) (mapping : Mapping)
    (nodes : Option (List MmNode)) (pfn start : ℕ) : Option Segment :=
  match nodes with
  | none => some ⟨start, min mapping.last (sub64 (u64 (start + S64_MAX)) 1), 0, false⟩
  | some [] => none
  | some (node :: _) =>
    let max_entries := sub64 node.pages pfn
    let addr :=
      if is_dev_mem then u64 (u64 (node.start + vram_base_offset) + u64 (pfn <<< PAGE_SHIFT))
      else u64 (pfn <<< PAGE_SHIFT)
    some ⟨start, min mapping.last (sub64 (u64 (start + max_entries)) 1), addr, !is_dev_mem⟩

/-- The node and the offset of the next iteration. -/
def advance (nodes : Option (List MmNode)) (pfn : ℕ) : Option (List MmNode) × ℕ :=
  match nodes with
  | some (node :: rest) => if node.pages = pfn then (some rest, 0) else (nodes, pfn)
  | _ => (nodes, pfn)

/-- The `do` loop, with the segments it hands over. -/
def mapLoop (update : Segment → Option Errno) (vram_base_offset : ℕ) (is_dev_mem : Bool)
    (mapping : Mapping) :
    ℕ → Option (List MmNode) → ℕ → ℕ → Option (Option Errno × List Segment)
  | 0, _, _, _ => none
  | n + 1, nodes, pfn, start =>
    match segment vram_base_offset is_dev_mem mapping nodes pfn start with
    | none => none
    | some seg =>
      match update seg with
      | some r => some (some r, [seg])
      | none =>
        let (nodes, pfn) := advance nodes (u64 (pfn + u64 (sub64 seg.last start + 1)))
        let start := u64 (seg.last + 1)
        if start = u64 (mapping.last + 1) then some (none, [seg])
        else
          (mapLoop update vram_base_offset is_dev_mem mapping n nodes pfn start).map fun r =>
            (r.1, seg :: r.2)

/-- `opu_vm_bo_split_mapping`.  Every iteration but the last leaves a node, so there are no more of
them than nodes. -/
def opuVmBoSplitMapping (update : Segment → Option Errno) (vram_base_offset : ℕ) (mo : Option Mo)
    (mapping : Mapping) : Option (Option Errno × List Segment) :=
  let start := u64 (mapping.start + mapping.offset >>> PAGE_SHIFT)
  let pfn := mapping.offset >>> PAGE_SHIFT
  match mo with
  | none => mapLoop update vram_base_offset false mapping 1 none pfn start
  | some mo =>
    match skipNodes mo.mm_node_array pfn with
    | none => none
    | some (nodes, pfn) =>
      mapLoop update vram_base_offset mo.is_dev_mem mapping (mo.mm_node_array.length + 1) nodes pfn
        start

/-! ### What it is for -/

/-- Where a page is: at an address, or at an offset into `pages_addr`. -/
structure Target where
  dma_addr : Bool
  addr : ℕ
  deriving DecidableEq, Repr

/-- Where the page-table update maps a page of a segment. -/
def Segment.target (seg : Segment) (v : ℕ) : Target :=
  ⟨seg.dma_addr, u64 (seg.addr + (v - seg.start) * 4096)⟩

/-- Where a page of device memory is. -/
def pageAddr (vram_base_offset : ℕ) : List MmNode → ℕ → Option ℕ
  | [], _ => none
  | node :: nodes, page =>
    if page < node.pages then some (u64 (node.start + vram_base_offset + page * 4096))
    else pageAddr vram_base_offset nodes (page - node.pages)

/-- Where a page of some nodes is. -/
def pageTarget (vram_base_offset : ℕ) (is_dev_mem : Bool) (nodes : List MmNode) (page : ℕ) :
    Option Target :=
  if is_dev_mem then (pageAddr vram_base_offset nodes page).map (⟨false, ·⟩)
  else if page < (nodes.map MmNode.pages).sum then some ⟨true, u64 (page * 4096)⟩ else none

/-- Where a page of a buffer is. -/
def Mo.target (vram_base_offset : ℕ) (mo : Mo) : ℕ → Option Target :=
  pageTarget vram_base_offset mo.is_dev_mem mo.mm_node_array

/-- **The segments are right**: they tile the pages of the mapping, and every page is mapped to that
of the buffer. -/
structure SegmentsRight (vram_base_offset : ℕ) (mo : Mo) (mapping : Mapping)
    (segs : List Segment) : Prop where
  tiles : Tiles mapping.start (mapping.last + 1)
    (segs.map fun seg => (seg.start, seg.last + 1 - seg.start))
  nonempty : ∀ seg ∈ segs, seg.start ≤ seg.last
  target : ∀ seg ∈ segs, ∀ v, seg.start ≤ v → v ≤ seg.last →
    mo.target vram_base_offset (mapping.offset / 4096 + (v - mapping.start)) = some (seg.target v)

/-! ### The loop -/

section

variable {update : Segment → Option Errno} {vram : ℕ} {dev : Bool} {mapping : Mapping}
variable {node : MmNode} {nodes : List MmNode} {pfn start : ℕ}

theorem MmNode.pages_lt (n : MmNode) : n.pages < 2 ^ 52 := by
  have := n.size_lt
  change n.size >>> 12 < 2 ^ 52
  rw [Nat.shiftRight_eq_div_pow]
  omega

theorem MmNode.pages_pos (n : MmNode) : 0 < n.pages := n.pos

/-- The segment at the start of a node. -/
theorem segment_node (hstart : start ≤ mapping.last) (hlast : mapping.last < 2 ^ 52) :
    segment vram dev mapping (some (node :: nodes)) 0 start = some
      ⟨start, min mapping.last (start + node.pages - 1),
        if dev then u64 (node.start + vram) else 0, !dev⟩ := by
  have hlt := node.pages_lt
  have hpos := node.pages_pos
  unfold segment
  dsimp only
  rw [sub64_of_le (Nat.zero_le _) (by omega), Nat.sub_zero, u64_of_lt (by omega),
    sub64_of_le (by omega) (by omega), Nat.zero_shiftLeft]
  cases dev with
  | false => rfl
  | true =>
    have hzero : u64 0 = 0 := rfl
    simp only [if_true, hzero, Nat.add_zero]
    rw [u64_of_lt (u64_lt _)]

/-- A page of the first node is where its segment has it. -/
theorem pageTarget_head {v last : ℕ} (hv : v - start < node.pages) :
    pageTarget vram dev (node :: nodes) (v - start) = some
      (Segment.target ⟨start, last, if dev then u64 (node.start + vram) else 0, !dev⟩ v) := by
  unfold pageTarget Segment.target
  cases dev with
  | false =>
    have hsum : v - start < (List.map MmNode.pages (node :: nodes)).sum := by
      rw [List.map_cons, List.sum_cons]
      omega
    simp only [Bool.false_eq_true, if_false, if_pos hsum, Nat.zero_add, Bool.not_false]
  | true =>
    have haddr : u64 (u64 (node.start + vram) + (v - start) * 4096) =
        u64 (node.start + vram + (v - start) * 4096) := by
      simp [u64, wrap]
    simp only [if_true, pageAddr, if_pos hv, Option.map_some, Bool.not_true, haddr]

/-- A page behind the first node is one of the others. -/
theorem pageTarget_tail {page : ℕ} (hpage : node.pages ≤ page) :
    pageTarget vram true (node :: nodes) page = pageTarget vram true nodes (page - node.pages) := by
  unfold pageTarget
  rw [if_pos rfl, if_pos rfl, pageAddr, if_neg (by omega)]

/-- **The loop**, from the start of a node on. -/
theorem mapLoop_spec (hupdate : ∀ seg, update seg = none) (hlast : mapping.last < 2 ^ 52)
    (hstart : start ≤ mapping.last)
    (hfits : mapping.last + 1 - start ≤ (nodes.map MmNode.pages).sum)
    (hsingle : dev = false → nodes.length = 1) {n : ℕ} (hn : nodes.length ≤ n) :
    ∃ segs, mapLoop update vram dev mapping n (some nodes) 0 start = some (none, segs) ∧
      Tiles start (mapping.last + 1)
        (segs.map fun seg => (seg.start, seg.last + 1 - seg.start)) ∧
      (∀ seg ∈ segs, seg.start ≤ seg.last) ∧
      ∀ seg ∈ segs, ∀ v, seg.start ≤ v → v ≤ seg.last →
        pageTarget vram dev nodes (v - start) = some (seg.target v) := by
  induction nodes generalizing start n with
  | nil =>
    rw [List.map_nil, List.sum_nil] at hfits
    omega
  | cons node nodes ih =>
    have hlt := node.pages_lt
    have hpos := node.pages_pos
    rw [List.map_cons, List.sum_cons] at hfits
    rw [List.length_cons] at hn
    obtain ⟨n, rfl⟩ : ∃ m, n = m + 1 := ⟨n - 1, by omega⟩
    -- nothing wraps
    have hpfn : u64 (0 + u64 (sub64 (min mapping.last (start + node.pages - 1)) start + 1)) =
        min mapping.last (start + node.pages - 1) - start + 1 := by
      rw [sub64_of_le (by omega) (by omega), Nat.zero_add, u64_of_lt (u64_lt _),
        u64_of_lt (by omega)]
    have hnext : u64 (min mapping.last (start + node.pages - 1) + 1) =
        min mapping.last (start + node.pages - 1) + 1 := u64_of_lt (by omega)
    have hend : u64 (mapping.last + 1) = mapping.last + 1 := u64_of_lt (by omega)
    rw [mapLoop, segment_node hstart hlast]
    dsimp only
    rw [hupdate]
    dsimp only
    rw [hpfn, hnext, hend]
    clear hpfn hnext hend
    by_cases hend : mapping.last ≤ start + node.pages - 1
    · -- the mapping ends in this node
      rw [Nat.min_eq_left hend, if_pos rfl]
      refine ⟨_, rfl, ⟨rfl, ?_⟩, ?_, ?_⟩
      · change start + (mapping.last + 1 - start) = mapping.last + 1
        omega
      · intro seg hseg
        rw [List.mem_singleton.1 hseg]
        exact hstart
      · intro seg hseg v hv hv'
        rw [List.mem_singleton.1 hseg] at hv hv' ⊢
        dsimp only at hv hv'
        exact pageTarget_head (by omega)
    · have hmin : min mapping.last (start + node.pages - 1) = start + node.pages - 1 := by omega
      have hdev : dev = true := by
        cases hdev : dev with
        | true => rfl
        | false =>
          have hnil : nodes = [] := List.length_eq_zero_iff.1 (by simpa using hsingle hdev)
          rw [hnil, List.map_nil, List.sum_nil] at hfits
          omega
      subst hdev
      have hpfn : start + node.pages - 1 - start + 1 = node.pages := by omega
      have hadvance : advance (some (node :: nodes)) node.pages = (some nodes, 0) := if_pos rfl
      rw [hmin, hpfn, if_neg (by omega), hadvance,
        show start + node.pages - 1 + 1 = start + node.pages by omega]
      obtain ⟨segs, hloop, htiles, hnonempty, htarget⟩ :=
        @ih (start + node.pages) (by omega) (by omega) (fun h => by cases h) n (by omega)
      dsimp only
      rw [hloop]
      refine ⟨_, rfl, ⟨rfl, ?_⟩, ?_, ?_⟩
      · have hlen : start + (start + node.pages - 1 + 1 - start) = start + node.pages := by omega
        dsimp only
        rw [hlen]
        exact htiles
      · intro seg hseg
        rcases List.mem_cons.1 hseg with rfl | hseg
        · dsimp only
          omega
        · exact hnonempty seg hseg
      · intro seg hseg v hv hv'
        rcases List.mem_cons.1 hseg with rfl | hseg
        · dsimp only at hv hv'
          exact pageTarget_head (by omega)
        · have hbound : start + node.pages ≤ seg.start :=
            (htiles.mem_bounds (List.mem_map_of_mem hseg)).1
          rw [pageTarget_tail (by omega), Nat.sub_sub]
          exact htarget seg hseg v hv hv'

/-- The first segment starts where the loop does. -/
theorem mapLoop_head {n : ℕ} {ns : Option (List MmNode)} {r : Option Errno} {segs : List Segment}
    (h : mapLoop update vram dev mapping n ns pfn start = some (r, segs)) :
    ∃ seg rest, segs = seg :: rest ∧ seg.start = start := by
  have hsegment {seg : Segment} (hseg : segment vram dev mapping ns pfn start = some seg) :
      seg.start = start := by
    unfold segment at hseg
    split at hseg
    · cases hseg
      rfl
    · cases hseg
    · cases hseg
      rfl
  cases n with
  | zero => cases h
  | succ n =>
    rw [mapLoop] at h
    split at h
    · cases h
    · rename_i seg hseg
      split at h
      · cases h
        exact ⟨seg, [], rfl, hsegment hseg⟩
      · dsimp only at h
        split at h
        · cases h
          exact ⟨seg, [], rfl, hsegment hseg⟩
        · obtain ⟨r', -, hr'⟩ := Option.map_eq_some_iff.1 h
          cases hr'
          exact ⟨seg, r'.2, rfl, hsegment hseg⟩

end

/-! ### Mappings that `opu_vm_bo_map` accepts -/

section

variable {update : Segment → Option Errno} {vram : ℕ} {d : Device} {s s' : State} {id : ℕ}
variable {r : Request} {flags : ℕ} {mo : Mo}

/-- What an accepted request is, and the mapping it makes. -/
theorem mapping_of_opuVmBoMap (h : opuVmBoMap d s id r flags = some (none, s')) :
    r.Aligned ∧ r.saddr + r.size - 1 < 2 ^ 64 ∧
      s'.mapping id = ⟨r.saddr / 4096, (r.saddr + r.size - 1) / 4096, r.offset, flags⟩ := by
  have hs := r.saddr_lt
  have hz := r.size_lt
  unfold opuVmBoMap at h
  dsimp only at h
  split at h
  · cases h
  · rename_i haligned
    split at h
    · cases h
    · rename_i hsum
      split at h
      · cases h
      · split at h
        · cases h
        · simp only [and_mask] at haligned
          have hmod : u64 (r.saddr + r.size - 1) = (r.saddr + r.size - 1) % 2 ^ 64 := rfl
          have hlt : r.saddr + r.size - 1 < 2 ^ 64 := by omega
          cases h
          refine ⟨by unfold Request.Aligned; omega, hlt, ?_⟩
          simp only [State.mapping, Function.update_self, u64_of_lt hlt]
          rfl

/-- **The segments of an accepted mapping are right if and only if it starts where its buffer
does**: the pages of the offset are left out of the mapping too. -/
theorem segmentsRight_iff (hmap : opuVmBoMap d s id r flags = some (none, s'))
    (hfits : r.offset + r.size ≤ 4096 * mo.pages) (hupdate : ∀ seg, update seg = none) :
    (∃ segs, opuVmBoSplitMapping update vram (some mo) (s'.mapping id) = some (none, segs) ∧
      SegmentsRight vram mo (s'.mapping id) segs) ↔ r.offset = 0 := by
  obtain ⟨⟨hsaddr, hoffset, hsize, hsize'⟩, hlt, hmapping⟩ := mapping_of_opuVmBoMap hmap
  have hs := r.saddr_lt
  have ho := r.offset_lt
  rw [hmapping]
  have hshift : r.offset >>> PAGE_SHIFT = r.offset / 4096 := Nat.shiftRight_eq_div_pow ..
  constructor
  · rintro ⟨segs, hsplit, hright⟩
    unfold opuVmBoSplitMapping at hsplit
    dsimp only at hsplit
    split at hsplit
    · cases hsplit
    · obtain ⟨seg, rest, rfl, hstart⟩ := mapLoop_head hsplit
      have hfirst : seg.start = r.saddr / 4096 := hright.tiles.1
      rw [hshift, u64_of_lt (by omega)] at hstart
      omega
  · intro hzero
    have hpages : 0 < mo.pages := by omega
    obtain ⟨node, nodes, hnodes⟩ : ∃ node nodes, mo.mm_node_array = node :: nodes := by
      cases hnodes : mo.mm_node_array with
      | nil => simp [Mo.pages, hnodes] at hpages
      | cons node nodes => exact ⟨node, nodes, rfl⟩
    have hskip : skipNodes mo.mm_node_array 0 = some (mo.mm_node_array, 0) := by
      rw [hnodes, skipNodes, if_neg (Nat.not_le.2 node.pages_pos)]
    obtain ⟨segs, hloop, htiles, hnonempty, htarget⟩ :=
      @mapLoop_spec update vram mo.is_dev_mem
        ⟨r.saddr / 4096, (r.saddr + r.size - 1) / 4096, r.offset, flags⟩ mo.mm_node_array
        (r.saddr / 4096) hupdate (by dsimp only; omega) (by dsimp only; omega)
        (by change _ ≤ mo.pages; dsimp only; omega) mo.single _ (Nat.le_succ _)
    refine ⟨segs, ?_, htiles, hnonempty, ?_⟩
    · have hpfn : r.offset >>> PAGE_SHIFT = 0 := by omega
      unfold opuVmBoSplitMapping
      dsimp only
      rw [hpfn, Nat.add_zero, hskip, u64_of_lt (by omega)]
      exact hloop
    · intro seg hseg v hv hv'
      dsimp only
      rw [hzero, Nat.zero_div, Nat.zero_add]
      exact htarget seg hseg v hv hv'

/-- A device with one buffer of three pages. -/
def threePages : Device := ⟨⟨true, false⟩, fun _ => ⟨3 * 4096, by decide, false⟩⟩

theorem firstStart_lt : 0x10000 < 2 ^ 64 := by decide

theorem firstSize_lt : 4096 < 2 ^ 64 := by decide

theorem secondSize_lt : 8192 < 2 ^ 64 := by decide

/-- Its memory: a node of one page, and one of two. -/
def twoNodes : Mo where
  is_dev_mem := true
  mm_node_array := [⟨0x10000, 4096, firstStart_lt, firstSize_lt, by decide⟩,
    ⟨0x40000, 8192, by decide, secondSize_lt, by decide⟩]
  single := fun h => by cases h

/-- The buffer is mapped as a whole. -/
theorem segmentsRight_iff_three :
    ∃ s', opuVmBoMap threePages {} 0 ⟨0x5000, 0, 0x3000, by decide, by decide, by decide⟩ 1 =
        some (none, s') ∧
      ∃ segs, opuVmBoSplitMapping (fun _ => none) 0 (some twoNodes) (s'.mapping 0) =
        some (none, segs) ∧ SegmentsRight 0 twoNodes (s'.mapping 0) segs :=
  ⟨_, rfl, (segmentsRight_iff (d := threePages) (s := {}) (r := ⟨0x5000, 0, 0x3000, by decide,
    by decide, by decide⟩) rfl (by decide) fun _ => rfl).2 rfl⟩

/-- **The second and third page of the buffer are mapped: the first page of the mapping is left
out.** -/
theorem offset_is_added_twice :
    ∃ s', opuVmBoMap threePages {} 0 ⟨0x5000, 0x1000, 0x2000, by decide, by decide, by decide⟩ 1 =
        some (none, s') ∧ s'.mapping 0 = ⟨5, 6, 0x1000, 1⟩ ∧
      opuVmBoSplitMapping (fun _ => none) 0 (some twoNodes) (s'.mapping 0) =
        some (none, [⟨6, 6, 0x40000, false⟩]) ∧
      ¬∃ segs, opuVmBoSplitMapping (fun _ => none) 0 (some twoNodes) (s'.mapping 0) =
        some (none, segs) ∧ SegmentsRight 0 twoNodes (s'.mapping 0) segs := by
  refine ⟨_, rfl, rfl, by decide, ?_⟩
  rintro ⟨segs, hsplit, hright⟩
  obtain rfl : segs = [⟨6, 6, 0x40000, false⟩] := by
    have hsegs : some (none, segs) = some (none, [⟨6, 6, 0x40000, false⟩]) := hsplit.symm
    simpa using hsegs
  exact absurd hright.tiles (by decide)

end

end Codrive.Vm
