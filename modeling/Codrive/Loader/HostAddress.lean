/-
# Where the segments of a file are put

`LoadSegments` puts the `PT_LOAD` segments of a file into one allocation, and `FindHostAddress` of
`src/src/drive/loader/Executable.cpp` finds the host copy of a device address.

| here | source |
|---|---|
| `hosts` | `host_ptr_` of the memory of each segment; that of `MappedMemory` is its `ptr_` |
| `none` as a result | a failed assertion, or a pointer to nothing |

The allocation begins with the address of the first segment and has as many bytes as the last one
has addresses below its end.  Nothing is checked against it but, by an assertion, the address of
each segment.  `loaded_of_run` says for which files each byte comes to its place; they include those
whose segments stand in ascending order and do not overlap, and have no more bytes in the file than
in memory.
-/

import Codrive.Basis.Run
import Codrive.Loader.LoadFailure

namespace Codrive.Loader

open Codrive.Basis

/-! ### Finding the host address -/

/-- An executable, and the host memory of its segments. -/
structure Hosted where
  exec : Executable := {}
  hosts : List ℕ := []

/-- The body of the loop of `FindHostAddress`: the address, if it is in the segment. -/
def Segment.hostAddress (ndebug : Bool) (seg : Segment) (host_ptr_ device_address : ℕ) :
    Option (Option ℕ) :=
  (seg.address ndebug seg.vaddr).map fun paddr =>
    if paddr ≤ device_address ∧ device_address < u64 (paddr + seg.size) then
      some (u64 (host_ptr_ + sub64 device_address paddr))
    else none

/-- The loop of `FindHostAddress` over these segments. -/
def Hosted.findIn (ndebug : Bool) (s : Hosted) (device_address : ℕ) : List ℕ → Option ℕ
  | [] => some 0
  | i :: is =>
    match s.exec.segments[i]?, s.hosts[i]? with
    | some seg, some host_ptr_ =>
      match seg.hostAddress ndebug host_ptr_ device_address with
      | none => none
      | some (some haddr) => some haddr
      | some none => s.findIn ndebug device_address is
    | _, _ => none

/-- The segments of all code objects. -/
def Executable.loadedSegments (s : Executable) : List ℕ :=
  s.loaded_code_objects.flatMap LoadedCodeObject.loaded_segments

/-- `ExecutableImpl::FindHostAddress`. -/
def Hosted.findHostAddress (ndebug : Bool) (s : Hosted) (device_address : ℕ) : Option ℕ :=
  s.findIn ndebug device_address s.exec.loadedSegments

/-! ### What a load should do -/

/-- The least address of a segment. -/
def lowest (ds : List DataSegment) : ℕ := (ds.map DataSegment.vaddr).min?.getD 0

/-- **Every byte of a segment is found at its host copy**, and nothing is found elsewhere. -/
structure Hosted.Finds (ndebug : Bool) (s : Hosted) : Prop where
  inside : ∀ (i : ℕ) (seg : Segment) (host_ptr_ : ℕ), s.exec.segments[i]? = some seg →
    s.hosts[i]? = some host_ptr_ →
      ∀ o < seg.size, s.findHostAddress ndebug (seg.ptr + o) = some (host_ptr_ + o)
  outside : ∀ a, (∀ seg ∈ s.exec.segments, a < seg.ptr ∨ seg.ptr + seg.size ≤ a) →
    s.findHostAddress ndebug a = some 0

/-- **The file is where it should be**: each segment was copied to its place, each byte is there,
and the rest is zero. -/
structure Segment.Has (ndebug : Bool) (seg : Segment) (ds : List DataSegment) : Prop where
  offset : ∀ d ∈ ds, d.data ≠ [] → seg.offset ndebug d.vaddr = some (d.vaddr - lowest ds)
  inside : ∀ d ∈ ds, ∀ i < d.data.length, d.vaddr - lowest ds + i < seg.size
  bytes : ∀ d ∈ ds, ∀ i < d.data.length,
    seg.image (d.vaddr - lowest ds + i) = d.data.getD i 0
  zero : ∀ a, (∀ d ∈ ds, ∀ i < d.data.length, a ≠ d.vaddr - lowest ds + i) → seg.image a = 0

/-- **What loading the segments of a file should do.** -/
def LoadsRight (ndebug : Bool) (s : Hosted) (agent : Option ℕ) (c : CodeObject) (ptr host : ℕ) :
    Prop :=
  ∃ t seg, loadSegments ndebug (some ptr) c (s.exec.register agent) = some (.success, t) ∧
    t.segments = s.exec.segments ++ [seg] ∧ seg.ptr = ptr ∧ seg.Has ndebug c.dataSegments ∧
      Hosted.Finds ndebug ⟨t, s.hosts ++ [host]⟩

/-- The bytes that are allocated for the segments. -/
def segmentSize (last : DataSegment) : ℕ := u64 (last.vaddr + last.memsz)

/-- **The condition**, where `first` and `last` are the first and the last segment: the first one is
the lowest, the bytes of each are in the allocation, those of two agree where they overlap, and no
assertion fails. -/
structure HeadersFit (ndebug : Bool) (ds : List DataSegment) (first last : DataSegment) : Prop where
  lowest : (∃ d ∈ ds, d.data ≠ []) → ∀ d ∈ ds, first.vaddr ≤ d.vaddr
  fits : ∀ d ∈ ds, d.data ≠ [] →
    d.vaddr - first.vaddr + d.data.length ≤ segmentSize last
  agree : ∀ d ∈ ds, ∀ d' ∈ ds, ∀ i < d.data.length, ∀ j < d'.data.length,
    d.vaddr + i = d'.vaddr + j → d.data.getD i 0 = d'.data.getD j 0
  asserts : ndebug = true ∨ first.vaddr < u64 (first.vaddr + segmentSize last) ∧
    ∀ d ∈ ds, d.data ≠ [] → d.vaddr < u64 (first.vaddr + segmentSize last)

/-- What is promised of an allocation: it has these bytes, apart from those that were allocated
before. -/
structure Hosted.AllocOk (s : Hosted) (size ptr host : ℕ) : Prop where
  pos : 0 < ptr
  lt : ptr + size < 2 ^ 64
  host_lt : host + size < 2 ^ 64
  apart : ∀ seg ∈ s.exec.segments, seg.ptr + seg.size ≤ ptr ∨ ptr + size ≤ seg.ptr

/-! ### Hosted the segments -/

section Load

variable {ndebug : Bool} {ds : List DataSegment} {first last : DataSegment} {ptr : ℕ}

theorem lowest_le {d : DataSegment} (h : d ∈ ds) : lowest ds ≤ d.vaddr := by
  unfold lowest
  rcases hmin : (ds.map DataSegment.vaddr).min? with _ | m
  · rw [List.min?_eq_none_iff, List.map_eq_nil_iff] at hmin
    rw [hmin] at h
    exact nomatch h
  · exact (List.min?_eq_some_iff.1 hmin).2 _ (List.mem_map_of_mem h)

theorem exists_lowest (h : ds ≠ []) : ∃ d ∈ ds, d.vaddr = lowest ds := by
  unfold lowest
  rcases hmin : (ds.map DataSegment.vaddr).min? with _ | m
  · rw [List.min?_eq_none_iff, List.map_eq_nil_iff] at hmin
    exact absurd hmin h
  · exact List.mem_map.1 (List.min?_eq_some_iff.1 hmin).1

/-- The segment is copied within the allocation. -/
def Segment.Takes (ndebug : Bool) (seg : Segment) (d : DataSegment) : Prop :=
  d.data ≠ [] → (ndebug = true ∨ seg.isAddressInSegment d.vaddr = true) ∧
    sub64 d.vaddr seg.vaddr + d.data.length ≤ seg.size

/-- What is written for the segments. -/
def writes (vaddr : ℕ) (ds : List DataSegment) : List (ℕ × List UInt8) :=
  ds.map fun d => (sub64 d.vaddr vaddr, d.data)

theorem offset_eq {seg : Segment} {addr : ℕ} : seg.offset ndebug addr =
    if ndebug = true ∨ seg.isAddressInSegment addr = true then some (sub64 addr seg.vaddr)
    else none := by
  unfold Segment.offset assert
  by_cases h : ndebug = true ∨ seg.isAddressInSegment addr = true
  · rw [if_pos h, if_pos (by simpa using h), Option.map_some]
  · rw [if_neg h, if_neg (by simpa using h), Option.map_none]

theorem copy_eq (ndebug : Bool) (seg : Segment) (d : DataSegment) : (seg.Takes ndebug d →
      seg.copy ndebug d.vaddr d.data =
        some { seg with image := seg.image.write (sub64 d.vaddr seg.vaddr) d.data }) ∧
    (¬seg.Takes ndebug d → seg.copy ndebug d.vaddr d.data = none) := by
  unfold Segment.copy Segment.Takes
  by_cases hnil : d.data = []
  · rw [if_pos hnil, hnil]
    refine ⟨fun _ => ?_, fun h => absurd (fun hne => absurd rfl hne) h⟩
    have hwrite : seg.image.write (sub64 d.vaddr seg.vaddr) [] = seg.image := by
      funext i
      exact write_of_outside (by simp; omega)
    rw [hwrite]
  · rw [if_neg hnil, offset_eq, forall_prop_of_true hnil]
    by_cases hin : ndebug = true ∨ seg.isAddressInSegment d.vaddr = true
    · rw [if_pos hin]
      refine ⟨fun h => if_pos h.2, fun h => if_neg fun hle => h ⟨hin, hle⟩⟩
    · rw [if_neg hin]
      exact ⟨fun h => absurd h.1 hin, fun _ => rfl⟩

/-- **The loop over the segments** copies each of them, or ends the process. -/
theorem loadSegmentsV3_eq (ndebug : Bool) (ds : List DataSegment) (seg : Segment) :
    ((∀ d ∈ ds, seg.Takes ndebug d) → loadSegmentsV3 ndebug ds seg =
      some { seg with image := seg.image.writeAll (writes seg.vaddr ds) }) ∧
    ((¬∀ d ∈ ds, seg.Takes ndebug d) → loadSegmentsV3 ndebug ds seg = none) := by
  induction ds generalizing seg with
  | nil => exact ⟨fun _ => rfl, fun h => absurd (fun _ hd => nomatch hd) h⟩
  | cons d ds ih =>
    obtain ⟨htakes, hnot⟩ := copy_eq ndebug seg d
    unfold loadSegmentsV3
    rw [List.forall_mem_cons]
    by_cases hd : seg.Takes ndebug d
    · rw [htakes hd, and_iff_right hd]
      exact ih { seg with image := seg.image.write (sub64 d.vaddr seg.vaddr) d.data }
    · rw [hnot hd]
      exact ⟨fun h => absurd h.1 hd, fun _ => rfl⟩

theorem takes_new {d : DataSegment} : (newSegment ptr first last).Takes ndebug d ↔
    (d.data ≠ [] → (ndebug = true ∨ first.vaddr ≤ d.vaddr ∧
        d.vaddr < u64 (first.vaddr + segmentSize last)) ∧
      sub64 d.vaddr first.vaddr + d.data.length ≤ segmentSize last) := by
  unfold Segment.Takes Segment.isAddressInSegment newSegment segmentSize
  rw [decide_eq_true_iff]

/-- The offset that is wanted is the one from the first segment, so that one is the lowest. -/
theorem eq_lowest_of_offset {d : DataSegment} (hword : ∀ d ∈ ds, d.vaddr < 2 ^ 64)
    (hfirst : first ∈ ds) (hd : d ∈ ds) (h : sub64 d.vaddr first.vaddr = d.vaddr - lowest ds) :
    first.vaddr = lowest ds := by
  have hle := lowest_le hd
  have hle' := lowest_le hfirst
  have hlt := hword d hd
  have hlt' := hword first hfirst
  unfold sub64 u64 wrap at h
  omega

/-- **The segments come to their places** if and only if the first one is the lowest, their bytes
are in the allocation and agree, and no assertion fails. -/
theorem has_iff (ndebug : Bool) (last : DataSegment) (ptr : ℕ)
    (hword : ∀ d ∈ ds, d.vaddr < 2 ^ 64) (hfirst : first ∈ ds) :
    (∃ seg, loadSegmentsV3 ndebug ds (newSegment ptr first last) = some seg ∧
        seg.Has ndebug ds) ↔
      ((∃ d ∈ ds, d.data ≠ []) → ∀ d ∈ ds, first.vaddr ≤ d.vaddr) ∧
      (∀ d ∈ ds, d.data ≠ [] → d.vaddr - first.vaddr + d.data.length ≤ segmentSize last) ∧
      (∀ d ∈ ds, ∀ d' ∈ ds, ∀ i < d.data.length, ∀ j < d'.data.length,
        d.vaddr + i = d'.vaddr + j → d.data.getD i 0 = d'.data.getD j 0) ∧
      (ndebug = true ∨ ∀ d ∈ ds, d.data ≠ [] →
        d.vaddr < u64 (first.vaddr + segmentSize last)) := by
  obtain ⟨hall, hnot⟩ := loadSegmentsV3_eq ndebug ds (newSegment ptr first last)
  have hne : ∀ d : DataSegment, ∀ i < d.data.length, d.data ≠ [] :=
    fun d i hi hnil => by simp [hnil] at hi
  constructor
  · rintro ⟨seg, hload, hhas⟩
    have htakes : ∀ d ∈ ds, (newSegment ptr first last).Takes ndebug d := by
      by_contra hno
      rw [hnot hno] at hload
      exact nomatch hload
    rw [hall htakes] at hload
    obtain rfl := Option.some.inj hload
    have hlowest : ∀ d ∈ ds, d.data ≠ [] → first.vaddr = lowest ds := by
      intro d hd hdata
      have hoffset : (newSegment ptr first last).offset ndebug d.vaddr =
        some (d.vaddr - Loader.lowest ds) := hhas.offset d hd hdata
      rw [offset_eq, if_pos ((htakes d hd) hdata).1] at hoffset
      exact eq_lowest_of_offset hword hfirst hd (Option.some.inj hoffset)
    refine ⟨?_, ?_, ?_, ?_⟩
    · rintro ⟨d, hd, hdata⟩ d' hd'
      rw [hlowest d hd hdata]
      exact lowest_le hd'
    · intro d hd hdata
      have hlen := List.length_pos_iff.2 hdata
      have := hhas.inside d hd (d.data.length - 1) (by omega)
      rw [hlowest d hd hdata]
      unfold newSegment at this
      unfold segmentSize
      dsimp only at this
      omega
    · intro d hd d' hd' i hi j hj heq
      rw [← hhas.bytes d hd i hi, ← hhas.bytes d' hd' j hj]
      have hle := lowest_le hd
      have hle' := lowest_le hd'
      exact congrArg _ (by omega)
    · by_cases hn : ndebug = true
      · exact .inl hn
      · refine .inr fun d hd hdata => ?_
        exact ((takes_new.1 (htakes d hd) hdata).1.resolve_left hn).2
  · rintro ⟨hlow, hfits, hagree, hasserts⟩
    have hlow' : ∀ d ∈ ds, d.data ≠ [] → first.vaddr ≤ d.vaddr :=
      fun d hd hdata => hlow ⟨d, hd, hdata⟩ d hd
    have hsub : ∀ d ∈ ds, d.data ≠ [] → sub64 d.vaddr first.vaddr = d.vaddr - first.vaddr :=
      fun d hd hdata => sub64_of_le (hlow' d hd hdata) (hword d hd)
    have hlowest : ∀ d ∈ ds, d.data ≠ [] → lowest ds = first.vaddr := by
      intro d hd hdata
      obtain ⟨d', hd', heq⟩ := exists_lowest (List.ne_nil_of_mem hd)
      have h₁ := hlow ⟨d, hd, hdata⟩ d' hd'
      have h₂ := lowest_le hfirst
      omega
    have htakes : ∀ d ∈ ds, (newSegment ptr first last).Takes ndebug d := by
      refine fun d hd => takes_new.2 fun hdata => ⟨?_, ?_⟩
      · exact hasserts.imp id fun h => ⟨hlow' d hd hdata, h d hd hdata⟩
      · rw [hsub d hd hdata]
        exact hfits d hd hdata
    refine ⟨_, hall htakes, ?_, ?_, ?_, ?_⟩
    · intro d hd hdata
      have hin := (htakes d hd hdata).1
      rw [offset_eq]
      refine (if_pos hin).trans (congrArg some ?_)
      rw [hlowest d hd hdata]
      exact hsub d hd hdata
    · intro d hd i hi
      have hdata := hne d i hi
      have := hfits d hd hdata
      rw [hlowest d hd hdata]
      exact Nat.lt_of_lt_of_le (Nat.add_lt_add_left hi _) this
    · intro d hd i hi
      have hdata := hne d i hi
      refine writeAll_eq (fun w hw j hj heq => ?_) (.inr ⟨_, List.mem_map_of_mem hd, i, hi, ?_⟩)
      · obtain ⟨d', hd', rfl⟩ := List.mem_map.1 hw
        have hdata' := hne d' j hj
        dsimp only [newSegment] at heq hj ⊢
        rw [hsub d' hd' hdata', hlowest d hd hdata] at heq
        have h₁ := hlow' d hd hdata
        have h₂ := hlow' d' hd' hdata'
        exact hagree d' hd' d hd j hj i hi (by omega)
      · dsimp only [newSegment]
        rw [hsub d hd hdata, hlowest d hd hdata]
    · intro a ha
      refine (writeAll_of_outside fun w hw => ?_).trans rfl
      obtain ⟨d, hd, rfl⟩ := List.mem_map.1 hw
      dsimp only [newSegment]
      by_cases hdata : d.data = []
      · rw [hdata]
        exact Nat.lt_or_ge a _
      · rw [hsub d hd hdata]
        by_contra hno
        rw [not_or, Nat.not_lt, Nat.not_le] at hno
        refine ha d hd (a - (d.vaddr - first.vaddr)) (by omega) ?_
        rw [hlowest d hd hdata]
        omega

end Load

/-! ### The invariant -/

/-- Where a segment is, and from which address on. -/
structure Place where
  ptr : ℕ
  size : ℕ
  vaddr : ℕ

/-- The place of a segment. -/
def Segment.place (seg : Segment) : Place := ⟨seg.ptr, seg.size, seg.vaddr⟩

/-- The places of the segments. -/
def Executable.places (s : Executable) : List Place := s.segments.map Segment.place

/-- **The invariant**: every segment is listed once, and has a memory of its own. -/
structure Hosted.Inv (ndebug : Bool) (s : Hosted) : Prop where
  hosts : s.hosts.length = s.exec.places.length
  listed : s.exec.loadedSegments = List.range s.exec.places.length
  memory : ∀ (i : ℕ) (p : Place) (host : ℕ), s.exec.places[i]? = some p → s.hosts[i]? = some host →
    0 < p.ptr ∧ p.ptr + p.size < 2 ^ 64 ∧ host + p.size < 2 ^ 64
  asserts : ∀ p ∈ s.exec.places, ndebug = true ∨ p.vaddr < u64 (p.vaddr + p.size)
  apart : s.exec.places.Pairwise fun p q => p.ptr + p.size ≤ q.ptr ∨ q.ptr + q.size ≤ p.ptr

section Invariant

variable {ndebug : Bool} {s : Hosted}

/-- What the body of the loop gives. -/
theorem hostAddress_eq {seg : Segment} {host a : ℕ} (hlt : seg.ptr + seg.size < 2 ^ 64)
    (hhost : host + seg.size < 2 ^ 64)
    (hassert : ndebug = true ∨ seg.vaddr < u64 (seg.vaddr + seg.size)) :
    seg.hostAddress ndebug host a = some
      (if seg.ptr ≤ a ∧ a < seg.ptr + seg.size then some (host + (a - seg.ptr)) else none) := by
  have hin : ndebug = true ∨ seg.isAddressInSegment seg.vaddr = true :=
    hassert.imp id fun h => decide_eq_true ⟨Nat.le_refl _, h⟩
  have haddress : seg.address ndebug seg.vaddr = some seg.ptr := by
    unfold Segment.address
    rw [offset_eq, if_pos hin, Option.map_some]
    refine congrArg some ?_
    unfold sub64 u64 wrap
    omega
  unfold Segment.hostAddress
  rw [haddress, Option.map_some, u64_of_lt hlt]
  refine congrArg some ?_
  by_cases h : seg.ptr ≤ a ∧ a < seg.ptr + seg.size
  · rw [if_pos h, if_pos h, sub64_of_le h.1 (by omega), u64_of_lt (by omega)]
  · rw [if_neg h, if_neg h]

/-- A segment whose own address is not in it ends the process. -/
theorem hostAddress_assert {seg : Segment} {host a : ℕ}
    (hassert : ¬(ndebug = true ∨ seg.vaddr < u64 (seg.vaddr + seg.size))) :
    seg.hostAddress ndebug host a = none := by
  have hin : ¬(ndebug = true ∨ seg.isAddressInSegment seg.vaddr = true) :=
    fun h => hassert (h.imp id fun h => (of_decide_eq_true h).2)
  unfold Segment.hostAddress Segment.address
  rw [offset_eq, if_neg hin]
  rfl

/-- **A list of segments that the address is not in is passed by.** -/
theorem findIn_append {a : ℕ} {is js : List ℕ} (h : ∀ i ∈ is, ∃ seg host,
    s.exec.segments[i]? = some seg ∧ s.hosts[i]? = some host ∧
      seg.hostAddress ndebug host a = some none) :
    s.findIn ndebug a (is ++ js) = s.findIn ndebug a js := by
  induction is with
  | nil => rfl
  | cons i is ih =>
    obtain ⟨seg, host, hseg, hhost, hnone⟩ := h i List.mem_cons_self
    rw [List.cons_append, Hosted.findIn, hseg, hhost]
    dsimp only
    rw [hnone]
    exact ih fun j hj => h j (List.mem_cons_of_mem _ hj)

/-- The segment at a place of the list, with its host memory. -/
theorem Hosted.Inv.get (h : s.Inv ndebug) {i : ℕ} (hi : i < s.exec.places.length) :
    ∃ seg host, s.exec.segments[i]? = some seg ∧ s.hosts[i]? = some host ∧
      s.exec.places[i]? = some seg.place := by
  have hi' : i < s.exec.segments.length := by
    unfold Executable.places at hi
    rwa [List.length_map] at hi
  have hih : i < s.hosts.length := by
    rw [h.hosts]
    exact hi
  refine ⟨s.exec.segments[i], s.hosts[i], List.getElem?_eq_getElem hi',
    List.getElem?_eq_getElem hih, ?_⟩
  unfold Executable.places
  rw [List.getElem?_map, List.getElem?_eq_getElem hi', Option.map_some]

/-- What the body of the loop gives for a listed segment. -/
theorem Hosted.Inv.hostAddress (h : s.Inv ndebug) {i host : ℕ} {seg : Segment} (a : ℕ)
    (hseg : s.exec.segments[i]? = some seg) (hhost : s.hosts[i]? = some host) :
    seg.hostAddress ndebug host a = some
      (if seg.ptr ≤ a ∧ a < seg.ptr + seg.size then some (host + (a - seg.ptr)) else none) := by
  have hplace : s.exec.places[i]? = some seg.place := by
    unfold Executable.places
    rw [List.getElem?_map, hseg, Option.map_some]
  obtain ⟨-, hlt, hhostlt⟩ := h.memory i _ host hplace hhost
  exact hostAddress_eq hlt hhostlt (h.asserts _ (List.mem_of_getElem? hplace))

/-- **Host addresses are found.** -/
theorem Hosted.Inv.finds (h : s.Inv ndebug) : s.Finds ndebug := by
  have hlist : s.exec.loadedSegments = List.range s.exec.places.length := h.listed
  constructor
  · intro i seg host hseg hhost o ho
    have hi : i < s.exec.places.length := by
      unfold Executable.places
      rw [List.length_map]
      exact (List.getElem?_eq_some_iff.1 hseg).1
    have hplace : s.exec.places[i]? = some seg.place := by
      unfold Executable.places
      rw [List.getElem?_map, hseg, Option.map_some]
    -- The segments before this one do not have the address.
    obtain ⟨after, hsplit⟩ : ∃ after,
        List.range s.exec.places.length = List.range i ++ i :: after := by
      obtain ⟨k, hk⟩ := Nat.exists_eq_add_of_lt hi
      rw [hk, Nat.add_assoc, List.range_add, List.range_succ_eq_map, List.map_cons, Nat.add_zero]
      exact ⟨_, rfl⟩
    have hbefore : ∀ j ∈ List.range i, ∃ seg' host', s.exec.segments[j]? = some seg' ∧
        s.hosts[j]? = some host' ∧ seg'.hostAddress ndebug host' (seg.ptr + o) = some none := by
      intro j hj
      have hji := List.mem_range.1 hj
      obtain ⟨seg', host', hseg', hhost', hplace'⟩ := h.get (Nat.lt_trans hji hi)
      refine ⟨seg', host', hseg', hhost', ?_⟩
      rw [h.hostAddress _ hseg' hhost', if_neg]
      obtain ⟨hj', heq'⟩ := List.getElem?_eq_some_iff.1 hplace'
      obtain ⟨hi', heq⟩ := List.getElem?_eq_some_iff.1 hplace
      have hapart := List.pairwise_iff_getElem.1 h.apart j i hj' hi' hji
      rw [heq, heq'] at hapart
      unfold Segment.place at hapart
      dsimp only at hapart
      omega
    unfold Hosted.findHostAddress
    rw [hlist, hsplit, findIn_append hbefore, Hosted.findIn, hseg, hhost]
    dsimp only
    rw [h.hostAddress _ hseg hhost, if_pos ⟨Nat.le_add_right _ _, Nat.add_lt_add_left ho _⟩,
      Nat.add_sub_cancel_left]
  · intro a ha
    have hall : ∀ i ∈ List.range s.exec.places.length, ∃ seg host,
        s.exec.segments[i]? = some seg ∧ s.hosts[i]? = some host ∧
          seg.hostAddress ndebug host a = some none := by
      intro i hi
      obtain ⟨seg, host, hseg, hhost, -⟩ := h.get (List.mem_range.1 hi)
      refine ⟨seg, host, hseg, hhost, ?_⟩
      rw [h.hostAddress _ hseg hhost, if_neg]
      have := ha seg (List.mem_of_getElem? hseg)
      omega
    unfold Hosted.findHostAddress
    rw [hlist, ← List.append_nil (List.range _), findIn_append hall]
    rfl

/-- The invariant is about the places only. -/
theorem Hosted.Inv.congr (h : s.Inv ndebug) {t : Executable} (hplaces : t.places = s.exec.places)
    (hlisted : t.loadedSegments = s.exec.loadedSegments) : Hosted.Inv ndebug ⟨t, s.hosts⟩ := by
  refine ⟨?_, ?_, ?_, ?_, ?_⟩
  · exact h.hosts.trans (congrArg List.length hplaces.symm)
  · dsimp only
    rw [hlisted, hplaces]
    exact h.listed
  · dsimp only
    rw [hplaces]
    exact h.memory
  · dsimp only
    rw [hplaces]
    exact h.asserts
  · dsimp only
    rw [hplaces]
    exact h.apart

/-- **An allocation and its segment come to the end of the lists.** -/
theorem Hosted.Inv.push (h : s.Inv ndebug) (seg : Segment) {host : ℕ} {t : Executable}
    (hok : s.AllocOk seg.size seg.ptr host)
    (hassert : ndebug = true ∨ seg.vaddr < u64 (seg.vaddr + seg.size))
    (hsegments : t.segments = s.exec.segments ++ [seg])
    (hlisted : t.loadedSegments = s.exec.loadedSegments ++ [s.exec.segments.length]) :
    Hosted.Inv ndebug ⟨t, s.hosts ++ [host]⟩ := by
  have hplaces : t.places = s.exec.places ++ [seg.place] := by
    unfold Executable.places
    rw [hsegments, List.map_append, List.map_singleton]
  have hlength : s.exec.segments.length = s.exec.places.length := (List.length_map ..).symm
  refine ⟨?_, ?_, ?_, ?_, ?_⟩
  · dsimp only
    rw [hplaces, List.length_append, List.length_append, h.hosts]
    rfl
  · dsimp only
    rw [hlisted, hplaces, h.listed, hlength, List.length_append, List.length_singleton,
      List.range_succ]
  · intro i p host' hp hhost'
    dsimp only at hp hhost'
    rw [hplaces] at hp
    by_cases hi : i < s.exec.places.length
    · rw [List.getElem?_append_left hi] at hp
      rw [List.getElem?_append_left (h.hosts ▸ hi)] at hhost'
      exact h.memory i p host' hp hhost'
    · obtain rfl : i = s.exec.places.length := by
        have hlt := (List.getElem?_eq_some_iff.1 hp).1
        rw [List.length_append, List.length_singleton] at hlt
        omega
      rw [List.getElem?_concat_length] at hp
      rw [← h.hosts, List.getElem?_concat_length] at hhost'
      obtain rfl := Option.some.inj hp
      obtain rfl := Option.some.inj hhost'
      exact ⟨hok.pos, hok.lt, hok.host_lt⟩
  · dsimp only
    rw [hplaces]
    refine List.forall_mem_append.2 ⟨h.asserts, fun p hp => ?_⟩
    rw [List.mem_singleton.1 hp]
    exact hassert
  · dsimp only
    rw [hplaces, List.pairwise_append]
    refine ⟨h.apart, List.pairwise_singleton _ _, fun p hp q hq => ?_⟩
    rw [List.mem_singleton.1 hq]
    obtain ⟨seg', hseg', rfl⟩ := List.mem_map.1 hp
    exact hok.apart seg' hseg'

end Invariant

/-! ### Runs -/

/-- `LoadCodeObject`: the agent, the device and the host memory for the segments if they can be had,
whether the options are parsed, and what is read from the handle. -/
structure LoadCall where
  agent : Option ℕ
  alloc : Option (ℕ × ℕ)
  options : Bool
  code : Option CodeObject

/-- The hosts after a load: one more, if there is one more segment. -/
def Hosted.after (s : Hosted) (alloc : Option (ℕ × ℕ)) (t : Executable) : Hosted :=
  ⟨t, (s.hosts ++ alloc.toList.map Prod.snd).take t.segments.length⟩

/-- **The steps**: a load that comes back, with memory that is promised of an allocation. -/
inductive LoadStep (ndebug : Bool) : Hosted → LoadCall → Hosted → Prop
  | load {s call status t}
    (h : loadCodeObject ndebug call.agent (call.alloc.map Prod.fst) call.options call.code
      s.exec = some (status, t))
    (halloc : ∀ a ∈ call.alloc, ∀ c ∈ call.code, ∀ last ∈ c.dataSegments.getLast?,
      s.AllocOk (segmentSize last) a.1 a.2) : LoadStep ndebug s call (s.after call.alloc t)

/-- The file fits. -/
def CallFits (ndebug : Bool) (_ : Hosted) (call : LoadCall) : Prop :=
  ∀ c ∈ call.code, ∀ first ∈ c.dataSegments.head?, ∀ last ∈ c.dataSegments.getLast?,
    HeadersFit ndebug c.dataSegments first last

section Runs

variable {ndebug : Bool} {s : Hosted} {agent : Option ℕ} {c : CodeObject} {t : Executable}

theorem Hosted.Inv.start : Hosted.Inv ndebug {} where
  hosts := rfl
  listed := rfl
  memory _ _ _ h := nomatch h
  asserts _ h := nomatch h
  apart := .nil

/-- The segment that is loaded is where it was allocated. -/
theorem place_of_load {ds : List DataSegment} {seg seg' : Segment}
    (h : loadSegmentsV3 ndebug ds seg = some seg') : seg'.place = seg.place := by
  obtain ⟨hall, hnot⟩ := loadSegmentsV3_eq ndebug ds seg
  by_cases htakes : ∀ d ∈ ds, seg.Takes ndebug d
  · rw [← Option.some.inj ((hall htakes).symm.trans h)]
    rfl
  · exact nomatch (hnot htakes).symm.trans h

/-- **`LoadSegments`** fails with nothing changed, or adds the segment that it has copied. -/
theorem loadSegments_cases {alloc : Option ℕ} {status : Status}
    (h : loadSegments ndebug alloc c (s.exec.register agent) = some (status, t)) :
    (status ≠ .success ∧ t = s.exec.register agent) ∨
      ∃ first ∈ c.dataSegments.head?, ∃ last ∈ c.dataSegments.getLast?, ∃ ptr ∈ alloc, ∃ seg,
        loadSegmentsV3 ndebug c.dataSegments (newSegment ptr first last) = some seg ∧
          status = .success ∧ t.segments = s.exec.segments ++ [seg] ∧
            t.loadedSegments = s.exec.loadedSegments ++ [s.exec.segments.length] := by
  unfold loadSegments at h
  split at h
  · rename_i first last hfirst hlast
    cases alloc with
    | none =>
      obtain ⟨hstatus, ht⟩ := Prod.mk.inj (Option.some.inj h)
      exact .inl ⟨hstatus ▸ nofun, ht.symm⟩
    | some ptr =>
      dsimp only at h
      cases hload : loadSegmentsV3 ndebug c.dataSegments (newSegment ptr first last) with
      | none =>
        rw [hload] at h
        exact nomatch h
      | some seg =>
        rw [hload] at h
        obtain ⟨hstatus, rfl⟩ := Prod.mk.inj (Option.some.inj h)
        refine .inr ⟨first, hfirst, last, hlast, ptr, rfl, seg, hload, hstatus.symm, rfl, ?_⟩
        unfold Executable.loadedSegments Executable.register
        dsimp only
        rw [List.modifyLast_concat, List.flatMap_append, List.flatMap_singleton]
        rfl
  · obtain ⟨hstatus, ht⟩ := Prod.mk.inj (Option.some.inj h)
    exact .inl ⟨hstatus ▸ nofun, ht.symm⟩

/-- Symbols leave the segments alone. -/
theorem places_of_defines {defs : List SymbolV3} {s t : Executable} (h : Defines agent defs s t) :
    t.places = s.places ∧ t.loadedSegments = s.loadedSegments := by
  rw [h.rest]
  exact ⟨rfl, rfl⟩

/-- A copy leaves the place. -/
theorem place_of_copy {seg seg' : Segment} {addr : ℕ} {src : List UInt8}
    (h : seg.copy ndebug addr src = some seg') : seg'.place = seg.place := by
  unfold Segment.copy at h
  split at h
  · rw [← Option.some.inj h]
  · split at h
    · exact nomatch h
    · split at h
      · rw [← Option.some.inj h]
        rfl
      · exact nomatch h

theorem set_self_of_getElem? {α : Type*} {l : List α} {i : ℕ} {a : α} (h : l[i]? = some a) :
    l.set i a = l := by
  obtain ⟨hi, rfl⟩ := List.getElem?_eq_some_iff.1 h
  exact List.set_getElem_self hi

/-- A relocation leaves the places. -/
theorem places_of_relocation {sec : RelocationSection} {rel : RelocationV3} {s t : Executable}
    {status : Status} (h : applyDynamicRelocationV3 ndebug sec rel s = some (status, t)) :
    t.places = s.places ∧ t.loadedSegments = s.loadedSegments := by
  unfold applyDynamicRelocationV3 at h
  dsimp only at h
  split at h
  · split at h
    · rename_i i _ _ _ relSeg _ hrel _
      split at h
      · exact nomatch h
      · split at h
        · exact nomatch h
        · rename_i hcopy
          obtain ⟨-, rfl⟩ := Prod.mk.inj (Option.some.inj h)
          refine ⟨?_, rfl⟩
          have hplace := place_of_copy hcopy
          unfold Executable.places
          dsimp only
          rw [List.map_set, hplace]
          refine set_self_of_getElem? ?_
          rw [List.getElem?_map, hrel, Option.map_some]
    · exact nomatch h
  · exact nomatch h

theorem places_of_dynamic {sec : RelocationSection} {rels : List RelocationV3} {s t : Executable}
    {status : Status} (h : applyDynamicRelocationsV3 ndebug sec rels s = some (status, t)) :
    t.places = s.places ∧ t.loadedSegments = s.loadedSegments := by
  induction rels generalizing s with
  | nil =>
    obtain ⟨-, rfl⟩ := Prod.mk.inj (Option.some.inj h)
    exact ⟨rfl, rfl⟩
  | cons rel rels ih =>
    rw [applyDynamicRelocationsV3] at h
    split at h
    · cases h
    · rename_i hone
      obtain ⟨hplaces, hlisted⟩ := places_of_relocation hone
      obtain ⟨hplaces', hlisted'⟩ := ih h
      exact ⟨hplaces'.trans hplaces, hlisted'.trans hlisted⟩
    · rename_i hone
      obtain ⟨-, rfl⟩ := Prod.mk.inj (Option.some.inj h)
      exact places_of_relocation hone

/-- **Relocations leave the places.** -/
theorem places_of_relocations {secs : List RelocationSection} {s t : Executable} {status : Status}
    (h : applyRelocationsV3 ndebug secs s = some (status, t)) :
    t.places = s.places ∧ t.loadedSegments = s.loadedSegments := by
  induction secs generalizing s with
  | nil =>
    obtain ⟨-, rfl⟩ := Prod.mk.inj (Option.some.inj h)
    exact ⟨rfl, rfl⟩
  | cons sec secs ih =>
    rw [applyRelocationsV3] at h
    split at h
    · cases h
    · rename_i target _
      have hone : ∀ {status : Status} {u : Executable},
          (if target.isStatic then applyStaticRelocationSectionV3 sec s
            else applyDynamicRelocationsV3 ndebug sec sec.entries s) = some (status, u) →
          u.places = s.places ∧ u.loadedSegments = s.loadedSegments := by
        intro status u hu
        split at hu
        · unfold applyStaticRelocationSectionV3 at hu
          split at hu
          · obtain ⟨-, rfl⟩ := Prod.mk.inj (Option.some.inj hu)
            exact ⟨rfl, rfl⟩
          · obtain ⟨-, rfl⟩ := Prod.mk.inj (Option.some.inj hu)
            exact ⟨rfl, rfl⟩
        · exact places_of_dynamic hu
      split at h
      · cases h
      · rename_i hsec
        obtain ⟨hplaces, hlisted⟩ := hone hsec
        obtain ⟨hplaces', hlisted'⟩ := ih h
        exact ⟨hplaces'.trans hplaces, hlisted'.trans hlisted⟩
      · rename_i hsec
        obtain ⟨-, rfl⟩ := Prod.mk.inj (Option.some.inj h)
        exact hone hsec

theorem loadSymbols_places {syms : List SymbolV3} {s t : Executable} {status : Status}
    (h : loadSymbols ndebug agent syms s = some (status, t)) :
    t.places = s.places ∧ t.loadedSegments = s.loadedSegments := by
  obtain ⟨hsuccess, hfailure⟩ := loadSymbols_spec h
  by_cases hstatus : status = .success
  · exact places_of_defines (hsuccess hstatus)
  · obtain ⟨pre, sym, post, -, hdefines, -⟩ := hfailure hstatus
    exact places_of_defines hdefines

/-- **After the segments, a load changes no place.** -/
theorem places_of_load {alloc : Option ℕ} {s t : Executable} {status : Status}
    (h : loadRegistered ndebug agent alloc c s = some (status, t)) :
    ∃ status' u, loadSegments ndebug alloc c s = some (status', u) ∧ t.places = u.places ∧
      t.loadedSegments = u.loadedSegments := by
  unfold loadRegistered at h
  split at h
  · exact nomatch h
  · rename_i u hsegments
    refine ⟨_, u, hsegments, ?_⟩
    split at h
    · exact nomatch h
    · rename_i hsymbols
      obtain ⟨hplaces, hlisted⟩ := loadSymbols_places hsymbols
      obtain ⟨hplaces', hlisted'⟩ := places_of_relocations h
      exact ⟨hplaces'.trans hplaces, hlisted'.trans hlisted⟩
    · rename_i hsymbols
      obtain ⟨-, rfl⟩ := Prod.mk.inj (Option.some.inj h)
      exact loadSymbols_places hsymbols
  · rename_i hsegments
    obtain ⟨-, rfl⟩ := Prod.mk.inj (Option.some.inj h)
    exact ⟨_, _, hsegments, rfl, rfl⟩

theorem loadedSegments_register {s : Executable} :
    (s.register agent).loadedSegments = s.loadedSegments := by
  unfold Executable.loadedSegments Executable.register
  dsimp only
  rw [List.flatMap_append, List.flatMap_singleton, List.append_nil]

/-- The hosts after a load that adds no segment. -/
theorem after_same {alloc : Option (ℕ × ℕ)} (h : s.Inv ndebug)
    (hplaces : t.places = s.exec.places) : s.after alloc t = ⟨t, s.hosts⟩ := by
  have hlength : t.segments.length = s.hosts.length := by
    rw [h.hosts, ← hplaces]
    exact (List.length_map ..).symm
  unfold Hosted.after
  rw [hlength, List.take_left]

/-- **A load keeps the invariant**, if the file fits. -/
theorem Hosted.Inv.load (h : s.Inv ndebug) {call : LoadCall} {status : Status}
    (hload : loadCodeObject ndebug call.agent (call.alloc.map Prod.fst) call.options call.code
      s.exec = some (status, t))
    (halloc : ∀ a ∈ call.alloc, ∀ c ∈ call.code, ∀ last ∈ c.dataSegments.getLast?,
      s.AllocOk (segmentSize last) a.1 a.2)
    (hfits : CallFits ndebug s call) : (s.after call.alloc t).Inv ndebug := by
  have hsame : t = s.exec → (s.after call.alloc t).Inv ndebug := by
    rintro rfl
    rw [after_same h rfl]
    exact h
  unfold loadCodeObject at hload
  split at hload
  · exact hsame (Prod.mk.inj (Option.some.inj hload)).2.symm
  split at hload
  · exact hsame (Prod.mk.inj (Option.some.inj hload)).2.symm
  split at hload
  · exact hsame (Prod.mk.inj (Option.some.inj hload)).2.symm
  rename_i c hcode
  obtain ⟨status', u, hsegments, hplaces, hlisted⟩ := places_of_load hload
  rcases loadSegments_cases hsegments with ⟨-, rfl⟩ |
    ⟨first, hfirst, last, hlast, ptr, hptr, seg, hcopied, -, hu, hulisted⟩
  · have hplaces' : t.places = s.exec.places := hplaces
    rw [after_same h hplaces']
    exact h.congr hplaces' (hlisted.trans loadedSegments_register)
  · obtain ⟨⟨ptr', host⟩, ha, rfl⟩ := Option.map_eq_some_iff.1 hptr
    have hplace := place_of_load hcopied
    injection hplace with hp hs hv
    have hok := halloc _ ha c hcode last hlast
    have hhead := hfits c hcode first hfirst last hlast
    have hinv : Hosted.Inv ndebug ⟨u, s.hosts ++ [host]⟩ := by
      refine h.push seg ?_ ?_ hu hulisted
      · rw [hp, hs]
        exact hok
      · rw [hv, hs]
        exact hhead.asserts.imp id And.left
    have hhosts : (s.hosts ++ call.alloc.toList.map Prod.snd).take t.segments.length =
        s.hosts ++ [host] := by
      have hlength : t.segments.length = (s.hosts ++ [host]).length := by
        have hplaces' := congrArg List.length hplaces
        have hinv' := hinv.hosts
        unfold Executable.places at hplaces' hinv'
        rw [List.length_map] at hplaces'
        exact hplaces'.trans hinv'.symm
      rw [Option.mem_def.1 ha, hlength]
      exact List.take_length ..
    unfold Hosted.after
    rw [hhosts]
    exact hinv.congr hplaces hlisted

/-- A segment whose own address is not in it is in the way of every address behind it. -/
theorem Hosted.Inv.not_finds (h : s.Inv ndebug) {seg : Segment} {ptr host : ℕ} (hpos : 0 < ptr)
    (hptr : seg.ptr = ptr)
    (hbad : ¬(ndebug = true ∨ seg.vaddr < u64 (seg.vaddr + seg.size)))
    (hsegments : t.segments = s.exec.segments ++ [seg])
    (hlisted : t.loadedSegments = s.exec.loadedSegments ++ [s.exec.segments.length]) :
    ¬Hosted.Finds ndebug ⟨t, s.hosts ++ [host]⟩ := by
  intro hfinds
  have hlength : s.exec.places.length = s.exec.segments.length := List.length_map ..
  -- The address zero is in no segment.
  have hzero : ∀ seg' ∈ t.segments, 0 < seg'.ptr ∨ seg'.ptr + seg'.size ≤ 0 := by
    rw [hsegments]
    refine List.forall_mem_append.2 ⟨fun seg' hseg' => .inl ?_, fun seg' hseg' => .inl ?_⟩
    · obtain ⟨i, hi⟩ := List.getElem?_of_mem hseg'
      have hlt := (List.getElem?_eq_some_iff.1 hi).1
      obtain ⟨seg'', host', hseg'', hhost, hplace⟩ := h.get (hlength ▸ hlt)
      obtain rfl := Option.some.inj (hi.symm.trans hseg'')
      exact (h.memory i _ host' hplace hhost).1
    · rw [List.mem_singleton.1 hseg', hptr]
      exact hpos
  have hbefore : ∀ i ∈ s.exec.loadedSegments, ∃ seg' host', t.segments[i]? = some seg' ∧
      (s.hosts ++ [host])[i]? = some host' ∧ seg'.hostAddress ndebug host' 0 = some none := by
    intro i hi
    rw [h.listed] at hi
    have hlt := List.mem_range.1 hi
    obtain ⟨seg', host', hseg', hhost, hplace⟩ := h.get hlt
    refine ⟨seg', host', ?_, ?_, ?_⟩
    · rw [hsegments, List.getElem?_append_left (hlength ▸ hlt)]
      exact hseg'
    · rw [List.getElem?_append_left (h.hosts ▸ hlt)]
      exact hhost
    · rw [h.hostAddress 0 hseg' hhost, if_neg]
      have hpos' := (h.memory i _ host' hplace hhost).1
      unfold Segment.place at hpos'
      dsimp only at hpos'
      omega
  have hnone : Hosted.findHostAddress ndebug ⟨t, s.hosts ++ [host]⟩ 0 = none := by
    have hseg : t.segments[s.exec.segments.length]? = some seg := by
      rw [hsegments, List.getElem?_concat_length]
    have hhost : (s.hosts ++ [host])[s.exec.segments.length]? = some host := by
      rw [← hlength, ← h.hosts, List.getElem?_concat_length]
    unfold Hosted.findHostAddress
    dsimp only
    rw [hlisted, findIn_append hbefore, Hosted.findIn]
    dsimp only
    rw [hseg, hhost]
    dsimp only
    rw [hostAddress_assert hbad]
  exact nomatch (hfinds.outside 0 hzero).symm.trans hnone

/-- **The segments of a file are loaded as they should be if and only if the file fits.** -/
theorem loadsRight_iff (h : s.Inv ndebug) {first last : DataSegment} {ptr host : ℕ}
    (hword : ∀ d ∈ c.dataSegments, d.vaddr < 2 ^ 64) (hfirst : c.dataSegments.head? = some first)
    (hlast : c.dataSegments.getLast? = some last)
    (hok : s.AllocOk (segmentSize last) ptr host) :
    LoadsRight ndebug s agent c ptr host ↔ HeadersFit ndebug c.dataSegments first last := by
  have hmem : first ∈ c.dataSegments := List.mem_of_mem_head? hfirst
  have hhas := has_iff ndebug last ptr hword hmem
  constructor
  · rintro ⟨t, seg, hload, hsegments, -, hseg, hfinds⟩
    rcases loadSegments_cases hload with ⟨hstatus, -⟩ |
      ⟨first', hfirst', last', hlast', ptr', hptr', seg', hcopied, -, hsegments', hlisted⟩
    · exact absurd rfl hstatus
    obtain rfl := Option.some.inj (hfirst.symm.trans hfirst')
    obtain rfl := Option.some.inj (hlast.symm.trans hlast')
    obtain rfl := Option.some.inj hptr'
    obtain rfl : seg = seg' := by
      rw [hsegments] at hsegments'
      exact List.singleton_inj.1 (List.append_cancel_left hsegments')
    obtain ⟨hlow, hfits, hagree, hasserts⟩ := hhas.1 ⟨seg, hcopied, hseg⟩
    refine ⟨hlow, hfits, hagree, ?_⟩
    by_cases hn : ndebug = true
    · exact .inl hn
    refine .inr ⟨?_, hasserts.resolve_left hn⟩
    by_contra hbad
    have hplace := place_of_load hcopied
    injection hplace with hp hs hv
    have hbad' : ¬(ndebug = true ∨ seg.vaddr < u64 (seg.vaddr + seg.size)) := by
      rw [hv, hs]
      exact not_or.2 ⟨hn, hbad⟩
    exact h.not_finds hok.pos hp hbad' hsegments hlisted hfinds
  · intro hfit
    obtain ⟨seg, hcopied, hseg⟩ := hhas.2 ⟨hfit.lowest, hfit.fits, hfit.agree,
      hfit.asserts.imp id And.right⟩
    obtain ⟨t, hload⟩ : ∃ t, loadSegments ndebug (some ptr) c (s.exec.register agent) =
        some (.success, t) := by
      unfold loadSegments
      rw [hfirst, hlast]
      dsimp only
      rw [hcopied]
      exact ⟨_, rfl⟩
    rcases loadSegments_cases hload with ⟨hstatus, -⟩ |
      ⟨first', hfirst', last', hlast', ptr', hptr', seg', hcopied', -, hsegments, hlisted⟩
    · exact absurd rfl hstatus
    obtain rfl := Option.some.inj (hfirst.symm.trans hfirst')
    obtain rfl := Option.some.inj (hlast.symm.trans hlast')
    obtain rfl := Option.some.inj hptr'
    obtain rfl := Option.some.inj (hcopied.symm.trans hcopied')
    have hplace := place_of_load hcopied
    injection hplace with hp hs hv
    have hinv : Hosted.Inv ndebug ⟨t, s.hosts ++ [host]⟩ := by
      refine h.push seg ?_ ?_ hsegments hlisted
      · rw [hp, hs]
        exact hok
      · rw [hv, hs]
        exact hfit.asserts.imp id And.left
    exact ⟨t, seg, hload, hsegments, hp, hseg, hinv.finds⟩

/-- **In every run that loads files that fit, the segments of a file are loaded as they should be if
and only if this file fits**; and host addresses are found. -/
theorem loaded_of_run {ops : List LoadCall}
    (hrun : Run (Guarded (CallFits ndebug) (LoadStep ndebug)) {} ops s) {first last : DataSegment}
    {ptr host : ℕ} (hword : ∀ d ∈ c.dataSegments, d.vaddr < 2 ^ 64)
    (hfirst : c.dataSegments.head? = some first) (hlast : c.dataSegments.getLast? = some last)
    (hok : s.AllocOk (segmentSize last) ptr host) :
    (LoadsRight ndebug s agent c ptr host ↔ HeadersFit ndebug c.dataSegments first last) ∧
      s.Finds ndebug := by
  have hinv : s.Inv ndebug := by
    refine hrun.inv ?_ .start
    rintro s call t h ⟨hfits, ⟨hload, halloc⟩⟩
    exact h.load hload halloc hfits
  exact ⟨loadsRight_iff hinv hword hfirst hlast hok, hinv.finds⟩

/-- Text of four bytes, and data of four bytes and as many zeros. -/
def twoSegments : CodeObject where
  dataSegments := [⟨4096, 4, 0, [1, 2, 3, 4]⟩, ⟨8192, 8, 64, [5, 6, 7, 8]⟩]
  symbols := []
  relocationSections := []

theorem twoSegments_fit : HeadersFit false twoSegments.dataSegments ⟨4096, 4, 0, [1, 2, 3, 4]⟩
    ⟨8192, 8, 64, [5, 6, 7, 8]⟩ where
  lowest _ := by decide
  fits := by decide
  agree := by decide
  asserts := .inr (by decide)

/-- The file is loaded, and loaded once more. -/
theorem loaded_of_run_twice :
    ∃ s, Run (Guarded (CallFits false) (LoadStep false)) {}
        [⟨some 1, some (65536, 1048576), true, some twoSegments⟩] s ∧
      LoadsRight false s (some 1) twoSegments 131072 2097152 ∧
        s.findHostAddress false 69633 = some 1052673 := by
  have hfits : CallFits false {} ⟨some 1, some (65536, 1048576), true, some twoSegments⟩ := by
    intro c hc first hfirst last hlast
    obtain rfl := Option.some.inj hc
    obtain rfl := Option.some.inj hfirst
    obtain rfl := Option.some.inj hlast
    exact twoSegments_fit
  have halloc : ∀ a ∈ some (65536, 1048576), ∀ c ∈ some twoSegments,
      ∀ last ∈ c.dataSegments.getLast?, Hosted.AllocOk {} (segmentSize last) a.1 a.2 := by
    intro a ha c hc last hlast
    obtain rfl := Option.some.inj ha
    obtain rfl := Option.some.inj hc
    obtain rfl := Option.some.inj hlast
    exact ⟨by decide, by decide, by decide, fun _ hseg => nomatch hseg⟩
  obtain ⟨s, hrun, hplaces⟩ : ∃ s, Run (Guarded (CallFits false) (LoadStep false)) {}
      [⟨some 1, some (65536, 1048576), true, some twoSegments⟩] s ∧
        s.exec.segments.map (fun seg => (seg.ptr, seg.size)) = [(65536, 8200)] ∧
          s.hosts = [1048576] :=
    ⟨_, .cons ⟨hfits, .load rfl halloc⟩ (.nil _), rfl, rfl⟩
  obtain ⟨hsegments, hhosts⟩ := hplaces
  have hok : s.AllocOk (segmentSize ⟨8192, 8, 64, [5, 6, 7, 8]⟩) 131072 2097152 := by
    refine ⟨by decide, by decide, by decide, fun seg hseg => ?_⟩
    have := List.mem_map_of_mem (f := fun seg : Segment => (seg.ptr, seg.size)) hseg
    rw [hsegments, List.mem_singleton] at this
    obtain ⟨hptr, hsize⟩ := Prod.mk.inj this
    rw [hptr, hsize]
    exact .inl (by decide)
  have hloaded : (LoadsRight false s (some 1) twoSegments 131072 2097152 ↔ _) ∧ s.Finds false :=
    loaded_of_run hrun (by decide) rfl rfl hok
  obtain ⟨hright, hfinds⟩ := hloaded
  refine ⟨s, hrun, hright.2 twoSegments_fit, ?_⟩
  obtain ⟨seg, hone⟩ := List.length_eq_one_iff.1 (by
    rw [← List.length_map (f := fun seg : Segment => (seg.ptr, seg.size)), hsegments]
    rfl : s.exec.segments.length = 1)
  rw [hone] at hsegments
  obtain ⟨hptr, hsize⟩ := Prod.mk.inj (List.singleton_inj.1 hsegments)
  have := hfinds.inside 0 seg 1048576 (by rw [hone]; rfl) (by rw [hhosts]; rfl) 4097
    (by rw [hsize]; decide)
  rwa [hptr] at this

/-- Two segments in ascending order; the last one ends before the first one does. -/
def nested : CodeObject where
  dataSegments := [⟨0, 32, 0, List.replicate 32 1⟩, ⟨16, 8, 64, List.replicate 8 1⟩]
  symbols := []
  relocationSections := []

/-- **The first segment is copied past the end of the allocation**, which is as long as the last one
needs it: 32 bytes into 24. -/
theorem nested_is_not_loaded :
    ¬LoadsRight true {} (some 1) nested 65536 1048576 ∧
      loadSegments true (some 65536) nested (({} : Executable).register (some 1)) = none ∧
        segmentSize ⟨16, 8, 64, List.replicate 8 1⟩ = 24 := by
  have hnone : loadSegments true (some 65536) nested (({} : Executable).register (some 1)) = none :=
    rfl
  refine ⟨?_, hnone, rfl⟩
  rintro ⟨t, seg, hload, -⟩
  exact nomatch hnone.symm.trans hload

end Runs

end Codrive.Loader
