/-
# The image after relocation

The image of a code object that is loaded with success, against the file.  The way a relocation
section is sent depends on the type of its target section where the flags are meant: what goes the
static way is not written at all, and what goes the dynamic way is written with eight bytes for
every type, the type for no relocation included.  `RelocOk` says for which files that is what the
types define; their widths are a parameter.
-/

import Codrive.Loader.LoadFailure

namespace Codrive.Loader

open Codrive.Basis

/-! ### What the types define -/

/-- The target section is allocated. -/
def RelocationSection.Allocated (sec : RelocationSection) : Prop :=
  ∃ target, sec.target = some target ∧ target.flags &&& SHF_ALLOC ≠ 0

/-- What goes from an address of the file to the loaded address: where the first segment is loaded,
less its address. -/
def loadBase (ptr : ℕ) (c : CodeObject) : ℕ := sub64 ptr (c.dataSegments.head?.elim 0 (·.vaddr))

/-- The value that a type defines, for the types that name one: `S + A`, `S + A - P`, `S` and
`B + A`, of the loaded addresses. -/
def defined (base S : ℕ) (rel : RelocationV3) : Option ℕ :=
  match rel.type with
  | 1 => some (u64 (base + S + rel.addend))
  | 2 => some (sub64 (u64 (base + S + rel.addend)) (u64 (base + rel.offset)))
  | 6 => some (u64 (base + S))
  | 7 => some (u64 (base + S))
  | 8 => some (u64 (base + rel.addend))
  | _ => none

/-- **The image is relocated**: it has the value of every relocation of an allocated section, with
the width of its type, and what no relocation covers is as the segments were loaded. -/
structure Relocated (width : ℕ → ℕ) (base vaddr : ℕ) (c : CodeObject) (img₀ img : Image) :
    Prop where
  holds : ∀ sec ∈ c.relocationSections, sec.Allocated → ∀ rel ∈ sec.entries, ∀ v,
    defined base (symbolValue sec rel) rel = some v →
      img.Holds (rel.offset - vaddr) (width rel.type) v
  frame : ∀ i, (∀ sec ∈ c.relocationSections, ∀ rel ∈ sec.entries, rel.type ≠ 0 →
    vaddr + i < rel.offset ∨ rel.offset + width rel.type ≤ vaddr + i) → img i = img₀ i

/-! ### What is written -/

/-- The section goes the dynamic way. -/
def RelocationSection.dynamic (sec : RelocationSection) : Bool :=
  sec.target.any fun t => !t.isStatic

/-- The relocations that go the dynamic way, with their sections, in order. -/
def CodeObject.dynamicRelocations (c : CodeObject) : List (RelocationSection × RelocationV3) :=
  (c.relocationSections.filter (·.dynamic)).flatMap fun sec => sec.entries.map (sec, ·)

/-- The relocation of an allocated section has a value. -/
def HasValue (p : RelocationSection × RelocationV3) : Prop :=
  p.1.Allocated ∧ p.2.type ∈ [1, 2, 6, 7, 8]

/-- What the code makes of a relocation: the loaded address of `rel.calcValue`. -/
def written (base : ℕ) (p : RelocationSection × RelocationV3) : ℕ :=
  u64 (base + calcValue (symbolValue p.1 p.2) p.2)

/-- Two relocations of eight bytes have the same bytes where they overlap. -/
def Compatible (base : ℕ) (p q : RelocationSection × RelocationV3) : Prop :=
  ∀ i < 8, ∀ j < 8, p.2.offset + i = q.2.offset + j →
    byteOf (written base q) j = byteOf (written base p) i

/-- **The files that are relocated as the types define.**

* What goes the static way in an allocated section has no value.
* What goes the dynamic way has a type with eight bytes, and if it is relative to its place in an
  allocated section, the file is loaded at its own addresses.
* What is written after a value is the same where it overlaps it. -/
structure RelocOk (width : ℕ → ℕ) (base : ℕ) (c : CodeObject) : Prop where
  static : ∀ sec ∈ c.relocationSections, sec.Allocated → sec.dynamic = false →
    ∀ rel ∈ sec.entries, rel.type ∉ [1, 2, 6, 7, 8]
  dynamic : ∀ p ∈ c.dynamicRelocations, p.2.type ≠ 0 ∧ width p.2.type = 8 ∧
    (p.1.Allocated → p.2.type = 2 → base = 0)
  compatible : c.dynamicRelocations.Pairwise fun p q => HasValue p → Compatible base p q

/-- The write of a relocation into a segment. -/
def Segment.relocation (seg : Segment) (p : RelocationSection × RelocationV3) : ℕ × List UInt8 :=
  (sub64 p.2.offset seg.vaddr,
    leBytes 8 (u64 (seg.ptr + sub64 (calcValue (symbolValue p.1 p.2) p.2) seg.vaddr)))

section

variable {ndebug : Bool} {agent : Option ℕ} {s t u : Executable} {e : Status} {seg : Segment}
  {sec : RelocationSection} {rel : RelocationV3} {rels : List RelocationV3}
  {secs : List RelocationSection}

/-- The executable while a code object is relocated: one segment is that of the code object. -/
structure Loading (s : Executable) (init : List Segment) (seg : Segment) : Prop where
  back : s.backSegments = [init.length]
  segments : s.segments = init ++ [seg]

variable {init : List Segment}

theorem Loading.segment_eq (h : Loading s init seg) : s.segments[init.length]? = some seg := by
  rw [h.segments]
  simp

/-- An address is looked up in the one segment. -/
theorem Loading.virtualAddressSegment (h : Loading s init seg) {addr i : ℕ}
    (hi : s.virtualAddressSegment addr = some i) :
    i = init.length ∧ seg.isAddressInSegment addr = true := by
  have hmem := List.mem_of_find?_eq_some hi
  rw [h.back, List.mem_singleton] at hmem
  have hp := List.find?_some hi
  rw [hmem, h.segment_eq] at hp
  exact ⟨hmem, hp⟩

/-- What a copy writes. -/
theorem Segment.copy_eq {addr : ℕ} {src : List UInt8} {seg' : Segment} (hne : src ≠ [])
    (h : seg.copy ndebug addr src = some seg') :
    seg' = { seg with image := seg.image.write (sub64 addr seg.vaddr) src } := by
  unfold Segment.copy at h
  rw [if_neg hne] at h
  split at h
  · cases h
  · rename_i o ho
    split_ifs at h
    cases h
    obtain ⟨-, -, rfl⟩ := Option.map_eq_some_iff.1 ho
    rfl

theorem Segment.address_eq {addr a : ℕ} (h : seg.address ndebug addr = some a) :
    a = u64 (seg.ptr + sub64 addr seg.vaddr) := by
  obtain ⟨o, ho, rfl⟩ := Option.map_eq_some_iff.1 h
  obtain ⟨-, -, rfl⟩ := Option.map_eq_some_iff.1 ho
  rfl

/-- **A dynamic relocation** is one write, at an address of the segment. -/
theorem applyDynamicRelocationV3_eq (h : Loading s init seg)
    (hstep : applyDynamicRelocationV3 ndebug sec rel s = some (e, t)) :
    seg.isAddressInSegment rel.offset = true ∧
      Loading t init { seg with image := seg.image.writeAll [seg.relocation (sec, rel)] } := by
  unfold applyDynamicRelocationV3 at hstep
  dsimp only at hstep
  split at hstep
  · rename_i i j hi hj
    obtain ⟨rfl, hin⟩ := h.virtualAddressSegment hi
    obtain ⟨rfl, -⟩ := h.virtualAddressSegment hj
    rw [h.segment_eq] at hstep
    dsimp only at hstep
    split at hstep
    · cases hstep
    · rename_i symAddr haddr
      split at hstep
      · cases hstep
      · rename_i seg' hcopy
        cases hstep
        obtain rfl := Segment.address_eq haddr
        have hne :
            leBytes 8 (u64 (seg.ptr + sub64 (calcValue (symbolValue sec rel) rel) seg.vaddr)) ≠
            [] := by
          intro hnil
          have := congrArg List.length hnil
          simp at this
        obtain rfl := Segment.copy_eq hne hcopy
        refine ⟨hin, h.back, ?_⟩
        dsimp only
        rw [h.segments, List.set_append_right _ _ (Nat.le_refl _), Nat.sub_self]
        rfl
  · cases hstep

/-- The relocations of some sections that go the dynamic way. -/
def dynamicOf (secs : List RelocationSection) : List (RelocationSection × RelocationV3) :=
  (secs.filter (·.dynamic)).flatMap fun sec => sec.entries.map (sec, ·)

/-- The segment after some relocations. -/
def Segment.relocated (seg : Segment) (ps : List (RelocationSection × RelocationV3)) : Segment :=
  { seg with image := seg.image.writeAll (ps.map seg.relocation) }

theorem Segment.relocated_append (seg : Segment) (ps qs : List (RelocationSection × RelocationV3)) :
    (seg.relocated ps).relocated qs = seg.relocated (ps ++ qs) := by
  unfold Segment.relocated Image.writeAll
  rw [List.map_append, List.foldl_append]
  rfl

/-- **The relocations of a section that go the dynamic way** are its writes, one after the other. -/
theorem applyDynamicRelocationsV3_eq (h : Loading s init seg)
    (hrun : applyDynamicRelocationsV3 ndebug sec rels s = some (e, t)) :
    (∀ rel ∈ rels, seg.isAddressInSegment rel.offset = true) ∧
      Loading t init (seg.relocated (rels.map (sec, ·))) := by
  induction rels generalizing s seg with
  | nil =>
    cases hrun
    exact ⟨by simp, h⟩
  | cons rel rels ih =>
    have hsuccess := applyDynamicRelocationsV3_success hrun
    rw [applyDynamicRelocationsV3] at hrun
    split at hrun
    · cases hrun
    · rename_i u hone
      obtain ⟨hin, hu⟩ := applyDynamicRelocationV3_eq h hone
      obtain ⟨hall, ht⟩ := ih hu hrun
      refine ⟨?_, ?_⟩
      · intro r hr
        rcases List.mem_cons.1 hr with rfl | hr
        · exact hin
        · exact hall r hr
      · have := Segment.relocated_append seg [(sec, rel)] (rels.map (sec, ·))
        rw [List.map_cons, ← List.singleton_append, ← this]
        exact ht
    · rename_i hne hone
      cases hrun
      exact absurd hsuccess hne

/-- **The relocations** are the writes of those that go the dynamic way, one after the other. -/
theorem applyRelocationsV3_eq (h : Loading s init seg)
    (hrun : applyRelocationsV3 ndebug secs s = some (e, t)) :
    (∀ p ∈ dynamicOf secs, seg.isAddressInSegment p.2.offset = true) ∧
      Loading t init (seg.relocated (dynamicOf secs)) := by
  induction secs generalizing s seg with
  | nil =>
    cases hrun
    exact ⟨by simp [dynamicOf], h⟩
  | cons sec secs ih =>
    have hsuccess := applyRelocationsV3_success hrun
    rw [applyRelocationsV3] at hrun
    split at hrun
    · cases hrun
    rename_i target htarget
    by_cases hstatic : target.isStatic
    · -- nothing is written
      have hdyn : dynamicOf (sec :: secs) = dynamicOf secs := by
        simp [dynamicOf, RelocationSection.dynamic, htarget, hstatic]
      have hnone : applyStaticRelocationSectionV3 sec s = some (.success, s) := by
        unfold applyStaticRelocationSectionV3
        split <;> rfl
      rw [if_pos hstatic, hnone] at hrun
      rw [hdyn]
      exact ih h hrun
    · have hdyn : dynamicOf (sec :: secs) = sec.entries.map (sec, ·) ++ dynamicOf secs := by
        simp [dynamicOf, RelocationSection.dynamic, htarget, hstatic]
      rw [if_neg hstatic] at hrun
      split at hrun
      · cases hrun
      · rename_i u hone
        obtain ⟨hin, hu⟩ := applyDynamicRelocationsV3_eq h hone
        obtain ⟨hall, ht⟩ := ih hu hrun
        rw [Segment.relocated_append, ← hdyn] at ht
        refine ⟨?_, ht⟩
        intro p hp
        rw [hdyn] at hp
        rcases List.mem_append.1 hp with hp | hp
        · obtain ⟨rel, hrel, rfl⟩ := List.mem_map.1 hp
          exact hin rel hrel
        · exact hall p hp
      · rename_i hne hone
        cases hrun
        exact absurd hsuccess hne

end

/-! ### The image -/

/-- The segment as the segments of the file are loaded. -/
def loadedSegment (ndebug : Bool) (ptr : ℕ) (c : CodeObject) : Option Segment :=
  match c.dataSegments.head?, c.dataSegments.getLast? with
  | some first, some last => loadSegmentsV3 ndebug c.dataSegments (newSegment ptr first last)
  | _, _ => none

section

variable {ndebug options : Bool} {agent : Option ℕ} {ptr base : ℕ} {c : CodeObject}
  {s t : Executable} {seg : Segment} {width : ℕ → ℕ}

/-- Loading the file leaves the address and the place of the segment. -/
theorem loadSegmentsV3_frame {ds : List DataSegment} {seg' : Segment}
    (h : loadSegmentsV3 ndebug ds seg = some seg') :
    seg'.ptr = seg.ptr ∧ seg'.vaddr = seg.vaddr := by
  induction ds generalizing seg with
  | nil =>
    cases h
    exact ⟨rfl, rfl⟩
  | cons d ds ih =>
    rw [loadSegmentsV3] at h
    split at h
    · cases h
    · rename_i seg₁ hcopy
      obtain ⟨h₁, h₂⟩ := ih h
      by_cases hd : d.data = []
      · rw [Segment.copy, if_pos hd] at hcopy
        cases hcopy
        exact ⟨h₁, h₂⟩
      · obtain rfl := Segment.copy_eq hd hcopy
        exact ⟨h₁, h₂⟩

theorem loadedSegment_frame (h : loadedSegment ndebug ptr c = some seg) :
    seg.ptr = ptr ∧ loadBase ptr c = sub64 seg.ptr seg.vaddr := by
  unfold loadedSegment at h
  split at h
  · rename_i first last hfirst hlast
    obtain ⟨h₁, h₂⟩ := loadSegmentsV3_frame h
    refine ⟨h₁, ?_⟩
    rw [loadBase, hfirst, h₁, h₂]
    rfl
  · cases h

/-- What a load with success has loaded: one segment, relocated. -/
theorem loadCodeObject_success
    (h : loadCodeObject ndebug agent (some ptr) options (some c) s = some (.success, t)) :
    ∃ seg, loadedSegment ndebug ptr c = some seg ∧
      (∀ p ∈ c.dynamicRelocations, seg.isAddressInSegment p.2.offset = true) ∧
      t.segments = s.segments ++ [seg.relocated c.dynamicRelocations] := by
  unfold loadCodeObject at h
  split_ifs at h
  · cases h
  · cases h
  change loadRegistered ndebug agent (some ptr) c (s.register agent) = _ at h
  unfold loadRegistered at h
  split at h
  · cases h
  · rename_i u hseg
    obtain ⟨seg, hloaded, hback, hsegs⟩ : ∃ seg, loadedSegment ndebug ptr c = some seg ∧
        u.backSegments = [s.segments.length] ∧ u.segments = s.segments ++ [seg] := by
      unfold loadSegments at hseg
      split at hseg
      · rename_i first last hfirst hlast
        dsimp only at hseg
        split at hseg
        · cases hseg
        · rename_i seg hload
          cases hseg
          refine ⟨seg, ?_, ?_, rfl⟩
          · rw [loadedSegment, hfirst, hlast]
            exact hload
          · simp [Executable.backSegments, Executable.register, List.modifyLast_concat]
      · cases hseg
    split at h
    · cases h
    · rename_i v hsyms
      have hrest := ((loadSymbols_spec hsyms).1 rfl).rest
      have hloading : Loading v s.segments seg := by
        constructor
        · rw [hrest, ← hback]
          rfl
        · rw [hrest, ← hsegs]
      obtain ⟨hin, ht⟩ := applyRelocationsV3_eq hloading h
      exact ⟨seg, hloaded, hin, ht.segments⟩
    · rename_i hne _
      cases h
      exact absurd rfl hne
  · rename_i hne _
    cases h
    exact absurd rfl hne

/-- The loaded address of `rel.calcValue`, from the base. -/
theorem Segment.relocation_eq {p : RelocationSection × RelocationV3}
    (hbase : base = sub64 seg.ptr seg.vaddr) :
    seg.relocation p = (sub64 p.2.offset seg.vaddr, leBytes 8 (written base p)) := by
  have haddr (v : ℕ) : u64 (seg.ptr + sub64 v seg.vaddr) = u64 (base + v) := by
    rw [hbase]
    unfold sub64 u64 wrap
    omega
  rw [Segment.relocation, haddr, written]

/-- What is written is the value that the type defines. -/
theorem written_eq {v : ℕ} {sec : RelocationSection} {rel : RelocationV3}
    (h : defined base (symbolValue sec rel) rel = some v) (hpc : rel.type = 2 → base = 0) :
    written base (sec, rel) = v := by
  unfold defined at h
  split at h
  case h_1 htype =>
    cases h
    simp only [written, calcValue, htype]
    unfold u64 wrap
    omega
  case h_2 htype =>
    have hzero := hpc htype
    cases h
    simp only [written, calcValue, htype]
    unfold sub64 u64 wrap
    omega
  case h_6 => cases h
  all_goals
    rename_i htype
    cases h
    simp only [written, calcValue, htype]

/-- The types that name a value. -/
theorem mem_of_defined {S v : ℕ} {rel : RelocationV3} (h : defined base S rel = some v) :
    rel.type ∈ [1, 2, 6, 7, 8] := by
  unfold defined at h
  split at h
  case h_6 => cases h
  all_goals
    rename_i htype
    rw [htype]
    decide

/-- An address of the segment is at its distance from the segment's address. -/
theorem Segment.sub64_eq {addr : ℕ} (h : seg.isAddressInSegment addr = true) :
    seg.vaddr ≤ addr ∧ sub64 addr seg.vaddr = addr - seg.vaddr := by
  obtain ⟨hle, hlt⟩ := of_decide_eq_true h
  exact ⟨hle, sub64_of_le hle (Nat.lt_trans hlt (u64_lt _))⟩

/-- **The image is relocated by every load with success** of a file that is relocated as the types
define. -/
theorem relocated_of_load
    (h : loadCodeObject ndebug agent (some ptr) options (some c) s = some (.success, t))
    (hok : RelocOk width (loadBase ptr c) c) :
    ∃ seg₀ seg, loadedSegment ndebug ptr c = some seg₀ ∧ t.segments = s.segments ++ [seg] ∧
      Relocated width (loadBase ptr c) seg₀.vaddr c seg₀.image seg.image := by
  obtain ⟨seg, hloaded, hin, ht⟩ := loadCodeObject_success h
  obtain ⟨-, hbase⟩ := loadedSegment_frame hloaded
  refine ⟨seg, _, hloaded, ht, ?_, ?_⟩
  · intro sec hsec halloc rel hrel v hv
    have htype := mem_of_defined hv
    have hdyn : sec.dynamic = true := by
      by_contra hstatic
      exact hok.static sec hsec halloc (by simpa using hstatic) rel hrel htype
    have hmem : (sec, rel) ∈ c.dynamicRelocations := by
      refine List.mem_flatMap.2 ⟨sec, List.mem_filter.2 ⟨hsec, hdyn⟩, ?_⟩
      exact List.mem_map_of_mem hrel
    obtain ⟨-, hwidth, hpc⟩ := hok.dynamic _ hmem
    obtain ⟨hle, hoff⟩ := Segment.sub64_eq (hin _ hmem)
    have hwrite : seg.relocation (sec, rel) = (rel.offset - seg.vaddr, leBytes 8 v) := by
      rw [Segment.relocation_eq hbase, hoff, written_eq hv (hpc halloc)]
    -- what is written after it agrees with it
    obtain ⟨ps, qs, hsplit⟩ := List.append_of_mem hmem
    have hcompatible := hok.compatible
    rw [hsplit] at hcompatible
    have hlater := (List.pairwise_cons.1 (List.pairwise_append.1 hcompatible).2.1).1
    rw [hwidth]
    unfold Segment.relocated
    rw [hsplit, List.map_append, List.map_cons, hwrite]
    refine holds_writeAll ?_
    intro w hw i hi j hj hij
    obtain ⟨q, hq, rfl⟩ := List.mem_map.1 hw
    have hqmem : q ∈ c.dynamicRelocations := by
      rw [hsplit]
      exact List.mem_append_right _ (List.mem_cons_of_mem _ hq)
    obtain ⟨hqle, hqoff⟩ := Segment.sub64_eq (hin _ hqmem)
    rw [Segment.relocation_eq hbase, hqoff] at hj hij ⊢
    dsimp only at hle hj hij ⊢
    rw [length_leBytes] at hj
    rw [getD_leBytes hj, ← written_eq hv (hpc halloc)]
    exact hlater q hq ⟨halloc, htype⟩ i hi j hj (by dsimp only; omega)
  · intro i hout
    refine writeAll_of_outside ?_
    intro w hw
    obtain ⟨p, hp, rfl⟩ := List.mem_map.1 hw
    obtain ⟨hne, hwidth, -⟩ := hok.dynamic p hp
    obtain ⟨hle, hoff⟩ := Segment.sub64_eq (hin _ hp)
    obtain ⟨sec, hsec, hmem⟩ := List.mem_flatMap.1 hp
    obtain ⟨rel, hrel, rfl⟩ := List.mem_map.1 hmem
    have := hout sec (List.mem_filter.1 hsec).1 rel hrel hne
    rw [Segment.relocation, hoff]
    dsimp only at hwidth hle ⊢
    rw [length_leBytes]
    omega

end

/-! ### Files that are loaded -/

/-- A file with one segment of 256 bytes and one relocation, of an allocated section. -/
def oneRelocation (vaddr type : ℕ) (rel : RelocationV3) : CodeObject where
  dataSegments := [⟨vaddr, 256, 0, []⟩]
  symbols := []
  relocationSections := [⟨some ⟨type, SHF_ALLOC, vaddr, 256⟩, [vaddr + 16], [rel]⟩]

/-- A file with the address of a symbol. -/
def globDat : CodeObject := oneRelocation 0x1000 1 ⟨0x1008, 0, 6, 0⟩

theorem globDat_ok : RelocOk (fun _ => 8) (loadBase 0x8000 globDat) globDat := by
  constructor
  · intro sec hsec _ hdyn
    obtain rfl := List.mem_singleton.1 hsec
    cases hdyn
  · intro p hp
    obtain rfl := List.mem_singleton.1 hp
    exact ⟨by decide, rfl, fun _ htype => absurd htype (by decide)⟩
  · exact List.pairwise_singleton _ _

/-- The file is relocated. -/
theorem relocated_of_load_globDat :
    ∃ t, loadCodeObject false none (some 0x8000) true (some globDat) {} = some (.success, t) ∧
      ∃ seg₀ seg, loadedSegment false 0x8000 globDat = some seg₀ ∧
        t.segments = ({} : Executable).segments ++ [seg] ∧
        Relocated (fun _ => 8) (loadBase 0x8000 globDat) seg₀.vaddr globDat seg₀.image
          seg.image := by
  obtain ⟨t, ht⟩ : ∃ t, loadCodeObject false none (some 0x8000) true (some globDat) {} =
      some (.success, t) := ⟨_, rfl⟩
  exact ⟨t, ht, relocated_of_load ht globDat_ok⟩

/-- An absolute relocation of an `SHT_INIT_ARRAY` section goes the static way. -/
def initArray : CodeObject := oneRelocation 0 14 ⟨8, 0, 1, 0⟩

/-- The type for no relocation, in an `SHT_PROGBITS` section, goes the dynamic way. -/
def noneRelocation : CodeObject := oneRelocation 0 1 ⟨8, 0, 0, 0⟩

/-- **What a load with success leaves undone, and does too much**: the absolute relocation is not
applied, and the type for no relocation is written with the address of the segment. -/
theorem unapplied_and_none_written :
    (∃ t seg₀ seg, loadCodeObject false none (some 0x8000) true (some initArray) {} =
        some (.success, t) ∧ loadedSegment false 0x8000 initArray = some seg₀ ∧
      t.segments = [seg] ∧ ¬Relocated (fun _ => 4) (loadBase 0x8000 initArray) seg₀.vaddr initArray
        seg₀.image seg.image) ∧
    ∃ t seg₀ seg, loadCodeObject false none (some 0x8000) true (some noneRelocation) {} =
        some (.success, t) ∧ loadedSegment false 0x8000 noneRelocation = some seg₀ ∧
      t.segments = [seg] ∧ ¬Relocated (fun _ => 4) (loadBase 0x8000 noneRelocation) seg₀.vaddr
        noneRelocation seg₀.image seg.image := by
  constructor
  · refine ⟨_, _, _, rfl, rfl, rfl, ?_⟩
    intro hrel
    have hholds := hrel.holds _ List.mem_cons_self ⟨_, rfl, by decide⟩ _ List.mem_cons_self _ rfl
    exact absurd (hholds 0 (by decide)) (by decide)
  · refine ⟨_, _, _, rfl, rfl, rfl, ?_⟩
    intro hrel
    refine absurd (hrel.frame 9 ?_) (by decide)
    intro sec hsec rel hr hne
    obtain rfl := List.mem_singleton.1 hsec
    obtain rfl := List.mem_singleton.1 hr
    exact absurd rfl hne

end Codrive.Loader
