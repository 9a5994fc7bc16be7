/-
# The descriptors of the loaded segments

`HcsCodeLoader::QuerySegmentDescriptors`, and `GetNumSegmentDescriptors` and
`QuerySegmentDescriptors` of `ExecutableImpl`, of `src/src/drive/loader/Executable.cpp`.

| here | source |
|---|---|
| `none` in `executables` | an executable that was destroyed |
| a list of descriptors | the caller's array; `none` is a null pointer |
| `.assertion` | a failed assertion |
| `.outOfBounds` | a write outside of the caller's array |

The lists are read under their locks, which are left out.

One traversal counts the segments, and another one asserts, for each executable and for each code
object, that there are descriptors left to fill.  `descriptors_filled_iff` says when the second one
comes to its end: the assertions ask for a segment after each executable and each code object, so
the last ones must not be empty.
-/

import Codrive.Loader.Executable

namespace Codrive.Loader

open Codrive.Basis

/-- What goes wrong in a call. -/
inductive Fault
  | assertion
  | outOfBounds
  deriving DecidableEq

/-- `Segment`, with its agent and the executable that owns it. -/
structure LoadedSegment where
  seg : Segment
  agent : Option ℕ
  owner : ℕ

/-- `LoadedCodeObjectImpl`, with the segments it points to. -/
structure LoadedObject where
  elf_data : ℕ
  elf_size : ℕ
  loaded_segments : List LoadedSegment

/-- `ExecutableImpl`. -/
structure LoadedExecutable where
  loaded_code_objects : List LoadedObject

/-- `hsa_ven_amd_loader_code_object_storage_type_t`. -/
inductive StorageType
  | none
  | file
  | memory
  deriving DecidableEq

/-- `hsa_ven_amd_loader_segment_descriptor_t`. -/
structure SegmentDescriptor where
  agent : Option ℕ
  executable : ℕ
  code_object_storage_type : StorageType
  code_object_storage_base : ℕ
  code_object_storage_size : ℕ
  code_object_storage_offset : ℕ
  segment_base : ℕ
  segment_size : ℕ

/-- The status of a query. -/
inductive QueryStatus
  | success
  | invalidArgument
  deriving DecidableEq

/-- `assert`. -/
def check (ndebug c : Bool) : Except Fault Unit :=
  if ndebug || c then .ok () else .error .assertion

/-- The descriptor of a segment. -/
def LoadedObject.describe (obj : LoadedObject) (s : LoadedSegment) (segment_base : ℕ) :
    SegmentDescriptor where
  agent := s.agent
  executable := s.owner
  code_object_storage_type := .memory
  code_object_storage_base := obj.elf_data
  code_object_storage_size := obj.elf_size
  code_object_storage_offset := s.seg.storage_offset
  segment_base := segment_base
  segment_size := s.seg.size

/-- Where a traversal is: the place of the next descriptor, and the array. -/
abbrev Filling := ℕ × List SegmentDescriptor

/-- A descriptor is filled. -/
def fill (ndebug : Bool) (obj : LoadedObject) (s : LoadedSegment) (f : Filling) :
    Except Fault Filling :=
  if f.1 < f.2.length then
    match s.seg.address ndebug s.seg.vaddr with
    | none => .error .assertion
    | some segment_base => .ok (f.1 + 1, f.2.set f.1 (obj.describe s segment_base))
  else .error .outOfBounds

/-- The loop over the segments of a code object. -/
def querySegments (ndebug : Bool) (obj : LoadedObject) :
    List LoadedSegment → Filling → Except Fault Filling
  | [], f => .ok f
  | s :: segs, f => do
    let f ← fill ndebug obj s f
    querySegments ndebug obj segs f

/-- The loop over the code objects of an executable. -/
def queryObjects (ndebug : Bool) (total_num_segment_descriptors : ℕ) :
    List LoadedObject → Filling → Except Fault Filling
  | [], f => .ok f
  | obj :: objs, f => do
    check ndebug (f.1 < total_num_segment_descriptors)
    let f ← querySegments ndebug obj obj.loaded_segments f
    queryObjects ndebug total_num_segment_descriptors objs f

namespace LoadedExecutable

/-- `ExecutableImpl::GetNumSegmentDescriptors`. -/
def getNumSegmentDescriptors (e : LoadedExecutable) : ℕ :=
  (e.loaded_code_objects.map fun obj => obj.loaded_segments.length).sum

/-- `ExecutableImpl::QuerySegmentDescriptors`: the number of descriptors it has filled, and the
array. -/
def querySegmentDescriptors (ndebug : Bool) (e : LoadedExecutable)
    (segment_descriptors : List SegmentDescriptor)
    (total_num_segment_descriptors first_empty_segment_descriptor : ℕ) : Except Fault Filling := do
  check ndebug (first_empty_segment_descriptor < total_num_segment_descriptors)
  let (i, a) ← queryObjects ndebug total_num_segment_descriptors e.loaded_code_objects
    (first_empty_segment_descriptor, segment_descriptors)
  return (i - first_empty_segment_descriptor, a)

end LoadedExecutable

/-- The loop over the executables. -/
def queryExecutables (ndebug : Bool) (actual_num_segment_descriptors : ℕ) :
    List (Option LoadedExecutable) → Filling → Except Fault Filling
  | [], f => .ok f
  | none :: es, f => queryExecutables ndebug actual_num_segment_descriptors es f
  | some e :: es, f => do
    let (n, a) ← e.querySegmentDescriptors ndebug f.2 actual_num_segment_descriptors f.1
    queryExecutables ndebug actual_num_segment_descriptors es (f.1 + n, a)

/-- `actual_num_segment_descriptors`. -/
def actualNumSegmentDescriptors (executables : List (Option LoadedExecutable)) : ℕ :=
  (executables.map fun e => (e.map LoadedExecutable.getNumSegmentDescriptors).getD 0).sum

/-- `HcsCodeLoader::QuerySegmentDescriptors`: the status, the array and the number after it. -/
def querySegmentDescriptors (ndebug : Bool) (executables : List (Option LoadedExecutable))
    (segment_descriptors : Option (List SegmentDescriptor)) (num_segment_descriptors : Option ℕ) :
    Except Fault (QueryStatus × Option (List SegmentDescriptor) × Option ℕ) :=
  match num_segment_descriptors, segment_descriptors with
  | none, a => .ok (.invalidArgument, a, none)
  | some 0, some a => .ok (.invalidArgument, some a, some 0)
  | some 0, none => .ok (.success, none, some (actualNumSegmentDescriptors executables))
  | some (n + 1), none => .ok (.invalidArgument, none, some (n + 1))
  | some (n + 1), some a =>
    if n + 1 ≠ actualNumSegmentDescriptors executables then
      .ok (.invalidArgument, some a, some (n + 1))
    else do
      let (_, a) ← queryExecutables ndebug (actualNumSegmentDescriptors executables) executables
        (0, a)
      return (.success, some a, some (n + 1))

/-! ### What a query should give -/

/-- An array of so many descriptors; there is none of no descriptors. -/
def callerArray (a : List SegmentDescriptor) : Option (List SegmentDescriptor) :=
  if a = [] then none else some a

/-- The descriptors of an executable, in the order of its objects and segments. -/
def LoadedExecutable.descriptors (e : LoadedExecutable) : List SegmentDescriptor :=
  e.loaded_code_objects.flatMap fun obj =>
    obj.loaded_segments.map fun s => obj.describe s (u64 s.seg.ptr)

/-- The descriptors of the executables that are there. -/
def descriptors (executables : List (Option LoadedExecutable)) : List SegmentDescriptor :=
  (executables.filterMap id).flatMap LoadedExecutable.descriptors

/-- **What a query should give**: the count, the descriptors where it has the count, and an error
that changes nothing where it has another one. -/
structure Queried (ndebug : Bool) (executables : List (Option LoadedExecutable)) : Prop where
  count : querySegmentDescriptors ndebug executables none (some 0) =
    .ok (.success, none, some (actualNumSegmentDescriptors executables))
  fills : ∀ a, a.length = actualNumSegmentDescriptors executables →
    querySegmentDescriptors ndebug executables (callerArray a)
        (some (actualNumSegmentDescriptors executables)) =
      .ok (.success, callerArray (descriptors executables),
        some (actualNumSegmentDescriptors executables))
  wrong : ∀ a n, n ≠ actualNumSegmentDescriptors executables →
    querySegmentDescriptors ndebug executables (some a) (some n) =
      .ok (.invalidArgument, some a, some n)

/-- **The condition**: assertions are compiled out, or there are no segments, or each segment has
its own address and the last code object of the last executable has a segment. -/
def LastFilled (ndebug : Bool) (executables : List (Option LoadedExecutable)) : Prop :=
  ndebug = true ∨ actualNumSegmentDescriptors executables = 0 ∨
    (∀ e ∈ executables.filterMap id, ∀ obj ∈ e.loaded_code_objects, ∀ s ∈ obj.loaded_segments,
      s.seg.isAddressInSegment s.seg.vaddr = true) ∧
    ∃ e ∈ (executables.filterMap id).getLast?, ∃ obj ∈ e.loaded_code_objects.getLast?,
      obj.loaded_segments ≠ []

/-! ### The traversal as one list of events -/

/-- An assertion on the place, or a segment. -/
inductive Event
  | place
  | segment (obj : LoadedObject) (s : LoadedSegment)

/-- The events of a code object. -/
def LoadedObject.events (obj : LoadedObject) : List Event :=
  .place :: obj.loaded_segments.map (.segment obj)

/-- The events of an executable. -/
def LoadedExecutable.events (e : LoadedExecutable) : List Event :=
  .place :: e.loaded_code_objects.flatMap LoadedObject.events

/-- The events of a traversal. -/
def events (executables : List (Option LoadedExecutable)) : List Event :=
  (executables.filterMap id).flatMap LoadedExecutable.events

/-- The traversal of the events. -/
def runEvents (ndebug : Bool) (total : ℕ) : List Event → Filling → Except Fault Filling
  | [], f => .ok f
  | .place :: es, f => do
    check ndebug (f.1 < total)
    runEvents ndebug total es f
  | .segment obj s :: es, f => do
    let f ← fill ndebug obj s f
    runEvents ndebug total es f

/-- The descriptors of the segments among the events. -/
def described : List Event → List SegmentDescriptor
  | [] => []
  | .place :: es => described es
  | .segment obj s :: es => obj.describe s (u64 s.seg.ptr) :: described es

/-- The assertions of the events hold. -/
def Passes (ndebug : Bool) : List Event → Prop
  | [] => True
  | .place :: es => (ndebug = true ∨ 0 < (described es).length) ∧ Passes ndebug es
  | .segment _ s :: es =>
    (ndebug = true ∨ s.seg.isAddressInSegment s.seg.vaddr = true) ∧ Passes ndebug es

variable {ndebug : Bool} {total : ℕ} {es es' : List Event} {f g : Filling}

theorem runEvents_append : runEvents ndebug total (es ++ es') f =
    (runEvents ndebug total es f).bind (runEvents ndebug total es') := by
  induction es generalizing f with
  | nil => rfl
  | cons e es ih =>
    cases e with
    | place =>
      rw [List.cons_append]
      unfold runEvents
      cases check ndebug (f.1 < total) with
      | error fault => rfl
      | ok u => exact ih
    | segment obj s =>
      rw [List.cons_append]
      unfold runEvents
      cases fill ndebug obj s f with
      | error fault => rfl
      | ok f => exact ih

theorem querySegments_eq (total : ℕ) (obj : LoadedObject) (segs : List LoadedSegment) :
    querySegments ndebug obj segs f = runEvents ndebug total (segs.map (.segment obj)) f := by
  induction segs generalizing f with
  | nil => rfl
  | cons s segs ih =>
    rw [List.map_cons]
    unfold querySegments runEvents
    cases fill ndebug obj s f with
    | error fault => rfl
    | ok f => exact ih

theorem queryObjects_eq (objs : List LoadedObject) :
    queryObjects ndebug total objs f =
      runEvents ndebug total (objs.flatMap LoadedObject.events) f := by
  induction objs generalizing f with
  | nil => rfl
  | cons obj objs ih =>
    rw [List.flatMap_cons, runEvents_append]
    unfold queryObjects LoadedObject.events runEvents
    cases check ndebug (f.1 < total) with
    | error fault => rfl
    | ok u =>
      dsimp only [bind, Except.bind]
      rw [querySegments_eq total]
      cases runEvents ndebug total (obj.loaded_segments.map (.segment obj)) f with
      | error fault => rfl
      | ok f => exact ih

/-- The place never goes back. -/
theorem le_of_runEvents (h : runEvents ndebug total es f = .ok g) : f.1 ≤ g.1 := by
  induction es generalizing f with
  | nil =>
    obtain rfl := Except.ok.inj h
    exact Nat.le_refl _
  | cons e es ih =>
    cases e with
    | place =>
      unfold runEvents at h
      cases hc : check ndebug (f.1 < total) with
      | error fault =>
        rw [hc] at h
        exact nomatch h
      | ok u =>
        rw [hc] at h
        exact ih h
    | segment obj s =>
      unfold runEvents at h
      cases hf : fill ndebug obj s f with
      | error fault =>
        rw [hf] at h
        exact nomatch h
      | ok f' =>
        rw [hf] at h
        have hle : f.1 ≤ f'.1 := by
          unfold fill at hf
          split_ifs at hf
          split at hf
          · exact nomatch hf
          · rw [← Except.ok.inj hf]
            exact Nat.le_succ _
        exact Nat.le_trans hle (ih h)

theorem queryExecutables_eq (executables : List (Option LoadedExecutable)) :
    queryExecutables ndebug total executables f =
      runEvents ndebug total (events executables) f := by
  induction executables generalizing f with
  | nil => rfl
  | cons e executables ih =>
    cases e with
    | none => exact ih
    | some e =>
      have hcons : events (some e :: executables) = e.events ++ events executables :=
        List.flatMap_cons ..
      rw [hcons, runEvents_append]
      unfold queryExecutables LoadedExecutable.querySegmentDescriptors LoadedExecutable.events
        runEvents
      cases check ndebug (f.1 < total) with
      | error fault => rfl
      | ok u =>
        dsimp only [bind, Except.bind, pure, Except.pure]
        rw [queryObjects_eq]
        cases hrun : runEvents ndebug total (e.loaded_code_objects.flatMap LoadedObject.events)
            (f.1, f.2) with
        | error fault => rfl
        | ok g =>
          have hle : f.1 ≤ g.1 := le_of_runEvents hrun
          dsimp only
          rw [Nat.add_sub_cancel' hle]
          exact ih

/-! ### When the assertions hold -/

/-- A segment that has its own address is described; with assertions, another one ends the process.
-/
theorem fill_eq {obj : LoadedObject} {s : LoadedSegment} (h : f.1 < f.2.length) :
    fill ndebug obj s f =
      if ndebug || s.seg.isAddressInSegment s.seg.vaddr then
        .ok (f.1 + 1, f.2.set f.1 (obj.describe s (u64 s.seg.ptr)))
      else .error .assertion := by
  have hzero : sub64 s.seg.vaddr s.seg.vaddr = 0 := by
    unfold sub64 u64 wrap
    omega
  unfold fill Segment.address Segment.offset assert
  rw [if_pos h]
  by_cases hin : (ndebug || s.seg.isAddressInSegment s.seg.vaddr) = true
  · rw [if_pos hin, if_pos hin, Option.map_some, Option.map_some, hzero, Nat.add_zero]
  · rw [if_neg hin, if_neg hin]
    rfl

/-- **The traversal of the events fills the rest of the array, or an assertion fails.** -/
theorem runEvents_eq (hlen : f.2.length = total) (hcount : f.1 + (described es).length = total) :
    (Passes ndebug es → runEvents ndebug total es f = .ok (total, f.2.take f.1 ++ described es)) ∧
      (¬Passes ndebug es → runEvents ndebug total es f = .error .assertion) := by
  induction es generalizing f with
  | nil =>
    obtain ⟨i, a⟩ := f
    obtain rfl : i = total := hcount
    refine ⟨fun _ => ?_, fun h => absurd trivial h⟩
    unfold runEvents described
    rw [List.append_nil, List.take_of_length_le (Nat.le_of_eq hlen)]
  | cons e es ih =>
    cases e with
    | place =>
      have hplace : f.1 < total ↔ 0 < (described es).length := by
        unfold described at hcount
        omega
      unfold Passes runEvents check
      by_cases hc : (ndebug || decide (f.1 < total)) = true
      · have hpass : ndebug = true ∨ 0 < (described es).length := by
          rw [← hplace]
          simpa using hc
        rw [if_pos hc, and_iff_right hpass]
        exact ih hlen hcount
      · have hfail : ¬(ndebug = true ∨ 0 < (described es).length) := by
          rw [← hplace]
          simpa using hc
        rw [if_neg hc]
        exact ⟨fun h => absurd h.1 hfail, fun _ => rfl⟩
    | segment obj s =>
      have hroom : f.1 < f.2.length := by
        rw [hlen, ← hcount]
        exact Nat.lt_add_of_pos_right (Nat.succ_pos _)
      unfold Passes runEvents
      rw [fill_eq hroom]
      by_cases hc : (ndebug || s.seg.isAddressInSegment s.seg.vaddr) = true
      · have hpass : ndebug = true ∨ s.seg.isAddressInSegment s.seg.vaddr = true := by
          simpa using hc
        rw [if_pos hc, and_iff_right hpass]
        -- The descriptor stands behind those that were filled before.
        have htake : (f.2.set f.1 (obj.describe s (u64 s.seg.ptr))).take (f.1 + 1) =
            f.2.take f.1 ++ [obj.describe s (u64 s.seg.ptr)] := by
          rw [List.take_add_one, List.take_set_of_le (Nat.le_refl _), List.getElem?_set_self hroom]
          rfl
        have hcount' : f.1 + 1 + (described es).length = total := by
          rw [← hcount, Nat.add_assoc, Nat.add_comm 1]
          rfl
        obtain ⟨hok, herror⟩ := ih
          (f := (f.1 + 1, f.2.set f.1 (obj.describe s (u64 s.seg.ptr))))
          ((List.length_set ..).trans hlen) hcount'
        refine ⟨fun h => (hok h).trans ?_, herror⟩
        dsimp only
        rw [htake, List.append_assoc]
        rfl
      · have hfail : ¬(ndebug = true ∨ s.seg.isAddressInSegment s.seg.vaddr = true) := by
          simpa using hc
        rw [if_neg hc]
        exact ⟨fun h => absurd h.1 hfail, fun _ => rfl⟩

theorem passes_of_ndebug (es : List Event) : Passes true es := by
  induction es with
  | nil => trivial
  | cons e es ih =>
    cases e with
    | place => exact ⟨.inl rfl, ih⟩
    | segment obj s => exact ⟨.inl rfl, ih⟩

theorem described_pos {obj : LoadedObject} {s : LoadedSegment} (h : .segment obj s ∈ es) :
    0 < (described es).length := by
  induction es with
  | nil => exact nomatch h
  | cons e es ih =>
    cases e with
    | place => exact ih ((List.mem_cons.1 h).resolve_left nofun)
    | segment obj' s' => exact Nat.succ_pos _

/-- **The assertions hold if and only if the last event is a segment**, and each segment has its own
address. -/
theorem passes_iff : Passes false es ↔
    (∀ obj s, .segment obj s ∈ es → s.seg.isAddressInSegment s.seg.vaddr = true) ∧
      es.getLast? ≠ some .place := by
  induction es with
  | nil => exact iff_of_true trivial ⟨nofun, nofun⟩
  | cons e es ih =>
    cases e with
    | place =>
      unfold Passes
      rw [ih, List.getLast?_cons]
      constructor
      · rintro ⟨hpos, hin, hlast⟩
        refine ⟨fun obj s h => hin obj s ((List.mem_cons.1 h).resolve_left nofun), fun heq => ?_⟩
        rcases hes : es.getLast? with _ | e
        · rw [List.getLast?_eq_none_iff.1 hes] at hpos
          exact absurd hpos (by decide)
        · rw [hes] at heq hlast
          exact hlast heq
      · rintro ⟨hin, hlast⟩
        have hin' : ∀ obj s, .segment obj s ∈ es → s.seg.isAddressInSegment s.seg.vaddr = true :=
          fun obj s h => hin obj s (List.mem_cons_of_mem _ h)
        rcases hes : es.getLast? with _ | e
        · rw [hes] at hlast
          exact absurd rfl hlast
        · rw [hes] at hlast
          refine ⟨.inr ?_, hin', hlast⟩
          cases e with
          | place => exact absurd rfl hlast
          | segment obj s => exact described_pos (List.mem_of_getLast? hes)
    | segment obj s =>
      unfold Passes
      rw [ih, List.getLast?_cons]
      have hlast : some (es.getLast?.getD (.segment obj s)) ≠ some .place ↔
          es.getLast? ≠ some .place := by
        cases es.getLast? with
        | none => exact iff_of_true nofun nofun
        | some e => exact Iff.rfl
      rw [hlast]
      constructor
      · rintro ⟨hs, hin, hlast⟩
        refine ⟨fun obj' s' h => ?_, hlast⟩
        rcases List.mem_cons.1 h with heq | h
        · injection heq with _ heq
          rw [heq]
          exact hs.resolve_left (by decide)
        · exact hin obj' s' h
      · rintro ⟨hin, hlast⟩
        exact ⟨.inr (hin obj s (List.mem_cons_self ..)),
          fun obj' s' h => hin obj' s' (List.mem_cons_of_mem _ h), hlast⟩

/-- The last of lists that are not empty is the last of the last one. -/
theorem getLast?_flatMap_of_ne_nil {α β : Type*} {l : List α} {F : α → List β}
    (h : ∀ x ∈ l, F x ≠ []) : (l.flatMap F).getLast? = l.getLast?.bind fun x => (F x).getLast? := by
  rcases List.eq_nil_or_concat l with rfl | ⟨l', x, rfl⟩
  · rfl
  · rw [List.concat_eq_append] at h ⊢
    have hx := h x (List.mem_append_right _ (List.mem_singleton_self x))
    rw [List.flatMap_append, List.flatMap_singleton, List.getLast?_append, List.getLast?_concat,
      Option.bind_some, List.getLast?_eq_some_getLast hx, Option.some_or]

/-! ### The result -/

variable {executables : List (Option LoadedExecutable)}

theorem described_append : described (es ++ es') = described es ++ described es' := by
  induction es with
  | nil => rfl
  | cons e es ih =>
    cases e with
    | place => exact ih
    | segment obj s => exact congrArg (_ :: ·) ih

theorem described_object (obj : LoadedObject) :
    described obj.events = obj.loaded_segments.map fun s => obj.describe s (u64 s.seg.ptr) := by
  unfold LoadedObject.events described
  induction obj.loaded_segments with
  | nil => rfl
  | cons s segs ih => exact congrArg (_ :: ·) ih

theorem described_executable (e : LoadedExecutable) : described e.events = e.descriptors := by
  unfold LoadedExecutable.events LoadedExecutable.descriptors described
  induction e.loaded_code_objects with
  | nil => rfl
  | cons obj objs ih =>
    rw [List.flatMap_cons, List.flatMap_cons, described_append, ih, described_object]

/-- The events describe the segments in the order of the executables. -/
theorem described_events : described (events executables) = descriptors executables := by
  unfold events descriptors
  induction executables.filterMap id with
  | nil => rfl
  | cons e es ih =>
    rw [List.flatMap_cons, List.flatMap_cons, described_append, ih, described_executable]

/-- The count is the number of descriptors. -/
theorem length_descriptors :
    (descriptors executables).length = actualNumSegmentDescriptors executables := by
  have hone : ∀ e : LoadedExecutable, e.descriptors.length = e.getNumSegmentDescriptors := by
    intro e
    unfold LoadedExecutable.descriptors LoadedExecutable.getNumSegmentDescriptors
    rw [List.length_flatMap]
    refine congrArg List.sum (List.map_congr_left fun obj _ => List.length_map ..)
  unfold descriptors actualNumSegmentDescriptors
  induction executables with
  | nil => rfl
  | cons e executables ih =>
    cases e with
    | none =>
      rw [List.map_cons, List.sum_cons, ← ih]
      exact (Nat.zero_add _).symm
    | some e =>
      have hcons : (some e :: executables).filterMap id = e :: executables.filterMap id := rfl
      rw [List.map_cons, List.sum_cons, ← ih, hcons, List.flatMap_cons, List.length_append, hone]
      rfl

/-- The last event is a segment if and only if the last code object of the last executable has
one. -/
theorem getLast?_events (hpos : 0 < actualNumSegmentDescriptors executables) :
    (events executables).getLast? ≠ some .place ↔
      ∃ e ∈ (executables.filterMap id).getLast?, ∃ obj ∈ e.loaded_code_objects.getLast?,
        obj.loaded_segments ≠ [] := by
  have hlast : (events executables).getLast? =
      (executables.filterMap id).getLast?.bind fun e => e.events.getLast? :=
    getLast?_flatMap_of_ne_nil fun e _ => List.cons_ne_nil _ _
  have hobjects : ∀ e : LoadedExecutable, e.events.getLast? = some
      ((e.loaded_code_objects.getLast?.bind fun obj => obj.events.getLast?).getD .place) := by
    intro e
    unfold LoadedExecutable.events
    have hne : ∀ obj ∈ e.loaded_code_objects, obj.events ≠ [] := fun obj _ => List.cons_ne_nil _ _
    rw [List.getLast?_cons, getLast?_flatMap_of_ne_nil hne]
  have hsegments : ∀ obj : LoadedObject, obj.events.getLast? = some
      ((obj.loaded_segments.getLast?.map (.segment obj)).getD .place) := by
    intro obj
    unfold LoadedObject.events
    rw [List.getLast?_cons, List.getLast?_map]
  rw [hlast]
  rcases he : (executables.filterMap id).getLast? with _ | e
  · -- Without executables there are no segments.
    have hnil : descriptors executables = [] := by
      unfold descriptors
      rw [List.getLast?_eq_none_iff.1 he]
      rfl
    rw [← length_descriptors, hnil] at hpos
    exact absurd hpos (by decide)
  rw [Option.bind_some, hobjects e]
  rcases ho : e.loaded_code_objects.getLast? with _ | obj
  · refine iff_of_false (fun h => h rfl) ?_
    rintro ⟨e', he', obj, hobj, -⟩
    rw [← Option.some.inj he', ho] at hobj
    exact nomatch hobj
  rw [Option.bind_some, hsegments obj]
  rcases hs : obj.loaded_segments.getLast? with _ | s
  · refine iff_of_false (fun h => h rfl) ?_
    rintro ⟨e', he', obj', hobj', hne⟩
    rw [← Option.some.inj he', ho] at hobj'
    rw [← Option.some.inj hobj'] at hne
    exact hne (List.getLast?_eq_none_iff.1 hs)
  · refine iff_of_true nofun ⟨e, rfl, obj, ho, fun hnil => ?_⟩
    rw [hnil] at hs
    exact nomatch hs

theorem mem_events {obj : LoadedObject} {s : LoadedSegment} :
    .segment obj s ∈ events executables ↔
      ∃ e ∈ executables.filterMap id, obj ∈ e.loaded_code_objects ∧ s ∈ obj.loaded_segments := by
  have hobject : ∀ obj' : LoadedObject,
      .segment obj s ∈ obj'.events ↔ obj = obj' ∧ s ∈ obj.loaded_segments := by
    intro obj'
    unfold LoadedObject.events
    rw [List.mem_cons, or_iff_right (by exact nofun), List.mem_map]
    constructor
    · rintro ⟨s', hs', heq⟩
      injection heq with heq heq'
      exact ⟨heq.symm, heq ▸ heq' ▸ hs'⟩
    · rintro ⟨rfl, hs⟩
      exact ⟨s, hs, rfl⟩
  unfold events
  rw [List.mem_flatMap]
  refine exists_congr fun e => and_congr_right fun _ => ?_
  unfold LoadedExecutable.events
  rw [List.mem_cons, or_iff_right (by exact nofun), List.mem_flatMap]
  constructor
  · rintro ⟨obj', hobj', h⟩
    obtain ⟨rfl, hs⟩ := (hobject obj').1 h
    exact ⟨hobj', hs⟩
  · rintro ⟨hobj, hs⟩
    exact ⟨obj, hobj, (hobject obj).2 ⟨rfl, hs⟩⟩

/-- The assertions of a traversal that has something to fill. -/
theorem passes_events_iff (hpos : 0 < actualNumSegmentDescriptors executables) :
    Passes ndebug (events executables) ↔ LastFilled ndebug executables := by
  unfold LastFilled
  cases ndebug with
  | true => exact iff_of_true (passes_of_ndebug _) (.inl rfl)
  | false =>
    rw [passes_iff, getLast?_events hpos, or_iff_right (by decide),
      or_iff_right (Nat.ne_of_gt hpos)]
    refine and_congr_left fun _ => ⟨fun h e he obj hobj s hs => ?_, fun h obj s hs => ?_⟩
    · exact h obj s (mem_events.2 ⟨e, he, hobj, hs⟩)
    · obtain ⟨e, he, hobj, hs⟩ := mem_events.1 hs
      exact h e he obj hobj s hs

/-- **A query with the right count** fills the descriptors, or an assertion fails. -/
theorem query_count {a : List SegmentDescriptor}
    (ha : a.length = actualNumSegmentDescriptors executables) :
    (LastFilled ndebug executables →
        querySegmentDescriptors ndebug executables (callerArray a)
          (some (actualNumSegmentDescriptors executables)) =
        .ok (.success, callerArray (descriptors executables),
          some (actualNumSegmentDescriptors executables))) ∧
      (¬LastFilled ndebug executables →
        querySegmentDescriptors ndebug executables (callerArray a)
          (some (actualNumSegmentDescriptors executables)) = .error .assertion) := by
  unfold callerArray
  rcases hn : actualNumSegmentDescriptors executables with _ | n
  · have hnil : descriptors executables = [] :=
      List.eq_nil_of_length_eq_zero (length_descriptors.trans hn)
    rw [if_pos (List.eq_nil_of_length_eq_zero (ha.trans hn)), if_pos hnil]
    refine ⟨fun _ => ?_, fun h => absurd (.inr (.inl hn)) h⟩
    unfold querySegmentDescriptors
    rw [hn]
  · have hpos : 0 < actualNumSegmentDescriptors executables := hn ▸ Nat.succ_pos n
    have hne : a ≠ [] := List.ne_nil_of_length_pos (ha ▸ hpos)
    have hne' : descriptors executables ≠ [] :=
      List.ne_nil_of_length_pos (length_descriptors ▸ hpos)
    have hcount : 0 + (described (events executables)).length =
        actualNumSegmentDescriptors executables := by
      rw [Nat.zero_add, described_events, length_descriptors]
    obtain ⟨hok, herror⟩ := @runEvents_eq ndebug _ _ (0, a) ha hcount
    rw [passes_events_iff hpos] at hok herror
    rw [if_neg hne, if_neg hne']
    unfold querySegmentDescriptors
    dsimp only
    rw [if_neg (not_not.2 hn.symm), queryExecutables_eq]
    refine ⟨fun h => ?_, fun h => ?_⟩
    · rw [hok h, described_events]
      rfl
    · rw [herror h]
      rfl

/-- **The descriptors are filled as they should be if and only if the last executable and its last
code object are not empty**, or assertions are compiled out; nothing is written outside of the
array. -/
theorem descriptors_filled_iff (ndebug : Bool) (executables : List (Option LoadedExecutable)) :
    (Queried ndebug executables ↔ LastFilled ndebug executables) ∧
      ∀ a, a.length = actualNumSegmentDescriptors executables →
        querySegmentDescriptors ndebug executables (callerArray a)
          (some (actualNumSegmentDescriptors executables)) ≠ .error .outOfBounds := by
  refine ⟨⟨fun h => ?_, fun h => ⟨rfl, fun a ha => (query_count ha).1 h, ?_⟩⟩, fun a ha => ?_⟩
  · by_contra hno
    have herror := (query_count (a := descriptors executables) length_descriptors).2 hno
    rw [h.fills _ length_descriptors] at herror
    exact nomatch herror
  · intro a n hn
    cases n with
    | zero => rfl
    | succ n => exact if_pos hn
  · by_cases h : LastFilled ndebug executables
    · rw [(query_count ha).1 h]
      exact nofun
    · rw [(query_count ha).2 h]
      exact nofun

/-- A segment of one page. -/
def onePage : LoadedSegment where
  seg := { ptr := 4096, size := 4096, vaddr := 0, storage_offset := 0, image := fun _ => 0 }
  agent := some 1
  owner := 1

/-- **An executable into which nothing was loaded comes last, and an assertion fails.** -/
theorem empty_executable_fails :
    ∃ a : List SegmentDescriptor,
      a.length = actualNumSegmentDescriptors [some ⟨[⟨0, 64, [onePage]⟩]⟩, some ⟨[]⟩] ∧
        querySegmentDescriptors false [some ⟨[⟨0, 64, [onePage]⟩]⟩, some ⟨[]⟩] (some a) (some 1) =
          .error .assertion :=
  ⟨[LoadedObject.describe ⟨0, 64, []⟩ onePage 0], rfl, rfl⟩

end Codrive.Loader
