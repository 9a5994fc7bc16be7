/-
# The recorded GPUs, over every run

`recorded_of_run` says that the record of an object is right in every state of a run, and that a
list that is mapped with success is what the object is mapped on, as long as each call meets
`StepOk`.  Where the driver maps `n` GPUs, four words are recorded for each, the `n` and the words
that lie behind them.  The record is right after that

- if the words that were recorded before are all among the `4 n`, so that they go,
- if the GPUs the object was mapped on are all among the `n`,
- if none is twice among them.

The first two hold of an object that is mapped nowhere.  Where all is unmapped, the record is
dropped whatever the driver did, and user memory is counted as mapped once whatever it did.
-/

import Codrive.Basis.Run
import Codrive.Mapping.MemObj
import Mathlib.Data.Finset.Lattice.Lemmas

namespace Codrive.Mapping

open Codrive.Basis

/-! ### A record of words -/

/-- The array `stored` is the record of `mapped`, for a reader who takes its size for bytes. -/
structure Recorded (stored : List ℕ) (mapped : Finset ℕ) : Prop where
  nodup : (stored.take (stored.length / 4)).Nodup
  mem_iff : ∀ id, id ∈ stored.take (stored.length / 4) ↔ id ∈ mapped
  size : stored.length = 4 * (stored.take (stored.length / 4)).length

theorem Recorded.nil : Recorded [] ∅ where
  nodup := List.nodup_nil
  mem_iff _ := by simp
  size := rfl

theorem Recorded.eq_empty_iff {stored : List ℕ} {mapped : Finset ℕ} (h : Recorded stored mapped) :
    mapped = ∅ ↔ stored = [] := by
  constructor
  · intro hm
    have htake : stored.take (stored.length / 4) = [] :=
      List.eq_nil_iff_forall_not_mem.2 fun id hid => by simpa [hm] using (h.mem_iff id).1 hid
    have hsize := h.size
    rw [htake, List.length_nil, Nat.mul_zero] at hsize
    exact List.eq_nil_of_length_eq_zero hsize
  · rintro rfl
    refine Finset.eq_empty_of_forall_notMem fun id hid => ?_
    simpa using (h.mem_iff id).2 hid

/-- The driver maps the first `n` of these words, and nothing wrong is recorded. -/
def MapOk (stored : List ℕ) (mapped : Finset ℕ) (ids : Words) (n : ℕ) : Prop :=
  n = 0 ∨ (ids.take n).Nodup ∧ (∀ id ∈ stored, id ∈ ids.take (4 * n)) ∧
    ∀ id ∈ mapped, id ∈ ids.take n

/-- The driver unmaps the first `n` of these words, and nothing of the record is left. -/
def EmptyOk (stored : List ℕ) (mapped : Finset ℕ) (ids : Words) (n : ℕ) : Prop :=
  n = 0 ∨ (∀ id ∈ stored, id ∈ ids.take (4 * n)) ∧ ∀ id ∈ mapped, id ∈ ids.take n

theorem filter_notMem_eq_nil {stored : List ℕ} {ids : Words} {n : ℕ}
    (h : ∀ id ∈ stored, id ∈ ids.take n) :
    (stored.filter fun id => !idInArray id ids n) = [] := by
  refine List.filter_eq_nil_iff.2 fun id hid => ?_
  simp only [idInArray_eq_true.2 (h id hid), Bool.not_true, Bool.false_eq_true, not_false_eq_true]

theorem filter_idInArray_zero (stored : List ℕ) (ids : Words) :
    (stored.filter fun id => !idInArray id ids 0) = stored :=
  List.filter_eq_self.2 fun id _ => by simp [idInArray]

/-- **What is recorded when the driver maps `n` GPUs.** -/
theorem Recorded.map {stored : List ℕ} {mapped : Finset ℕ} {ids : Words} {n : ℕ}
    (h : Recorded stored mapped) (hok : MapOk stored mapped ids n) :
    Recorded ((stored.filter fun id => !idInArray id ids (4 * n)) ++ ids.take (4 * n))
      (mapped ∪ (ids.take n).toFinset) := by
  rcases hok with rfl | ⟨hnd, hstored, hmapped⟩
  · rw [Nat.mul_zero, filter_idInArray_zero, Stream'.take_zero, List.append_nil,
      List.toFinset_nil, Finset.union_empty]
    exact h
  · rw [filter_notMem_eq_nil hstored, List.nil_append]
    have hlen : (ids.take (4 * n)).length / 4 = n := by
      rw [Stream'.length_take]
      omega
    have htake : (ids.take (4 * n)).take ((ids.take (4 * n)).length / 4) = ids.take n := by
      rw [hlen, Stream'.take_take]
      congr 1
      omega
    refine ⟨htake ▸ hnd, fun id => ?_, ?_⟩
    · rw [htake, Finset.mem_union, List.mem_toFinset]
      exact ⟨.inr, fun hid => hid.elim (hmapped id) fun hid => hid⟩
    · rw [htake, Stream'.length_take, Stream'.length_take]

/-- Nothing changes, or nothing is left. -/
theorem EmptyOk.cases {stored : List ℕ} {mapped : Finset ℕ} {ids : Words} {n : ℕ}
    (hok : EmptyOk stored mapped ids n) :
    (n = 0 ∧ (stored.filter fun id => !idInArray id ids (4 * n)) = stored ∧
      mapped \ (ids.take n).toFinset = mapped) ∨
    (stored.filter fun id => !idInArray id ids (4 * n)) = [] ∧
      mapped \ (ids.take n).toFinset = ∅ := by
  rcases hok with rfl | ⟨hstored, hmapped⟩
  · refine .inl ⟨rfl, ?_, ?_⟩
    · rw [Nat.mul_zero, filter_idInArray_zero]
    · simp
  · refine .inr ⟨filter_notMem_eq_nil hstored, Finset.sdiff_eq_empty_iff_subset.2 fun id hid => ?_⟩
    exact List.mem_toFinset.2 (hmapped id hid)

/-- What is recorded when the driver unmaps `n` GPUs. -/
theorem Recorded.unmap {stored : List ℕ} {mapped : Finset ℕ} {ids : Words} {n : ℕ}
    (h : Recorded stored mapped) (hok : EmptyOk stored mapped ids n) :
    Recorded (stored.filter fun id => !idInArray id ids (4 * n))
      (mapped \ (ids.take n).toFinset) := by
  rcases hok.cases with ⟨-, hstored, hmapped⟩ | ⟨hstored, hmapped⟩
  · rw [hstored, hmapped]
    exact h
  · rw [hstored, hmapped]
    exact .nil

namespace State

/-! ### What is right -/

/-- The record is of the GPUs the object is mapped on, and user memory is counted. -/
structure Right (s : State) : Prop where
  recorded : Recorded s.object.mapped_device_id_array s.mapped_on
  count : s.object.userptr → (s.object.mapping_count : ℤ) = s.balance
  unmapped : s.object.userptr → (s.mapped_on = ∅ ↔ s.object.mapping_count = 0)

variable {aperture : Aperture} {s : State}

/-- Of memory that is not user memory only the record counts. -/
theorem Right.of_recorded (huser : s.object.userptr = false)
    (h : Recorded s.object.mapped_device_id_array s.mapped_on) : Right s where
  recorded := h
  count hu := absurd (huser.symm.trans hu) Bool.false_ne_true
  unmapped hu := absurd (huser.symm.trans hu) Bool.false_ne_true

/-! ### The steps that go well -/

/-- `mm_map_to_gpu` goes well: where the driver is asked, it maps what is recorded right, and user
memory is mapped without an error. -/
def MapsWell (aperture : Aperture) (s : State) (nodes_to_map : Option (Words × ℕ))
    (behind : Words) (answer : DriverAnswer) : Prop :=
  (s.object.userptr ∧ s.object.mapping_count ≠ 0) ∨
    let args := idsToMap aperture s.object nodes_to_map behind
    let n_success := answer.nSuccess args.2
    MapOk s.object.mapped_device_id_array s.mapped_on args.1 n_success ∧
      (s.object.userptr → answer.ret = 0 ∧ 0 < n_success)

/-- `mm_unmap_from_gpu` goes well: where the driver is asked, it unmaps all. -/
def UnmapsWell (s : State) (answer : DriverAnswer) : Prop :=
  (s.object.userptr ∧ 1 < s.object.mapping_count) ∨ s.object.mapped_device_id_array = [] ∨
    s.object.mappedDeviceIdArraySize / 4 ≤ answer.n_success ∧
      (s.object.userptr → answer.ret = 0)

/-- The rest of a list goes well from this record: no node to map is recorded without being mapped,
and a success is one for exactly these nodes. -/
def RestWell (stored : List ℕ) (mapped : Finset ℕ) (nodes : List ℕ) (behind : Behind)
    (answer : DriverAnswer) : Prop :=
  (∀ node ∈ nodes, node ∈ stored → node ∈ mapped) ∧
    let map := mapNodeIdArray stored nodes
    let ids := map ++ₛ behind.map_node_id_array
    let n_success := answer.nSuccess (4 * map.length)
    (map = [] ∨ MapOk stored mapped ids n_success ∧
      (answer.ret = 0 → ∀ id, id ∈ ids.take n_success ↔ id ∈ nodes))

/-- A list on user memory, whose nodes are not looked at, names what is mapped. -/
def UserListWell (aperture : Aperture) (s : State) (nodes : List ℕ) (behind : Behind)
    (answer : DriverAnswer) : Prop :=
  MapsWell aperture s none behind.registered answer ∧
    (if s.object.mapping_count ≠ 0 then s.mapped_on = nodes.toFinset
     else
      let args := idsToMap aperture s.object none behind.registered
      answer.ret = 0 → (args.1.take (answer.nSuccess args.2)).toFinset = nodes.toFinset)

/-- A list on other memory: no mapped node that is not listed stands among the words behind the
list, and what is unmapped leaves nothing recorded. -/
def ListWell (s : State) (nodes : List ℕ) (behind : Behind)
    (unmapAnswer mapAnswer : DriverAnswer) : Prop :=
  let stored := s.object.mapped_device_id_array
  let temp := tempNodeIdArray s.object nodes behind
  let n_success := unmapAnswer.nSuccess temp.length
  (∀ id ∈ s.mapped_on, id ∈ nodes ∨ id ∈ temp) ∧
    if temp = [] then RestWell stored s.mapped_on nodes behind mapAnswer
    else
      EmptyOk stored s.mapped_on (temp ++ₛ behind.temp_node_id_array) n_success ∧
        (unmapAnswer.ret = 0 → n_success ≠ 0 ∧ RestWell [] ∅ nodes behind mapAnswer)

/-- **The condition on a call.** -/
def StepOk (aperture : Aperture) (s : State) : Call → Prop
  | .mapToGpu behind answer => aperture.cpuvm ∨ MapsWell aperture s none behind answer
  | .unmapFromGpu answer => aperture.cpuvm ∨ UnmapsWell s answer
  | .mapToGpuNodes nodes behind unmapAnswer mapAnswer =>
    nodes = [] ∨ (aperture.cpuvm ∨ !aperture.is_cpu_accessible_) ∨
      if s.object.userptr then UserListWell aperture s nodes behind mapAnswer
      else
        !allRegistered aperture s.object nodes behind ∨
          ListWell s nodes behind unmapAnswer mapAnswer

/-! ### One step -/

/-- **`Vma::mm_map_to_gpu`.** -/
theorem Right.vmaMapToGpu {nodes_to_map : Option (Words × ℕ)} {behind : Words}
    {answer : DriverAnswer} (h : Right s) (hok : MapsWell aperture s nodes_to_map behind answer) :
    Right (s.vmaMapToGpu aperture nodes_to_map behind answer).1 := by
  unfold State.vmaMapToGpu
  by_cases huser : s.object.userptr ∧ s.object.mapping_count ≠ 0
  · rw [if_pos huser]
    refine ⟨h.recorded, fun hu => ?_, fun hu => ?_⟩
    · have hcount := h.count hu
      push_cast
      omega
    · have hmapped : s.mapped_on ≠ ∅ := fun he => huser.2 ((h.unmapped hu).1 he)
      exact iff_of_false hmapped (Nat.succ_ne_zero _)
  · rw [if_neg huser]
    obtain ⟨hmap, hret⟩ := hok.resolve_left huser
    dsimp only
    refine ⟨h.recorded.map hmap, fun hu => ?_, fun hu => ?_⟩
    · -- User memory that is asked for was mapped nowhere.
      have hzero : s.object.mapping_count = 0 := by
        by_contra hne
        exact huser ⟨hu, hne⟩
      have hcount := h.count hu
      rw [hzero] at hcount
      dsimp only [MemObj.setMappingCount]
      rw [if_pos (hret hu).1]
      push_cast at hcount ⊢
      omega
    · obtain ⟨-, hpos⟩ := hret hu
      constructor
      · dsimp only
        intro he
        obtain ⟨n, hn⟩ : ∃ n, answer.nSuccess (idsToMap aperture s.object nodes_to_map behind).2 =
            n + 1 := Nat.exists_eq_succ_of_ne_zero hpos.ne'
        rw [hn, Finset.union_eq_empty, Stream'.take_succ, List.toFinset_cons] at he
        exact absurd he.2 (Finset.insert_ne_empty _ _)
      · exact fun hz => absurd hz Nat.one_ne_zero

/-- **`Vma::mm_unmap_from_gpu` of all.** -/
theorem Right.vmaUnmapFromGpu {answer : DriverAnswer} (h : Right s)
    (hok : UnmapsWell s answer) : Right (s.vmaUnmapFromGpu none answer).1 := by
  unfold State.vmaUnmapFromGpu
  by_cases huser : s.object.userptr ∧ 1 < s.object.mapping_count
  · rw [if_pos huser]
    refine ⟨h.recorded, fun hu => ?_, fun hu => ?_⟩
    · have hcount := h.count hu
      dsimp only
      omega
    · have hmapped : s.mapped_on ≠ ∅ := fun he => by
        have hzero := (h.unmapped hu).1 he
        omega
      dsimp only
      exact iff_of_false hmapped (by omega)
  · rw [if_neg huser, Option.filter_none]
    dsimp only
    by_cases hpos : 0 < s.object.mappedDeviceIdArraySize
    · rw [if_pos hpos]
      have hne : s.object.mapped_device_id_array ≠ [] := List.ne_nil_of_length_pos hpos
      obtain ⟨hall, hret⟩ := (hok.resolve_left huser).resolve_left hne
      have hgone : s.mapped_on \ (s.object.mapped_device_id_array.take
          (answer.nSuccess (s.object.mappedDeviceIdArraySize / 4))).toFinset = ∅ := by
        rw [DriverAnswer.nSuccess, min_eq_right hall]
        refine Finset.sdiff_eq_empty_iff_subset.2 fun id hid => ?_
        exact List.mem_toFinset.2 ((h.recorded.mem_iff id).2 hid)
      refine ⟨?_, fun hu => ?_, fun hu => ?_⟩
      · rw [hgone]
        exact Recorded.nil
      · have hcount := h.count hu
        have hone : s.object.mapping_count = 1 := by
          have hcz := (h.unmapped hu).not.1 (h.recorded.eq_empty_iff.not.2 hne)
          by_contra hne1
          exact huser ⟨hu, by omega⟩
        dsimp only [MemObj.setMappingCount]
        rw [if_pos (hret hu)]
        push_cast
        omega
      · exact ⟨fun _ => rfl, fun _ => hgone⟩
    · rw [if_neg hpos]
      exact h

/-! ### Lists -/

/-- What a list call leaves: the record is right, and a success is one for these nodes. -/
def Listed (nodes : List ℕ) (r : State × ℤ) : Prop :=
  Right r.1 ∧ (r.2 = deviceStatusSuccess → r.1.mapped_on = nodes.toFinset)

/-- The code of `mm_map_to_gpu` is turned into a status. -/
theorem status_eq_success {ret : ℤ} :
    (if ret ≠ 0 then deviceStatusError else deviceStatusSuccess) = deviceStatusSuccess ↔
      ret = 0 := by
  split_ifs with h
  · exact iff_of_false (by decide) h
  · exact iff_of_true rfl (not_not.1 h)

/-- **The rest of a list.** -/
theorem Right.mapRest {nodes : List ℕ} {behind : Behind} {answer : DriverAnswer} (h : Right s)
    (huser : s.object.userptr = false) (hsub : ∀ id ∈ s.mapped_on, id ∈ nodes)
    (hok : RestWell s.object.mapped_device_id_array s.mapped_on nodes behind answer) :
    Listed nodes (s.mapRest aperture nodes behind answer) := by
  obtain ⟨hstored, hrest⟩ := hok
  unfold State.mapRest
  dsimp only
  by_cases hnil : mapNodeIdArray s.object.mapped_device_id_array nodes = []
  · -- All nodes are recorded, so they are mapped.
    rw [if_pos hnil]
    refine ⟨h, fun _ => ?_⟩
    ext id
    rw [List.mem_toFinset]
    refine ⟨hsub id, fun hid => hstored id hid ?_⟩
    by_contra hn
    exact List.filter_eq_nil_iff.1 hnil id hid (decide_eq_true hn)
  · rw [if_neg hnil]
    obtain ⟨hmap, hret⟩ := hrest.resolve_left hnil
    have hwell : MapsWell aperture s (some (mapNodeIdArray s.object.mapped_device_id_array nodes ++ₛ
        behind.map_node_id_array,
          4 * (mapNodeIdArray s.object.mapped_device_id_array nodes).length))
        behind.registered answer :=
      .inr ⟨hmap, fun hu => absurd (huser.symm.trans hu) (by decide)⟩
    refine ⟨h.vmaMapToGpu hwell, fun hs => ?_⟩
    have hnot : ¬(s.object.userptr = true ∧ s.object.mapping_count ≠ 0) := by
      rw [huser]
      exact fun hu => absurd hu.1 (by decide)
    dsimp only at hs ⊢
    rw [status_eq_success] at hs
    unfold State.vmaMapToGpu at hs ⊢
    rw [if_neg hnot] at hs ⊢
    have hiff := hret hs
    ext id
    rw [Finset.mem_union, List.mem_toFinset, List.mem_toFinset]
    constructor
    · rintro (hid | hid)
      · exact hsub id hid
      · exact (hiff id).1 hid
    · exact fun hid => .inr ((hiff id).2 hid)

/-- A list on user memory. -/
theorem Right.userList {nodes : List ℕ} {behind : Behind} {answer : DriverAnswer} (h : Right s)
    (huser : s.object.userptr = true) (hok : UserListWell aperture s nodes behind answer) :
    Listed nodes
      ((s.vmaMapToGpu aperture none behind.registered answer).1,
        if (s.vmaMapToGpu aperture none behind.registered answer).2 ≠ 0 then deviceStatusError
        else deviceStatusSuccess) := by
  obtain ⟨hwell, hnodes⟩ := hok
  refine ⟨h.vmaMapToGpu hwell, fun hs => ?_⟩
  dsimp only at hs ⊢
  rw [status_eq_success] at hs
  unfold State.vmaMapToGpu at hs ⊢
  by_cases hcount : s.object.mapping_count ≠ 0
  · rw [if_pos hcount] at hnodes
    rw [if_pos ⟨huser, hcount⟩]
    exact hnodes
  · have hnot : ¬(s.object.userptr = true ∧ s.object.mapping_count ≠ 0) := fun hu => hcount hu.2
    rw [if_neg hcount] at hnodes
    rw [if_neg hnot] at hs ⊢
    have hempty : s.mapped_on = ∅ := (h.unmapped huser).2 (not_not.1 hcount)
    dsimp only
    rw [hempty, Finset.empty_union]
    exact hnodes hs

/-- `Vma::mm_unmap_from_gpu` of a list of other memory. -/
theorem vmaUnmapFromGpu_list {ids : List ℕ} {behind : Words} {answer : DriverAnswer}
    (huser : s.object.userptr = false) (hne : ids ≠ []) :
    s.vmaUnmapFromGpu (some (ids ++ₛ behind, 4 * ids.length)) answer =
      ({ object :=
          { s.object with
            mapped_device_id_array := s.object.mapped_device_id_array.filter fun id =>
              !idInArray id (ids ++ₛ behind) (4 * answer.nSuccess ids.length)
            mapping_count := 0
            mapped_node_id_array := none }
         mapped_on := s.mapped_on \ ((ids ++ₛ behind).take (answer.nSuccess ids.length)).toFinset
         balance := if answer.ret = 0 then s.balance - 1 else s.balance }, answer.ret) := by
  have hsize : 0 < 4 * ids.length := by
    have := List.length_pos_of_ne_nil hne
    omega
  have hnot : ¬(s.object.userptr = true ∧ 1 < s.object.mapping_count) := by
    rw [huser]
    exact fun hu => Bool.false_ne_true hu.1
  have hfilter : (some (ids ++ₛ behind, 4 * ids.length)).filter
      (fun ids : Words × ℕ => decide (0 < ids.2)) = some (ids ++ₛ behind, 4 * ids.length) :=
    Option.filter_some_pos (decide_eq_true hsize)
  unfold State.vmaUnmapFromGpu
  rw [if_neg hnot, hfilter]
  dsimp only
  rw [Nat.mul_div_cancel_left _ (by decide : 0 < 4)]
  rfl

/-- A list on other memory. -/
theorem Right.list {nodes : List ℕ} {behind : Behind} {unmapAnswer mapAnswer : DriverAnswer}
    (h : Right s) (huser : s.object.userptr = false)
    (hok : ListWell s nodes behind unmapAnswer mapAnswer) :
    Listed nodes
      (let temp := tempNodeIdArray s.object nodes behind
       if temp = [] then s.mapRest aperture nodes behind mapAnswer
       else
        let r := s.vmaUnmapFromGpu (some (temp ++ₛ behind.temp_node_id_array, 4 * temp.length))
          unmapAnswer
        if r.2 ≠ deviceStatusSuccess then r
        else r.1.mapRest aperture nodes behind mapAnswer) := by
  obtain ⟨hsub, hrest⟩ := hok
  dsimp only at hrest ⊢
  generalize tempNodeIdArray s.object nodes behind = temp at hsub hrest ⊢
  by_cases hnil : temp = []
  · rw [if_pos hnil] at hrest ⊢
    subst hnil
    exact h.mapRest huser (fun id hid => (hsub id hid).resolve_right List.not_mem_nil) hrest
  · rw [if_neg hnil] at hrest ⊢
    obtain ⟨hempty, hrest⟩ := hrest
    rw [vmaUnmapFromGpu_list huser hnil]
    have hrec := h.recorded.unmap hempty
    by_cases hret : unmapAnswer.ret = deviceStatusSuccess
    · -- What was unmapped leaves nothing, and the list is mapped anew.
      rw [if_neg (not_not.2 hret)]
      obtain ⟨hne, hrest⟩ := hrest hret
      obtain ⟨hstored, hmapped⟩ := hempty.cases.resolve_left fun hz => hne hz.1
      rw [hstored, hmapped] at hrec ⊢
      refine Right.mapRest (.of_recorded huser hrec) huser (fun id hid => ?_) hrest
      exact absurd hid (Finset.notMem_empty id)
    · rw [if_pos hret]
      exact ⟨.of_recorded huser hrec, fun hs => absurd hs hret⟩

/-- **`MemMgr::mm_map_to_gpu_nodes`.** -/
theorem Right.mmMapToGpuNodes {nodes : List ℕ} {behind : Behind}
    {unmapAnswer mapAnswer : DriverAnswer} (h : Right s)
    (hok : StepOk aperture s (.mapToGpuNodes nodes behind unmapAnswer mapAnswer)) :
    Listed nodes (s.mmMapToGpuNodes aperture nodes behind unmapAnswer mapAnswer) := by
  have herror : Listed nodes (s, deviceStatusError) :=
    ⟨h, fun hs => absurd hs (by decide : deviceStatusError ≠ deviceStatusSuccess)⟩
  unfold State.mmMapToGpuNodes
  by_cases hnil : nodes = []
  · rw [if_pos hnil]
    exact ⟨h, fun hs =>
      absurd hs (by decide : deviceStatusInvalidParameter ≠ deviceStatusSuccess)⟩
  rw [if_neg hnil]
  replace hok := hok.resolve_left hnil
  by_cases haperture : aperture.cpuvm ∨ !aperture.is_cpu_accessible_
  · rw [if_pos haperture]
    exact herror
  rw [if_neg haperture]
  replace hok := hok.resolve_left haperture
  by_cases huser : s.object.userptr
  · rw [if_pos huser] at hok ⊢
    exact h.userList huser hok
  rw [if_neg huser] at hok ⊢
  by_cases hreg : !allRegistered aperture s.object nodes behind
  · rw [if_pos hreg]
    exact herror
  · rw [if_neg hreg]
    exact h.list (Bool.eq_false_iff.2 huser) (hok.resolve_left hreg)

/-- **What a call preserves.** -/
theorem Right.call {c : Call} (h : Right s) (hok : StepOk aperture s c) :
    Right (s.call aperture c).1 := by
  match c, hok with
  | .mapToGpu behind answer, hok =>
    dsimp only [State.call]
    unfold State.mmMapToGpu
    split_ifs with hcpu
    · exact h
    · exact h.vmaMapToGpu (hok.resolve_left hcpu)
  | .unmapFromGpu answer, hok =>
    dsimp only [State.call]
    unfold State.mmUnmapFromGpu
    split_ifs with hcpu
    · exact h
    · exact h.vmaUnmapFromGpu (hok.resolve_left hcpu)
  | .mapToGpuNodes nodes behind unmapAnswer mapAnswer, hok =>
    exact (h.mmMapToGpuNodes hok).1

/-- An object that is mapped nowhere. -/
def unmapped (userptr : Bool) (registered : List ℕ) (registered_size : ℕ) : State where
  object :=
    { userptr
      registered_device_id_array := registered
      registered_device_id_array_size := registered_size }

/-- **The record is right in every state of a run**, and a list that is mapped with success is
what the object is mapped on. -/
theorem recorded_of_run {userptr : Bool} {registered : List ℕ} {registered_size : ℕ}
    {calls : List Call}
    (hrun : Run (Guarded (StepOk aperture) (Step aperture))
      (unmapped userptr registered registered_size) calls s) :
    Right s ∧
      ∀ nodes behind unmapAnswer mapAnswer,
        StepOk aperture s (.mapToGpuNodes nodes behind unmapAnswer mapAnswer) →
          (s.call aperture (.mapToGpuNodes nodes behind unmapAnswer mapAnswer)).2 =
              deviceStatusSuccess →
            (s.call aperture (.mapToGpuNodes nodes behind unmapAnswer mapAnswer)).1.mapped_on =
              nodes.toFinset := by
  have hstart : Right (unmapped userptr registered registered_size) :=
    ⟨Recorded.nil, fun _ => rfl, fun _ => iff_of_true rfl rfl⟩
  have hright : Right s := by
    refine hrun.inv (fun s c t h hstep => ?_) hstart
    obtain ⟨hok, rfl⟩ := hstep
    exact h.call hok
  exact ⟨hright, fun nodes behind unmapAnswer mapAnswer hok => (hright.mmMapToGpuNodes hok).2⟩

/-- Two GPUs. -/
def twoGpus : Aperture := { all_gpu_id_array := [1, 2], all_gpu_id_array_size := 8 }

/-- A list of nodes, with zeros behind every array.  The driver maps one, and then fails on what is
not the id of a GPU. -/
def mapList (nodes : List ℕ) : Call :=
  .mapToGpuNodes nodes ⟨.const 0, .const 0, .const 0, .const 0⟩ ⟨1, 0⟩ ⟨1, -22⟩

/-- A node is mapped, unmapped, and the other one mapped. -/
theorem recorded_of_run_remapped :
    let s := { unmapped false [] 0 with
      object :=
        { mapping_count := 1, mapped_device_id_array := [2, 0, 0, 0] }
      mapped_on := {2}
      balance := -1 }
    Right s ∧ ((s.call twoGpus (mapList [2])).2 = deviceStatusSuccess →
      (s.call twoGpus (mapList [2])).1.mapped_on = [2].toFinset) := by
  have hrun : Run (Guarded (StepOk twoGpus) (Step twoGpus)) (unmapped false [] 0)
      [mapList [1], .unmapFromGpu ⟨1, 0⟩, mapList [2]]
      { unmapped false [] 0 with
        object := { mapping_count := 1, mapped_device_id_array := [2, 0, 0, 0] }
        mapped_on := {2}
        balance := -1 } := by
    refine .cons ⟨?_, rfl⟩ (.cons ⟨?_, rfl⟩ (.cons ⟨?_, rfl⟩ (.nil _)))
    · exact .inr (.inr (.inr ⟨by decide +kernel, by decide +kernel, .inr ⟨.inr
        ⟨by decide +kernel, by decide +kernel, by decide +kernel⟩, fun h => nomatch h⟩⟩))
    · exact .inr (.inr (.inr ⟨by decide +kernel, fun _ => rfl⟩))
    · exact .inr (.inr (.inr ⟨by decide +kernel, by decide +kernel, .inr ⟨.inr
        ⟨by decide +kernel, by decide +kernel, by decide +kernel⟩, fun h => nomatch h⟩⟩))
  obtain ⟨hright, hlist⟩ := recorded_of_run hrun
  -- The node is mapped already: there is nothing left to do.
  exact ⟨hright, hlist [2] _ _ _
    (.inr (.inr (.inr ⟨by decide +kernel, by decide +kernel, .inl (by decide +kernel)⟩)))⟩

/-- A second node is mapped, and the record shows the first alone. -/
theorem second_map_is_not_recorded :
    ∃ s, Run (Step twoGpus) (unmapped false [] 0) [mapList [1], mapList [1, 2]] s ∧
      s.mapped_on = {1, 2} ∧ s.object.mappedDeviceIds = [1] ∧
      s.object.mapped_device_id_array = [1, 2, 0, 0, 0] ∧ ¬Right s := by
  refine ⟨_, .cons rfl (.cons rfl (.nil _)), by decide +kernel, by decide +kernel,
    by decide +kernel, fun h => ?_⟩
  exact absurd ((h.recorded.mem_iff 2).2 (by decide +kernel)) (by decide +kernel)

end State

end Codrive.Mapping
