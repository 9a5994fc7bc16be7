/-
# What creating and destroying a queue do

`Honest` is what the allocations and the driver's requests are relied on for: memory is new, the id
of a queue is new, and what is mapped is not at `MAP_FAILED`.  `CreateAllowed` are the calls that
`CreateQueue` handles as it should.  Among them a failed one leaves the state as it was, and one
that succeeds adds a queue, its memory and its doorbell (`createQueue_spec`).
-/

import Codrive.Basis.Ledger
import Codrive.QueueMgr.Queues
import Mathlib.Data.Finset.Lattice.Lemmas

namespace Codrive.QueueMgr

open Codrive.Basis

variable {d : Device} {s t : State} {c : CreateCall} {a : Answers} {node : Node} {q : Queue}
  {x n : ℕ}

/-! ### What a queue owns -/

/-- The buffers of a queue, with their sizes. -/
def bufferParts (q : Queue) : List (ℕ × ℕ) :=
  (q.eop_buffer.toList.map fun eop => (eop, (q.dev_info.map (·.eop_buffer_size)).getD 0)) ++
    q.ctx_save_restore.toList.map fun ctx => (ctx, q.ctx_save_restore_size)

/-- The memory of a queue at `x`: its buffers and the `struct queue`. -/
def queueParts (x : ℕ) (q : Queue) : List (ℕ × ℕ) := bufferParts q ++ [(x, sizeofQueue)]

/-- The size of a buffer of a queue is found again in its `device_info`. -/
def Queue.WellFormed (q : Queue) : Prop := q.eop_buffer.isSome = true → q.dev_info.isSome = true

/-- Freeing one block before others. -/
theorem free_bind (y : ℕ) (f : State → Option State) (l : List (ℕ × ℕ))
    (hf : ∀ s : State, f s = (giveBack s.memory l).map fun memory =>
      { s with memory, queues := Function.update s.queues x none }) :
    (s.free y n).bind f = (giveBack s.memory ((y, n) :: l)).map fun memory =>
      { s with memory, queues := Function.update s.queues x none } := by
  by_cases hheld : (y, n) ∈ s.memory
  · simp [State.free, giveBack, hheld, hf]
  · simp [State.free, giveBack, hheld]

/-- `free_queue` gives back the memory of the queue, part by part. -/
theorem freeQueue_eq (hq : s.queues x = some q) (hdev : q.WellFormed) :
    freeQueue s x = (giveBack s.memory (queueParts x q)).map fun memory =>
      { s with memory, queues := Function.update s.queues x none } := by
  have hself : ∀ s : State, ((s.free x sizeofQueue).bind fun s =>
      some { s with queues := Function.update s.queues x none }) =
      (giveBack s.memory [(x, sizeofQueue)]).map fun memory =>
        { s with memory, queues := Function.update s.queues x none } := fun s =>
    free_bind x _ [] fun s' => rfl
  have hctx : ∀ s : State, ((freeCtx s q).bind fun s => (s.free x sizeofQueue).bind fun s =>
      some { s with queues := Function.update s.queues x none }) =
      (giveBack s.memory ((q.ctx_save_restore.toList.map fun ctx =>
        (ctx, q.ctx_save_restore_size)) ++ [(x, sizeofQueue)])).map fun memory =>
          { s with memory, queues := Function.update s.queues x none } := by
    intro s
    unfold freeCtx
    cases q.ctx_save_restore with
    | none => exact hself s
    | some ctx => exact free_bind ctx _ _ hself
  rw [queueParts, bufferParts, List.append_assoc]
  have hstart : freeQueue s x = (freeEop s q).bind fun s => (freeCtx s q).bind fun s =>
      (s.free x sizeofQueue).bind fun s =>
        some { s with queues := Function.update s.queues x none } := by
    rw [freeQueue, hq]
    rfl
  rw [hstart, freeEop]
  cases heop : q.eop_buffer with
  | none => exact hctx s
  | some eop =>
    obtain ⟨dev, hdev⟩ := Option.isSome_iff_exists.1 (hdev (by rw [heop]; rfl))
    rw [hdev]
    exact free_bind eop _ _ hctx

/-- `q` can be put at `x`: what it owns is not in use. -/
structure Fits (s : State) (x : ℕ) (q : Queue) : Prop where
  vacant : s.queues x = none
  nodup : (queueParts x q).Nodup
  fresh : ∀ b ∈ queueParts x q, b ∉ s.memory
  wellFormed : q.WellFormed

/-- With `q` put at `x`. -/
def State.built (s : State) (x : ℕ) (q : Queue) : State :=
  { s with
    memory := s.memory ∪ (queueParts x q).toFinset
    queues := Function.update s.queues x (some q) }

/-- **What was built is freed** again without a trace. -/
theorem freeQueue_built (h : Fits s x q) : freeQueue (s.built x q) x = some s := by
  rw [freeQueue_eq (Function.update_self ..) h.wellFormed, giveBack_eq_some h.nodup]
  · have hmemory :
        (s.memory ∪ (queueParts x q).toFinset) \ (queueParts x q).toFinset = s.memory := by
      refine Finset.union_sdiff_cancel_right (Finset.disjoint_right.2 fun b hb => ?_)
      exact h.fresh b (List.mem_toFinset.1 hb)
    have hqueues : Function.update (Function.update s.queues x (some q)) x none = s.queues := by
      rw [Function.update_idem, ← h.vacant, Function.update_eq_self]
    simp only [State.built, Option.map_some, hmemory, hqueues]
  · intro b hb
    exact Finset.mem_union_right _ (List.mem_toFinset.2 hb)

/-! ### What the calls are answered -/

/-- An address that is not null and where no block starts. -/
def Fresh (memory : Finset (ℕ × ℕ)) (x : ℕ) : Prop := x ≠ 0 ∧ ∀ n, (x, n) ∉ memory

/-- What the allocations and the driver's requests are relied on for. -/
structure Honest (s : State) (a : Answers) : Prop where
  queue : ∀ x, a.queueMemory = some x → Fresh s.memory x
  eop : ∀ x, a.eopMemory = some x → Fresh s.memory x ∧ a.queueMemory ≠ some x
  ctx : ∀ x, a.ctxMemory = some x →
    Fresh s.memory x ∧ a.queueMemory ≠ some x ∧ a.eopMemory ≠ some x
  queue_id : a.create.err = 0 → s.driver a.create.queue_id = none
  offset : a.create.doorbell_offset < 2 ^ 64
  mmap : a.mmap.made = true → a.mmap.start ≠ mapFailed

/-- The buffers a queue of the node needs are given. -/
def BuffersGiven (node : Node) (a : Answers) : Prop :=
  ∀ dev, findDevice node.device_id = some dev →
    (dev.eop_buffer_size > 0 → a.eopMemory.isSome = true) ∧
      (node.numFComputeCores ≠ 0 → a.ctxMemory.isSome = true)

/-- What `handle_concrete_asic` leaves: the memory of the buffers, which are those given. -/
structure Equipped (s : State) (a : Answers) (dev : Option DeviceInfo) (t : State) (q : Queue) :
    Prop where
  state : t = { s with memory := s.memory ∪ (bufferParts q).toFinset }
  dev_info : q.dev_info = dev
  eop : q.eop_buffer = none ∨ q.eop_buffer = a.eopMemory ∧ dev.isSome = true
  ctx : q.ctx_save_restore = none ∨ q.ctx_save_restore = a.ctxMemory

/-- The sizes are all that changes. -/
theorem of_updateCtxSaveRestoreSize {q' : Queue} (h : updateCtxSaveRestoreSize node q = some q') :
    q'.eop_buffer = q.eop_buffer ∧ q'.ctx_save_restore = q.ctx_save_restore ∧
      q'.dev_info = q.dev_info ∧ node.numFComputeCores ≠ 0 := by
  unfold updateCtxSaveRestoreSize at h
  split at h
  · next hneeded =>
    cases h
    exact ⟨rfl, rfl, rfl, hneeded.1⟩
  · cases h

/-- The area for contexts. -/
theorem handleCtxSaveRestore_equipped {args : CreateQueueArgs} {dev : Option DeviceInfo}
    (h : Equipped s a dev t q) (hnull : q.ctx_save_restore = none) :
    Equipped s a dev (handleCtxSaveRestore node t q args a).2.1
      (handleCtxSaveRestore node t q args a).2.2.1 := by
  unfold handleCtxSaveRestore
  cases hsize : updateCtxSaveRestoreSize node q with
  | none => exact h
  | some q' =>
    obtain ⟨heop, hctx, hdev, -⟩ := of_updateCtxSaveRestoreSize hsize
    rw [hnull] at hctx
    have hparts : bufferParts q' = bufferParts q := by
      simp only [bufferParts, heop, hctx, hnull, hdev, Option.toList_none, List.map_nil]
    cases hgiven : a.ctxMemory with
    | none =>
      exact {
        state := by rw [hparts]; exact h.state
        dev_info := hdev.trans h.dev_info
        eop := by rw [heop]; exact h.eop
        ctx := .inl hctx }
    | some ctx =>
      refine {
        state := ?_
        dev_info := hdev.trans h.dev_info
        eop := heop ▸ h.eop
        ctx := .inr hgiven.symm }
      have hall : bufferParts { q' with ctx_save_restore := some ctx } =
          bufferParts q ++ [(ctx, q'.ctx_save_restore_size)] := by
        simp only [bufferParts, heop, hnull, hdev, Option.toList_none, Option.toList_some,
          List.map_nil, List.map_cons, List.append_nil]
      rw [hall, h.state]
      refine congrArg (fun memory => { s with memory }) ?_
      ext b
      simp only [Finset.mem_insert, Finset.mem_union, List.mem_toFinset, List.mem_append,
        List.mem_singleton]
      tauto

/-- **`handle_concrete_asic`** leaves the queue with buffers that were given, all of them if it
succeeds. -/
theorem handleConcreteAsic_equipped {args : CreateQueueArgs} (heop : q.eop_buffer = none)
    (hctx : q.ctx_save_restore = none) :
    Equipped s a q.dev_info (handleConcreteAsic node s q args a).2.1
      (handleConcreteAsic node s q args a).2.2.1 := by
  have hblank : Equipped s a q.dev_info s q := by
    refine ⟨?_, rfl, .inl heop, .inl hctx⟩
    simp only [bufferParts, heop, hctx, Option.toList_none, List.map_nil, List.append_nil,
      List.toFinset_nil, Finset.union_empty]
  unfold handleConcreteAsic
  cases hdev : q.dev_info with
  | none => rwa [hdev] at hblank
  | some dev =>
    rw [hdev] at hblank
    dsimp only
    split
    · cases hgiven : a.eopMemory with
      | none => exact hblank
      | some eop =>
        refine handleCtxSaveRestore_equipped ⟨?_, rfl, .inr ⟨hgiven.symm, rfl⟩, .inl hctx⟩ hctx
        simp only [State.allocate, bufferParts, hctx, Option.toList_some, Option.toList_none,
          List.map_cons, List.map_nil, List.append_nil, Option.map_some, Option.getD_some,
          List.toFinset_cons, List.toFinset_nil, insert_empty_eq]
        refine congrArg (fun memory => { s with memory }) ?_
        ext b
        simp only [Finset.mem_insert, Finset.mem_union, Finset.mem_singleton]
        tauto
    · exact handleCtxSaveRestore_equipped hblank hctx

/-- The area for contexts that a node needs is given. -/
theorem ctx_of_success {args : CreateQueueArgs} (hsimd : node.numSIMDPerCU ≠ 0)
    (h : (handleCtxSaveRestore node s q args a).1 = .success) (hcores : node.numFComputeCores ≠ 0) :
    a.ctxMemory.isSome = true := by
  unfold handleCtxSaveRestore updateCtxSaveRestoreSize at h
  rw [if_pos ⟨hcores, hsimd⟩] at h
  cases hgiven : a.ctxMemory with
  | none =>
    rw [hgiven] at h
    cases h
  | some ctx => rfl

/-- `handle_concrete_asic` succeeds only if the buffers are given. -/
theorem buffersGiven_of_success {args : CreateQueueArgs}
    (hdev : q.dev_info = findDevice node.device_id) (hsimd : node.numSIMDPerCU ≠ 0)
    (h : (handleConcreteAsic node s q args a).1 = .success) : BuffersGiven node a := by
  intro dev hfind
  unfold handleConcreteAsic at h
  rw [hdev, hfind] at h
  dsimp only at h
  split at h
  · cases hgiven : a.eopMemory with
    | none =>
      rw [hgiven] at h
      cases h
    | some eop =>
      rw [hgiven] at h
      exact ⟨fun _ => rfl, ctx_of_success hsimd h⟩
  · next hsize => exact ⟨fun hpos => absurd hpos hsize, ctx_of_success hsimd h⟩

/-! ### Doorbells -/

/-- The bytes of a node's doorbells. -/
theorem doorbellsPageSize_eq {dev : DeviceInfo} {device_id : ℕ}
    (h : findDevice device_id = some dev) : doorbellsPageSize dev.doorbell_size = 2 ^ 13 := by
  have hmem := List.mem_of_find?_eq_some h
  have hall : ∀ dev ∈ deviceTable, doorbellsPageSize dev.doorbell_size = 2 ^ 13 := by decide
  exact hall dev hmem

/-- The doorbells of the node can be mapped, for the graphics processor or at least for the host. -/
def Maps (d : Device) (node : Node) (a : Answers) : Prop :=
  (node.gpu_id ≠ 0 ∧ d.is_dgpu = true ∧ a.doorbell.isSome = true ∧ a.mapToGpu = true) ∨
    a.mmap.made = true

/-- The doorbells of the node `n` are mapped at the offset `offset`. -/
structure MappedAt (s : State) (n offset : ℕ) (t : State) : Prop where
  state : ∃ db, t = { s with
    doorbells := Function.update s.doorbells n db
    mapped := Function.update s.mapped n (some offset) }
  size : (t.doorbells n).size = (s.doorbells n).size

/-- The doorbells are mapped. -/
theorem mappedAt_mapDoorbells (offset mapping : ℕ) :
    MappedAt s n offset (s.mapDoorbells n offset mapping) :=
  ⟨⟨_, rfl⟩, by simp only [State.mapDoorbells, Function.update_self]⟩

/-- For the host. -/
theorem mapDoorbellApu_spec (offset : ℕ) (hmade : a.mmap.made = true)
    (hmmap : a.mmap.start ≠ mapFailed) :
    mapDoorbellApu s n offset a.mmap = (.success, s.mapDoorbells n offset a.mmap.start) := by
  rw [mapDoorbellApu, if_neg hmmap, if_pos hmade]

/-- For the graphics processor. -/
theorem mapDoorbellDgpu_of_given {ptr : ℕ} (offset : ℕ) (hptr : a.doorbell = some ptr)
    (hmap : a.mapToGpu = true) :
    mapDoorbellDgpu s n offset a = (.success, s.mapDoorbells n offset ptr) := by
  unfold mapDoorbellDgpu
  rw [hptr]
  exact if_pos hmap

/-- Not for the graphics processor. -/
theorem mapDoorbellDgpu_of_not (offset : ℕ)
    (hnot : ¬(a.doorbell.isSome = true ∧ a.mapToGpu = true)) :
    mapDoorbellDgpu s n offset a = (.error, s) := by
  unfold mapDoorbellDgpu
  cases hptr : a.doorbell with
  | none => rfl
  | some ptr => exact if_neg fun hmap => hnot ⟨by rw [hptr]; rfl, hmap⟩

/-- **One of the two ways** to map the doorbells succeeds. -/
theorem mapDoorbellBy_spec (offset : ℕ) (hs : (s.doorbells n).use_gpuvm = d.is_dgpu)
    (hmaps : Maps d node a) (hmmap : a.mmap.made = true → a.mmap.start ≠ mapFailed) :
    ∃ t, mapDoorbellBy s n node.gpu_id offset a = (.success, t) ∧ MappedAt s n offset t := by
  by_cases hgpu : node.gpu_id ≠ 0 ∧ (s.doorbells n).use_gpuvm = true
  · rw [mapDoorbellBy, if_pos hgpu]
    by_cases hgiven : a.doorbell.isSome = true ∧ a.mapToGpu = true
    · obtain ⟨ptr, hptr⟩ := Option.isSome_iff_exists.1 hgiven.1
      rw [mapDoorbellDgpu_of_given offset hptr hgiven.2]
      exact ⟨_, rfl, mappedAt_mapDoorbells offset ptr⟩
    · have hmade : a.mmap.made = true := hmaps.resolve_left fun h => hgiven h.2.2
      rw [mapDoorbellDgpu_of_not offset hgiven]
      dsimp only
      rw [if_pos (by decide), mapDoorbellApu_spec offset hmade (hmmap hmade)]
      refine ⟨_, rfl, ⟨⟨false, (s.doorbells n).size, a.mmap.start⟩, ?_⟩, ?_⟩
      · simp only [State.mapDoorbells, State.setDoorbells, Function.update_idem,
          Function.update_self]
      · simp only [State.mapDoorbells, State.setDoorbells, Function.update_self]
  · have hmade : a.mmap.made = true := by
      refine hmaps.resolve_left fun h => hgpu ⟨h.1, ?_⟩
      rw [hs, h.2.1]
    rw [mapDoorbellBy, if_neg hgpu, mapDoorbellApu_spec offset hmade (hmmap hmade)]
    exact ⟨_, rfl, mappedAt_mapDoorbells offset _⟩

/-- **The first mapping** of a node's doorbells. -/
theorem mapDoorbell_first {dev : DeviceInfo} (offset : ℕ) (hsize : (s.doorbells n).size = 0)
    (hdev : findDevice node.device_id = some dev) (hmaps : Maps d node a)
    (hmmap : a.mmap.made = true → a.mmap.start ≠ mapFailed) :
    ∃ db, mapDoorbell d s n node offset a = some (.success, { s with
        doorbells := Function.update s.doorbells n db
        mapped := Function.update s.mapped n (some offset) }) ∧ db.size = 2 ^ 13 := by
  have hgpuvm : ((getDoorbellMapInfo d s n dev).doorbells n).use_gpuvm = d.is_dgpu := by
    simp only [getDoorbellMapInfo, State.setDoorbells, Function.update_self]
  obtain ⟨t, ht, ⟨db, rfl⟩, htsize⟩ := mapDoorbellBy_spec offset hgpuvm hmaps hmmap
  refine ⟨db, ?_, ?_⟩
  · rw [mapDoorbell, if_neg (by simp [hsize]), hdev]
    simp only [Option.bind_eq_bind, Option.bind_some, ht, ne_eq, not_true, if_false]
    simp only [getDoorbellMapInfo, State.setDoorbells, Function.update_idem, pure]
  · simp only [getDoorbellMapInfo, State.setDoorbells, Function.update_self] at htsize
    rw [htsize, doorbellsPageSize_eq hdev]

/-- Where a node has doorbells mapped, they are a whole number of slices into the driver's file. -/
def DoorbellsSettled (s : State) : Prop :=
  ∀ n, (s.doorbells n).size = 0 ∨
    (s.doorbells n).size = 2 ^ 13 ∧ ∃ base, s.mapped n = some base ∧ 2 ^ 13 ∣ base

/-- The offset that the driver gives suits the doorbells of the node.  Before the first mapping the
size is not known and all but the upper 32 bits of the offset are taken for the place among the
doorbells; later on the mapping is the one that was made first. -/
def RingAllowed (d : Device) (s : State) (n : ℕ) (node : Node) (a : Answers) : Prop :=
  if (s.doorbells n).size = 0 then
    (∃ dev, findDevice node.device_id = some dev ∧
      a.create.doorbell_offset % 2 ^ 32 < doorbellsPageSize dev.doorbell_size) ∧ Maps d node a
  else
    ∃ base, s.mapped n = some base ∧
      base / (s.doorbells n).size = a.create.doorbell_offset / (s.doorbells n).size

/-- The offset splits as the size of the doorbells says. -/
theorem ring_spec {offset : ℕ} (hoffset : a.create.doorbell_offset = offset) (hlt : offset < 2 ^ 64)
    (hs : DoorbellsSettled s) (hring : RingAllowed d s n node a)
    (hmmap : a.mmap.made = true → a.mmap.start ≠ mapFailed) :
    ∃ db, mapDoorbell d s n node
        (offset &&& (2 ^ 64 - 1 - wrap 32 ((s.doorbells n).size + (2 ^ 32 - 1)))) a =
          some (.success, { s with
            doorbells := Function.update s.doorbells n db
            mapped := Function.update s.mapped n (some (offset - offset % 2 ^ 13)) }) ∧
      db.size = 2 ^ 13 ∧
      offset &&& wrap 32 ((s.doorbells n).size + (2 ^ 32 - 1)) = offset % 2 ^ 13 ∧
      ((s.doorbells n).size ≠ 0 →
        db = s.doorbells n ∧ s.mapped n = some (offset - offset % 2 ^ 13)) := by
  unfold RingAllowed at hring
  by_cases hsize : (s.doorbells n).size = 0
  · -- the first queue of the node
    rw [if_pos hsize, hoffset] at hring
    obtain ⟨⟨dev, hdev, hlow⟩, hmaps⟩ := hring
    rw [doorbellsPageSize_eq hdev] at hlow
    have hmod : offset % 2 ^ 32 = offset % 2 ^ 13 := by
      rw [← Nat.mod_mod_of_dvd offset (show 2 ^ 13 ∣ 2 ^ 32 by decide), Nat.mod_eq_of_lt hlow]
    have hmask : wrap 32 (0 + (2 ^ 32 - 1)) = 2 ^ 32 - 1 := by decide
    rw [hsize, hmask, and_not_low hlt (by decide), Nat.and_two_pow_sub_one_eq_mod, hmod]
    obtain ⟨db, hdb, hdbsize⟩ := mapDoorbell_first (offset - offset % 2 ^ 13) hsize hdev hmaps hmmap
    exact ⟨db, hdb, hdbsize, rfl, fun h => absurd rfl h⟩
  · -- the doorbells are mapped already
    rw [if_neg hsize, hoffset] at hring
    obtain ⟨base, hbase, hpage⟩ := hring
    obtain ⟨hknown, base', hbase', hdvd⟩ := (hs n).resolve_left hsize
    rw [hbase] at hbase'
    cases hbase'
    have hmask : wrap 32 (2 ^ 13 + (2 ^ 32 - 1)) = 2 ^ 13 - 1 := by decide
    rw [hknown] at hpage
    have hround : base = offset - offset % 2 ^ 13 := by
      have := Nat.div_mul_cancel hdvd
      have := Nat.div_add_mod offset (2 ^ 13)
      omega
    rw [hknown, hmask, Nat.and_two_pow_sub_one_eq_mod, mapDoorbell, if_pos hsize]
    refine ⟨s.doorbells n, ?_, hknown, rfl, fun _ => ⟨rfl, by rw [hbase, hround]⟩⟩
    rw [← hround, ← hbase, Function.update_eq_self, Function.update_eq_self]

/-! ### Creating -/

/-- What a successful `CreateQueue` adds: a queue at its handle, with memory of its own and a queue
of the driver, and the doorbells of the node, if it has none.  The doorbell is where the driver's
offset points to. -/
structure Added (s : State) (c : CreateCall) (a : Answers) (r : QueueResource) (t : State) :
    Prop where
  handle : a.queueMemory = some r.queueId
  queue : ∃ q args, Fits s r.queueId q ∧ q.queue_id = a.create.queue_id ∧
    t.memory = s.memory ∪ (queueParts r.queueId q).toFinset ∧
    t.queues = Function.update s.queues r.queueId (some q) ∧
    t.driver = Function.update s.driver a.create.queue_id (some args)
  driver : s.driver a.create.queue_id = none
  doorbells : ∃ db, db.size = 2 ^ 13 ∧ t.doorbells = Function.update s.doorbells c.nodeId db ∧
    t.mapped = Function.update s.mapped c.nodeId
      (some (a.create.doorbell_offset - a.create.doorbell_offset % 2 ^ 13)) ∧
    r.queue_DoorBell = db.mapping + a.create.doorbell_offset % 2 ^ 13 ∧
    ((s.doorbells c.nodeId).size ≠ 0 → db = s.doorbells c.nodeId ∧
      s.mapped c.nodeId = some (a.create.doorbell_offset - a.create.doorbell_offset % 2 ^ 13))

/-- **From the driver's request on:** a queue is added, or the state is as it was before the queue
was built. -/
theorem submitQueue_spec {args : CreateQueueArgs} (hfits : Fits s x q) (hs : DoorbellsSettled s)
    (ha : Honest s a) (hx : a.queueMemory = some x) (herr : a.create.err = 0 ∨ a.create.err = -1)
    (hring : a.create.err = 0 → RingAllowed d s c.nodeId node a) :
    submitQueue d (s.built x q) c node x q args a = some (.error .error, s) ∨
      ∃ r t, submitQueue d (s.built x q) c node x q args a = some (.ok r, t) ∧
        Added s c a r t := by
  rcases herr with herr | herr
  · right
    obtain ⟨db, hmap, hdbsize, hlow, hkept⟩ := ring_spec (n := c.nodeId) (s := { s with
        memory := s.memory ∪ (queueParts x q).toFinset
        queues := Function.update s.queues x (some { q with queue_id := a.create.queue_id })
        driver := Function.update s.driver a.create.queue_id (some args) })
      rfl ha.offset hs (hring herr) ha.mmap
    have hsubmit : submitQueue d (s.built x q) c node x q args a =
        some (.ok ⟨x, db.mapping + a.create.doorbell_offset % 2 ^ 13⟩, { s with
          memory := s.memory ∪ (queueParts x q).toFinset
          queues := Function.update s.queues x (some { q with queue_id := a.create.queue_id })
          driver := Function.update s.driver a.create.queue_id (some args)
          doorbells := Function.update s.doorbells c.nodeId db
          mapped := Function.update s.mapped c.nodeId
            (some (a.create.doorbell_offset - a.create.doorbell_offset % 2 ^ 13)) }) := by
      have hne : ¬a.create.err = -1 := by
        rw [herr]
        decide
      unfold submitQueue
      dsimp only [State.cmdCreateQueue]
      rw [if_neg hne, if_pos herr]
      simp only [State.write, State.built, Function.update_idem, Option.bind_eq_bind, hmap, hlow,
        Option.bind_some, ne_eq, not_true, if_false, Function.update_self, pure]
    exact ⟨_, _, hsubmit, {
      handle := hx
      queue := ⟨{ q with queue_id := a.create.queue_id }, args,
        ⟨hfits.vacant, hfits.nodup, hfits.fresh, hfits.wellFormed⟩, rfl, rfl, rfl, rfl⟩
      driver := ha.queue_id herr
      doorbells := ⟨db, hdbsize, rfl, rfl, rfl, hkept⟩ }⟩
  · left
    have hnone : (s.built x q).cmdCreateQueue args a.create = s.built x q := by
      refine if_neg ?_
      rw [herr]
      decide
    unfold submitQueue
    dsimp only
    rw [hnone, if_pos herr, freeQueue_built hfits]
    rfl

/-- A buffer of an equipped queue is one that was given. -/
theorem Equipped.of_mem {dev : Option DeviceInfo} (h : Equipped s a dev t q) {b : ℕ × ℕ}
    (hb : b ∈ bufferParts q) : a.eopMemory = some b.1 ∨ a.ctxMemory = some b.1 := by
  rw [bufferParts, List.mem_append, List.mem_map, List.mem_map] at hb
  rcases hb with ⟨y, hy, rfl⟩ | ⟨y, hy, rfl⟩
  · rw [Option.mem_toList] at hy
    obtain heop | ⟨heop, -⟩ := h.eop
    · rw [heop] at hy
      cases hy
    · exact .inl (heop.symm.trans hy)
  · rw [Option.mem_toList] at hy
    obtain hctx | hctx := h.ctx
    · rw [hctx] at hy
      cases hy
    · exact .inr (hctx.symm.trans hy)

/-- The buffers of an equipped queue are two different ones. -/
theorem Equipped.nodup {dev : Option DeviceInfo} {s' : State} (h : Equipped s' a dev t q)
    (ha : Honest s a) : (bufferParts q).Nodup := by
  cases heop : q.eop_buffer with
  | none =>
    cases hctx : q.ctx_save_restore <;> simp [bufferParts, heop, hctx]
  | some eop =>
    cases hctx : q.ctx_save_restore with
    | none => simp [bufferParts, heop, hctx]
    | some ctx =>
      have heop' : a.eopMemory = some eop := by
        obtain hnone | ⟨hgiven, -⟩ := h.eop
        · rw [heop] at hnone
          cases hnone
        · exact hgiven.symm.trans heop
      have hctx' : a.ctxMemory = some ctx := by
        obtain hnone | hgiven := h.ctx
        · rw [hctx] at hnone
          cases hnone
        · exact hgiven.symm.trans hctx
      have hne : eop ≠ ctx := by
        rintro rfl
        exact (ha.ctx eop hctx').2.2 heop'
      simp [bufferParts, heop, hctx, hne]

/-- An equipped queue fits where the memory for it was given. -/
theorem Equipped.fits {dev : Option DeviceInfo} {s' : State} (h : Equipped s' a dev t q)
    (ha : Honest s a) (hx : a.queueMemory = some x) (hvacant : s.queues x = none) :
    Fits s x q where
  vacant := hvacant
  nodup := by
    rw [queueParts, List.nodup_append]
    refine ⟨h.nodup ha, List.nodup_singleton _, ?_⟩
    intro b hb b' hb' heq
    rw [List.mem_singleton.1 hb'] at heq
    subst heq
    rcases h.of_mem hb with hgiven | hgiven
    · exact (ha.eop x hgiven).2 hx
    · exact (ha.ctx x hgiven).2.1 hx
  fresh b hb := by
    rw [queueParts, List.mem_append, List.mem_singleton] at hb
    rcases hb with hb | rfl
    · rcases h.of_mem hb with hgiven | hgiven
      · exact (ha.eop b.1 hgiven).1.2 b.2
      · exact (ha.ctx b.1 hgiven).1.2 b.2
    · exact (ha.queue x hx).2 sizeofQueue
  wellFormed := by
    intro hsome
    rw [h.dev_info]
    obtain hnone | ⟨-, hdev⟩ := h.eop
    · rw [hnone] at hsome
      cases hsome
    · exact hdev

/-- The `struct queue` is allocated first and written when it is equipped. -/
theorem Equipped.built {dev : Option DeviceInfo}
    (h : Equipped (s.allocate x sizeofQueue) a dev t q) : t.write x q = s.built x q := by
  rw [h.state]
  refine congrArg (fun memory => { s with
    memory, queues := Function.update s.queues x (some q) }) ?_
  ext b
  simp only [State.allocate, queueParts, Finset.mem_union, Finset.mem_insert, List.mem_toFinset,
    List.mem_append, List.mem_singleton]
  tauto

/-- The calls of `CreateQueue` that go as they should, in the state they are made in.  If it gets
that far, the type is one it creates and the node has compute units to count; the driver's request
to create a queue succeeds or fails with -1; and if it succeeds, its offset suits the doorbells of
the node. -/
def CreateAllowed (d : Device) (s : State) (c : CreateCall) (a : Answers) : Prop :=
  ∀ node, -3 ≤ c.priority ∧ c.priority ≤ 3 → d.nodes[c.nodeId]? = some node →
    a.queueMemory.isSome = true →
      c.type = .compute ∧ node.numSIMDPerCU ≠ 0 ∧
        (BuffersGiven node a → (a.create.err = 0 ∨ a.create.err = -1) ∧
          (a.create.err = 0 → RingAllowed d s c.nodeId node a))

/-- **Building a queue:** it is added, or nothing of it stays. -/
theorem buildQueue_spec (hs : DoorbellsSettled s) (hvacant : s.queues x = none) (ha : Honest s a)
    (hx : a.queueMemory = some x) (htype : c.type = .compute) (hsimd : node.numSIMDPerCU ≠ 0)
    (hgiven : BuffersGiven node a → (a.create.err = 0 ∨ a.create.err = -1) ∧
      (a.create.err = 0 → RingAllowed d s c.nodeId node a)) :
    buildQueue d (s.allocate x sizeofQueue) c node x a = some (.error .error, s) ∨
      ∃ r t, buildQueue d (s.allocate x sizeofQueue) c node x a = some (.ok r, t) ∧
        Added s c a r t := by
  unfold buildQueue
  rw [if_neg hsimd, if_neg (not_not_intro htype)]
  have hequipped : ∀ args, Equipped (s.allocate x sizeofQueue) a (findDevice node.device_id)
      (handleConcreteAsic node (s.allocate x sizeofQueue)
        (blankQueue (findDevice node.device_id)) args a).2.1
      (handleConcreteAsic node (s.allocate x sizeofQueue)
        (blankQueue (findDevice node.device_id)) args a).2.2.1 := fun args =>
    handleConcreteAsic_equipped (q := blankQueue (findDevice node.device_id)) rfl rfl
  have hbuffers : ∀ args, (handleConcreteAsic node (s.allocate x sizeofQueue)
      (blankQueue (findDevice node.device_id)) args a).1 = .success → BuffersGiven node a :=
    fun args => buffersGiven_of_success rfl hsimd
  specialize hequipped { gpu_id := node.gpu_id }
  specialize hbuffers { gpu_id := node.gpu_id }
  generalize handleConcreteAsic node (s.allocate x sizeofQueue)
    (blankQueue (findDevice node.device_id)) { gpu_id := node.gpu_id } a = r at hequipped hbuffers
  obtain ⟨status, t, q, args⟩ := r
  dsimp only at hequipped hbuffers ⊢
  have hfits := hequipped.fits ha hx hvacant
  rw [hequipped.built]
  by_cases hsuccess : status = .success
  · rw [if_neg (not_not_intro hsuccess)]
    obtain ⟨herr, hring⟩ := hgiven (hbuffers hsuccess)
    exact submitQueue_spec hfits hs ha hx herr hring
  · left
    rw [if_pos hsuccess, freeQueue_built hfits]
    rfl

/-- **`CreateQueue`,** where it is allowed, fails without a trace or adds a queue. -/
theorem createQueue_spec (hs : DoorbellsSettled s)
    (hvacant : ∀ x, Fresh s.memory x → s.queues x = none) (ha : Honest s a)
    (hallowed : CreateAllowed d s c a) :
    (∃ status, createQueue d s c a = some (.error status, s)) ∨
      ∃ r t, createQueue d s c a = some (.ok r, t) ∧ Added s c a r t := by
  unfold createQueue
  by_cases hpriority : c.priority < -3 ∨ 3 < c.priority
  · rw [if_pos hpriority]
    exact .inl ⟨_, rfl⟩
  rw [if_neg hpriority]
  cases hnode : d.nodes[c.nodeId]? with
  | none => exact .inl ⟨_, rfl⟩
  | some node =>
    cases hx : a.queueMemory with
    | none => exact .inl ⟨_, rfl⟩
    | some x =>
      obtain ⟨htype, hsimd, hgiven⟩ := hallowed node (by omega) hnode (by rw [hx]; rfl)
      obtain herror | hok := buildQueue_spec hs (hvacant x (ha.queue x hx)) ha hx htype hsimd hgiven
      · exact .inl ⟨_, herror⟩
      · exact .inr hok

/-! ### Destroying -/

/-- Without the queue `q` at `x`. -/
def State.without (s : State) (x : ℕ) (q : Queue) : State :=
  { s with
    memory := s.memory \ (queueParts x q).toFinset
    queues := Function.update s.queues x none
    driver := Function.update s.driver q.queue_id none }

/-- **`DestroyQueue`** of a queue that owns its memory gives everything back, unless the driver's
request fails. -/
theorem destroyQueue_spec {err : ℤ} (hx : x ≠ 0) (hq : s.queues x = some q) (hdev : q.WellFormed)
    (hnodup : (queueParts x q).Nodup) (hheld : ∀ b ∈ queueParts x q, b ∈ s.memory)
    (herr : err = 0 ∨ err = -1) :
    err = -1 ∧ destroyQueue s x err = some (.error, s) ∨
      err = 0 ∧ destroyQueue s x err = some (.success, s.without x q) := by
  rcases herr with rfl | rfl
  · right
    refine ⟨rfl, ?_⟩
    have hfree : freeQueue (s.cmdDestroyQueue q.queue_id 0) x = some (s.without x q) := by
      have hstate : s.cmdDestroyQueue q.queue_id 0 =
          { s with driver := Function.update s.driver q.queue_id none } := if_pos rfl
      have hheld' : ∀ b ∈ queueParts x q, b ∈ (s.cmdDestroyQueue q.queue_id 0).memory := by
        rwa [hstate]
      rw [freeQueue_eq (q := q) (by rwa [hstate]) hdev, giveBack_eq_some hnodup hheld', hstate]
      rfl
    rw [destroyQueue, if_neg hx, hq]
    simp only [Option.bind_eq_bind, Option.bind_some, hfree]
    rfl
  · left
    refine ⟨rfl, ?_⟩
    rw [destroyQueue, if_neg hx, hq]
    rfl

end Codrive.QueueMgr
