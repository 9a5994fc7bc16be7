/-
# Histories of a queue

Any history of calls on one queue, over any runtime.  Every operation is at the slot its own index
names, the empty slots come first, and a vector that reaches the limit is drained before it grows
(`Tidy`); between calls one slot is left for the marker of a drain (`Idle`).  The vector never
exceeds the compaction threshold, which is the limit, so no slot ever moves.
-/

import Codrive.Basis.Run
import Codrive.Csq.AsyncOps

namespace Codrive.Csq

open Codrive.Basis

/-! ### The vector -/

/-- The queue holds an operation at a slot. -/
def DlaQueue.HeldAt (q : DlaQueue) (i op : ℕ) : Prop := q.asyncOps[i]? = some (some op)

/-- The queue holds an operation. -/
def DlaQueue.Held (q : DlaQueue) (op : ℕ) : Prop := ∃ i, q.HeldAt i op

/-- **What the vector keeps**: indices name slots, empty slots are a prefix, and the limit holds and
always held. -/
structure DlaQueue.Tidy (q : DlaQueue) : Prop where
  index : ∀ i op, q.HeldAt i op → (q.cmds op).asyncOpsIndex = i ∧ op < q.made
  empties : ∀ i j : ℕ, i ≤ j → q.asyncOps[j]? = some none → q.asyncOps[i]? = some none
  length_le : q.asyncOps.length ≤ MAX_INFLIGHT_COMMANDS_PER_QUEUE
  most_le : q.most ≤ MAX_INFLIGHT_COMMANDS_PER_QUEUE

section

variable {q : DlaQueue} {i j op : ℕ} {asyncOps : List (Option ℕ)}

theorem length_releaseLoop (i : ℕ) (asyncOps : List (Option ℕ)) :
    (releaseLoop i asyncOps).length = asyncOps.length := by
  induction i generalizing asyncOps with
  | zero => rfl
  | succ i ih =>
    rw [releaseLoop]
    split
    · rw [ih, List.length_set]
    · rfl

/-- **What is released**: all slots below the end, where the empty ones are a prefix. -/
theorem getElem?_releaseLoop (hi : i ≤ asyncOps.length)
    (hempty : ∀ j k : ℕ, j ≤ k → k < i → asyncOps[k]? = some none → asyncOps[j]? = some none) :
    (releaseLoop i asyncOps)[j]? = if j < i then some none else asyncOps[j]? := by
  induction i generalizing asyncOps with
  | zero => simp [releaseLoop]
  | succ i ih =>
    have hslot : asyncOps[i]? = some asyncOps[i] := List.getElem?_eq_getElem hi
    rw [releaseLoop, hslot]
    cases ho : asyncOps[i] with
    | some op =>
      dsimp only
      rw [ih (by rw [List.length_set]; omega)]
      · rw [List.getElem?_set]
        split_ifs <;> first | rfl | omega
      · intro j k hjk hk hnone
        rw [List.getElem?_set_ne (by omega)] at hnone ⊢
        exact hempty j k hjk (by omega) hnone
    | none =>
      dsimp only
      split_ifs with hj
      · exact hempty j i (by omega) (by omega) (by rw [hslot, ho])
      · rfl

/-- An operation that no slot holds is not removed, and nothing is compacted. -/
theorem DlaQueue.removeAsyncOp_of_not_held (h : ¬q.Held op)
    (hlen : q.asyncOps.length ≤ ASYNCOPS_VECTOR_GC_SIZE) : q.removeAsyncOp op = q := by
  have hnot : q.asyncOps[(q.cmds op).targetIndex]? ≠ some (some op) := fun hat => h ⟨_, hat⟩
  unfold DlaQueue.removeAsyncOp
  dsimp only
  rw [if_neg hnot, if_neg (by omega)]

theorem DlaQueue.heldAt_place {x : ℕ} :
    (q.place op).HeldAt i x ↔ q.HeldAt i x ∨ i = q.asyncOps.length ∧ x = op := by
  unfold DlaQueue.HeldAt DlaQueue.place
  dsimp only
  rcases Nat.lt_trichotomy i q.asyncOps.length with hlt | rfl | hgt
  · rw [List.getElem?_append_left hlt]
    exact ⟨.inl, fun h => h.resolve_right (by omega)⟩
  · simp [eq_comm]
  · rw [List.getElem?_eq_none (by simp; omega), List.getElem?_eq_none (by omega)]
    simp
    omega

variable (h : q.Tidy)
include h

theorem DlaQueue.Tidy.targetIndex_eq (hi : q.HeldAt i op) : (q.cmds op).targetIndex = i := by
  have hlt : i < q.asyncOps.length := (List.getElem?_eq_some_iff.1 hi).1
  have hle : q.asyncOps.length ≤ 2 * 8192 := h.length_le
  unfold Cmd.targetIndex
  rw [(h.index i op hi).1]
  omega

/-- The limit is the compaction threshold. -/
theorem DlaQueue.Tidy.length_le_gc : q.asyncOps.length ≤ ASYNCOPS_VECTOR_GC_SIZE := h.length_le

/-- An operation is at one slot. -/
theorem DlaQueue.Tidy.heldAt_unique (hi : q.HeldAt i op) (hj : q.HeldAt j op) : i = j := by
  rw [← h.targetIndex_eq hi, ← h.targetIndex_eq hj]

/-- **A held operation is released with the older ones**, and no other. -/
theorem DlaQueue.Tidy.removeAsyncOp_held (hi : q.HeldAt i op) (j : ℕ) :
    (q.removeAsyncOp op).asyncOps[j]? = if j ≤ i then some none else q.asyncOps[j]? := by
  have hat : q.asyncOps[i]? = some (some op) := hi
  have hlt : i < q.asyncOps.length := (List.getElem?_eq_some_iff.1 hi).1
  have hle := h.length_le_gc
  unfold DlaQueue.removeAsyncOp
  dsimp only
  rw [h.targetIndex_eq hi, if_pos hat, if_neg (by rw [length_releaseLoop]; omega),
    getElem?_releaseLoop hlt fun j k hjk _ => h.empties j k hjk]
  simp only [Nat.lt_succ_iff]

/-- What a removal leaves is what was there, or empty. -/
theorem DlaQueue.Tidy.removeAsyncOp_cases (op : ℕ) :
    q.removeAsyncOp op = q ∨
      ∃ i, q.HeldAt i op ∧ ∀ j : ℕ,
        (q.removeAsyncOp op).asyncOps[j]? = if j ≤ i then some none else q.asyncOps[j]? := by
  by_cases hheld : q.Held op
  · obtain ⟨i, hi⟩ := hheld
    exact .inr ⟨i, hi, h.removeAsyncOp_held hi⟩
  · exact .inl (DlaQueue.removeAsyncOp_of_not_held hheld h.length_le_gc)

theorem DlaQueue.Tidy.length_removeAsyncOp (op : ℕ) :
    (q.removeAsyncOp op).asyncOps.length = q.asyncOps.length := by
  have hle := h.length_le_gc
  unfold DlaQueue.removeAsyncOp
  dsimp only
  split_ifs with hat hgc
  · rw [length_releaseLoop] at hgc
    omega
  · rw [length_releaseLoop]
  · omega
  · rfl

theorem DlaQueue.Tidy.removeAsyncOp (op : ℕ) : (q.removeAsyncOp op).Tidy := by
  rcases h.removeAsyncOp_cases op with heq | ⟨i, -, hslots⟩
  · rw [heq]
    exact h
  refine ⟨?_, ?_, ?_, h.most_le⟩
  · intro j x hx
    unfold DlaQueue.HeldAt at hx
    rw [hslots] at hx
    split_ifs at hx
    · cases hx
    · exact h.index j x hx
  · intro j k hjk hnone
    rw [hslots] at hnone ⊢
    split_ifs with hj
    · rfl
    · rw [if_neg (by omega)] at hnone
      exact h.empties j k hjk hnone
  · rw [h.length_removeAsyncOp]
    exact h.length_le

/-- What is held after a removal was held. -/
theorem DlaQueue.Tidy.held_of_removeAsyncOp {x : ℕ} (hx : (q.removeAsyncOp op).HeldAt i x) :
    q.HeldAt i x := by
  rcases h.removeAsyncOp_cases op with heq | ⟨j, -, hslots⟩
  · rw [heq] at hx
    exact hx
  · unfold DlaQueue.HeldAt at hx
    rw [hslots] at hx
    split_ifs at hx
    · cases hx
    · exact hx

/-- Another phase or signal of a command is nothing to the vector. -/
theorem DlaQueue.Tidy.update {c : Cmd} (hc : c.asyncOpsIndex = (q.cmds op).asyncOpsIndex) :
    ({ q with cmds := Function.update q.cmds op c } : DlaQueue).Tidy := by
  refine ⟨?_, h.empties, h.length_le, h.most_le⟩
  intro i x hx
  obtain ⟨hindex, hmade⟩ := h.index i x hx
  refine ⟨?_, hmade⟩
  by_cases hxop : x = op
  · rw [hxop] at hindex ⊢
    dsimp only
    rw [Function.update_self, hc, hindex]
  · dsimp only
    rw [Function.update_of_ne hxop, hindex]

theorem DlaQueue.Tidy.make : q.make.Tidy := by
  refine ⟨?_, h.empties, h.length_le, h.most_le⟩
  intro i x hx
  obtain ⟨hindex, hmade⟩ := h.index i x hx
  have hne : x ≠ q.made := by omega
  refine ⟨?_, Nat.lt_succ_of_lt hmade⟩
  rw [← hindex]
  unfold DlaQueue.make
  dsimp only
  rw [Function.update_of_ne hne]

/-- What is made last is not held. -/
theorem DlaQueue.Tidy.not_held_made : ¬q.Held q.made := by
  rintro ⟨i, hi⟩
  have := (h.index i _ hi).2
  omega

/-- An operation that is not held goes to a new slot, which its index names. -/
theorem DlaQueue.Tidy.place (hop : op < q.made) (hheld : ¬q.Held op)
    (hlen : q.asyncOps.length < MAX_INFLIGHT_COMMANDS_PER_QUEUE) : (q.place op).Tidy := by
  refine ⟨?_, ?_, ?_, Nat.max_le.2 ⟨h.most_le, hlen⟩⟩
  · intro i x hx
    rcases DlaQueue.heldAt_place.1 hx with hx | ⟨rfl, rfl⟩
    · have hne : x ≠ op := fun hxop => hheld ⟨i, hxop ▸ hx⟩
      unfold DlaQueue.place
      dsimp only
      rw [Function.update_of_ne hne]
      exact h.index i x hx
    · unfold DlaQueue.place
      dsimp only
      rw [Function.update_self]
      exact ⟨rfl, hop⟩
  · intro i j hij hnone
    unfold DlaQueue.place at hnone ⊢
    dsimp only at hnone ⊢
    by_cases hj : j < q.asyncOps.length
    · rw [List.getElem?_append_left hj] at hnone
      rw [List.getElem?_append_left (by omega)]
      exact h.empties i j hij hnone
    · rw [List.getElem?_append_right (by omega)] at hnone
      cases hk : j - q.asyncOps.length with
      | zero => simp [hk] at hnone
      | succ k => simp [hk] at hnone
  · unfold DlaQueue.place
    rw [List.length_append]
    exact hlen

end

/-! ### Calls -/

variable {σ : Type*}

/-- A call that returns does so with the property, and one that does not is stopped by an assertion
or waits for ever. -/
def Returns (r : Except Stop (World σ)) (P : World σ → Prop) : Prop :=
  match r with
  | .ok w => P w
  | .error e => e = .abort ∨ e = .blocked

section

variable {r : Except Stop (World σ)} {P Q : World σ → Prop}

theorem Returns.bind {f : World σ → Except Stop (World σ)} (h : Returns r P)
    (hf : ∀ w, P w → Returns (f w) Q) : Returns (r.bind f) Q := by
  cases r with
  | error e => exact h
  | ok w => exact hf w h

theorem Returns.map {f : World σ → World σ} (h : Returns r P) (hf : ∀ w, P w → Q (f w)) :
    Returns (r.map f) Q := by
  cases r with
  | error e => exact h
  | ok w => exact hf w h

theorem Returns.mono (h : Returns r P) (hPQ : ∀ w, P w → Q w) : Returns r Q := by
  cases r with
  | error e => exact h
  | ok w => exact hPQ w h

end

/-- Between calls: nothing is drained, and a slot is left for the marker of a drain. -/
structure DlaQueue.Idle (q : DlaQueue) : Prop where
  tidy : q.Tidy
  draining : q.draining = false
  room : q.asyncOps.length < MAX_INFLIGHT_COMMANDS_PER_QUEUE

/-- The queue while it is drained. -/
structure DlaQueue.Draining (q : DlaQueue) : Prop where
  tidy : q.Tidy
  draining : q.draining = true
  room : q.asyncOps.length < MAX_INFLIGHT_COMMANDS_PER_QUEUE

/-- What a wait leaves of a queue. -/
structure DlaQueue.Cleared (q q' : DlaQueue) : Prop where
  tidy : q'.Tidy
  asyncOps : q'.asyncOps = []
  made_le : q.made ≤ q'.made
  draining : q'.draining = true → q.draining = true

section

variable {rt : Runtime σ} {optFlush ndebug : Bool} {q q' : DlaQueue} {w : World σ} {op : ℕ}

theorem DlaQueue.Cleared.not_held (h : DlaQueue.Cleared q q') (op : ℕ) : ¬q'.Held op := by
  rintro ⟨i, hi⟩
  unfold DlaQueue.HeldAt at hi
  rw [h.asyncOps] at hi
  cases hi

/-- What the loop of `wait` does to the queue. -/
structure DlaQueue.Waited (q q' : DlaQueue) : Prop where
  tidy : q'.Tidy
  length_eq : q'.asyncOps.length = q.asyncOps.length
  made_eq : q'.made = q.made
  draining_eq : q'.draining = q.draining

/-- A future that is waited for removes its operation. -/
theorem futureWait_returns (h : w.queue.Tidy) :
    Returns (futureWait rt op w) fun w' => w.queue.Waited w'.queue := by
  have hremoved : w.queue.Waited ((w.queue.removeAsyncOp op).completed op) :=
    ⟨(h.removeAsyncOp op).update rfl, h.length_removeAsyncOp op, rfl, rfl⟩
  unfold futureWait
  split_ifs
  · exact ⟨h, rfl, rfl, rfl⟩
  · exact hremoved
  · split
    · exact .inr rfl
    · exact hremoved

/-- **The loop of `wait` stays inside the vector.** -/
theorem waitLoop_returns {i : ℕ} {found : Bool} (h : w.queue.Tidy)
    (hi : i ≤ w.queue.asyncOps.length) :
    Returns (waitLoop rt ndebug i found w) fun w' => w.queue.Waited w'.queue := by
  induction i generalizing found w with
  | zero => exact ⟨h, rfl, rfl, rfl⟩
  | succ i ih =>
    rw [waitLoop]
    split
    · rename_i hnone
      have := List.getElem?_eq_none_iff.1 hnone
      omega
    · exact ih h (by omega)
    · split_ifs
      · exact .inl rfl
      · refine (futureWait_returns h).bind fun w' hw' => ?_
        refine (ih hw'.tidy (by rw [hw'.length_eq]; omega)).mono fun w'' hw'' => ?_
        exact ⟨hw''.tidy, hw''.length_eq.trans hw'.length_eq, hw''.made_eq.trans hw'.made_eq,
          hw''.draining_eq.trans hw'.draining_eq⟩

theorem drain_returns (h : w.queue.Tidy) :
    Returns (drain rt ndebug w) fun w' => w.queue.Cleared w'.queue := by
  refine (waitLoop_returns h (Nat.le_refl _)).map fun w' hw' => ?_
  refine ⟨⟨?_, ?_, ?_, hw'.tidy.most_le⟩, rfl, Nat.le_of_eq hw'.made_eq.symm, fun hd => ?_⟩
  · intro i op hi
    cases hi
  · intro i j _ hnone
    cases hnone
  · exact Nat.zero_le _
  · exact hw'.draining_eq ▸ hd

/-- What `pushAsyncOp` leaves of a queue. -/
structure DlaQueue.Pushed (op : ℕ) (q q' : DlaQueue) : Prop where
  idle : q'.Idle
  made_le : q.made ≤ q'.made
  held : ∀ x, q'.Held x → q.Held x ∨ x = op

/-- A queue that is drained takes a marker into its last slot. -/
theorem pushAsyncOp_draining {f : World σ → Except Stop (World σ)} (h : w.queue.Draining) :
    pushAsyncOp f op w = .ok (w.modify (·.place op)) := by
  unfold pushAsyncOp
  rw [if_neg]
  simp [h.draining]

theorem DlaQueue.Tidy.held_place {x : ℕ} (hx : (q.place op).Held x) : q.Held x ∨ x = op := by
  obtain ⟨i, hi⟩ := hx
  rcases DlaQueue.heldAt_place.1 hi with hi | ⟨-, rfl⟩
  · exact .inl ⟨i, hi⟩
  · exact .inr rfl

/-- **A queue at the limit is drained before it takes an operation.** -/
theorem pushAsyncOp_returns {f : World σ → Except Stop (World σ)}
    (hf : ∀ w : World σ, w.queue.Draining → Returns (f w) fun w' => w.queue.Cleared w'.queue)
    (h : w.queue.Idle) (hop : op < w.queue.made) (hheld : ¬w.queue.Held op) :
    Returns (pushAsyncOp f op w) fun w' => w.queue.Pushed op w'.queue := by
  unfold pushAsyncOp
  split_ifs with hlimit
  · refine (hf (w.modify fun q => { q with draining := true }) ⟨?_, rfl, h.room⟩).map
      fun w' hw' => ?_
    · exact ⟨h.tidy.index, h.tidy.empties, h.tidy.length_le, h.tidy.most_le⟩
    · have hempty : w'.queue.asyncOps.length = 0 := by rw [hw'.asyncOps]; rfl
      have hmade : w.queue.made ≤ w'.queue.made := hw'.made_le
      refine ⟨⟨?_, rfl, ?_⟩, hmade, fun x hx => ?_⟩
      · exact hw'.tidy.place (by omega) (hw'.not_held op) (by rw [hempty]; decide)
      · change (w'.queue.asyncOps ++ [some op]).length < _
        rw [hw'.asyncOps]
        exact (by decide : 1 < MAX_INFLIGHT_COMMANDS_PER_QUEUE)
      · exact .inr ((DlaQueue.Tidy.held_place hx).resolve_left (hw'.not_held x))
  · have hroom : w.queue.asyncOps.length < 2 * 8192 - 1 := by
      by_contra hlen
      exact hlimit ⟨by simp [h.draining], Nat.le_of_not_lt hlen⟩
    refine ⟨⟨h.tidy.place hop hheld h.room, rfl, ?_⟩, Nat.le_refl _, fun x hx => ?_⟩
    · change (w.queue.asyncOps ++ [some op]).length < _
      rw [List.length_append]
      exact Nat.add_lt_of_lt_sub hroom
    · exact DlaQueue.Tidy.held_place hx

/-- A command goes out; the vector stays. -/
theorem DlaQueue.Tidy.dispatched {hasSignal release : Bool} (h : q.Tidy) :
    ({ q.dispatched op hasSignal with nextSyncNeedsSysRelease := release } : DlaQueue).Tidy := by
  have ht : (q.dispatched op hasSignal).Tidy := h.update rfl
  exact ⟨ht.index, ht.empties, ht.length_le, ht.most_le⟩

theorem DlaQueue.Idle.dispatched {hasSignal release : Bool} (h : q.Idle) :
    ({ q.dispatched op hasSignal with nextSyncNeedsSysRelease := release } : DlaQueue).Idle :=
  ⟨h.tidy.dispatched, h.draining, h.room⟩

theorem DlaQueue.Idle.make (h : q.Idle) : q.make.Idle := ⟨h.tidy.make, h.draining, h.room⟩

/-- A drain under another call: there is room for its marker. -/
theorem waitDepth_draining {n : ℕ} (h : w.queue.Draining) :
    Returns (waitDepth rt optFlush ndebug (n + 1) w) fun w' => w.queue.Cleared w'.queue := by
  rw [waitDepth]
  split_ifs
  · have hmake : w.queue.make.Draining := ⟨h.tidy.make, h.draining, h.room⟩
    unfold enqueueMarker
    rw [pushAsyncOp_draining (w := w.modify (·.make)) hmake]
    have hplaced := hmake.tidy.place (Nat.lt_succ_self _) h.tidy.not_held_made h.room
    have htidy : (enqueueAsync rt w.queue.made .system
        ((w.modify (·.make)).modify (·.place w.queue.made))).queue.Tidy := hplaced.dispatched
    refine (drain_returns htidy).mono fun w' hw' => ?_
    exact ⟨hw'.tidy, hw'.asyncOps, Nat.le_trans (Nat.le_succ _) hw'.made_le, fun _ => h.draining⟩
  · exact drain_returns h.tidy

theorem wait_draining (h : w.queue.Draining) :
    Returns (wait rt optFlush ndebug w) fun w' => w.queue.Cleared w'.queue :=
  waitDepth_draining h

/-- **A marker**, over calls of `wait` that only drain. -/
theorem enqueueMarkerWithDependency_returns {f : World σ → Except Stop (World σ)} {inherit : Bool}
    {scope : MemoryScope}
    (hf : ∀ w : World σ, w.queue.Draining → Returns (f w) fun w' => w.queue.Cleared w'.queue)
    (h : w.queue.Idle) :
    Returns (enqueueMarkerWithDependency rt f inherit scope w) fun w' =>
      w.queue.make.Pushed w.queue.made w'.queue := by
  refine (pushAsyncOp_returns hf (w := w.modify (·.make)) h.make (Nat.lt_succ_self _)
    h.tidy.not_held_made).map fun w' hw' => ?_
  exact ⟨hw'.idle.dispatched, hw'.made_le, hw'.held⟩

/-- `EnqueueMarker` is the marker without dependencies. -/
theorem enqueueMarker_eq {f : World σ → Except Stop (World σ)} {scope : MemoryScope} :
    enqueueMarker rt f scope w = enqueueMarkerWithDependency rt f false scope w := rfl

/-- **A wait between calls.** -/
theorem wait_returns (h : w.queue.Idle) :
    Returns (wait rt optFlush ndebug w) fun w' =>
      w.queue.Cleared w'.queue ∧ w'.queue.Idle := by
  have hidle {q q' : DlaQueue} (hq : q.draining = false) (hc : q.Cleared q') : q'.Idle := by
    refine ⟨hc.tidy, ?_, by rw [hc.asyncOps]; decide⟩
    cases hd : q'.draining with
    | false => rfl
    | true => rw [hc.draining hd] at hq; exact hq
  unfold wait
  rw [waitDepth]
  split_ifs
  · rw [enqueueMarker_eq]
    refine (enqueueMarkerWithDependency_returns (fun w hw => waitDepth_draining hw) h).bind ?_
    intro w' hw'
    refine (drain_returns hw'.idle.tidy).mono fun w'' hw'' => ?_
    refine ⟨⟨hw''.tidy, hw''.asyncOps, ?_, ?_⟩, hidle hw'.idle.draining hw''⟩
    · exact Nat.le_trans (Nat.le_succ _) (Nat.le_trans hw'.made_le hw''.made_le)
    · intro hd
      exact absurd (hw''.draining hd) (by simp [hw'.idle.draining])
  · exact (drain_returns h.tidy).mono fun w' hw' => ⟨hw', hidle h.draining hw'⟩

/-- The command of a copy, that is not pushed yet: the marker it may need is another one. -/
theorem enqueueAsyncCopyCommand_returns (h : w.queue.Idle) (hop : op < w.queue.made)
    (hheld : ¬w.queue.Held op) :
    Returns (enqueueAsyncCopyCommand rt optFlush ndebug op w) fun w' =>
      w'.queue.Idle ∧ op < w'.queue.made ∧ ¬w'.queue.Held op := by
  unfold enqueueAsyncCopyCommand
  split_ifs
  · refine (enqueueMarkerWithDependency_returns (fun w hw => wait_draining hw) h).map ?_
    intro w' hw'
    refine ⟨hw'.idle.dispatched, Nat.lt_of_lt_of_le (Nat.lt_succ_of_lt hop) hw'.made_le, ?_⟩
    intro hx
    rcases hw'.held op hx with hx | hx
    · exact hheld hx
    · omega
  · exact ⟨h.dispatched, hop, hheld⟩

theorem enqueueAsyncCopy_returns (h : w.queue.Idle) :
    Returns (enqueueAsyncCopy rt optFlush ndebug w) fun w' => w'.queue.Idle := by
  refine (enqueueAsyncCopyCommand_returns (w := w.modify (·.make)) h.make (Nat.lt_succ_self _)
    h.tidy.not_held_made).bind fun w' hw' => ?_
  obtain ⟨hidle, hmade, hheld⟩ := hw'
  exact (pushAsyncOp_returns (fun w hw => wait_draining hw) hidle hmade hheld).mono
    fun _ h => h.idle

theorem dispatchHsaKernel_returns {inOrder future : Bool} (h : w.queue.Idle) :
    Returns (dispatchHsaKernel rt optFlush ndebug inOrder future w) fun w' => w'.queue.Idle := by
  refine (pushAsyncOp_returns (fun w hw => wait_draining hw) (w := w.modify (·.make)) h.make
    (Nat.lt_succ_self _) h.tidy.not_held_made).map fun w' hw' => ?_
  exact hw'.idle.dispatched

end

/-! ### Histories -/

/-- A call on the queue, or what happens to its commands and its flag besides. -/
inductive Call where
  | pushAsyncOp (hasSignal : Bool) (phase : Phase)
  | removeAsyncOp (op : ℕ)
  | enqueueMarker (inherit : Bool) (scope : MemoryScope)
  | wait
  | dispatchHsaKernel (inOrder future : Bool)
  | enqueueAsyncCopy
  | cmd (op : ℕ) (hasSignal : Bool) (phase : Phase)
  | nextSync (r : Bool)

/-- The state of a command. -/
def DlaQueue.setCmd (op : ℕ) (hasSignal : Bool) (phase : Phase) (q : DlaQueue) : DlaQueue :=
  { q with
    cmds := Function.update q.cmds op { q.cmds op with hasSignal := hasSignal, phase := phase } }

/-- What a call does. -/
def exec (rt : Runtime σ) (optFlush ndebug : Bool) : Call → World σ → Except Stop (World σ)
  | .pushAsyncOp hasSignal phase, w =>
    Csq.pushAsyncOp (Csq.wait rt optFlush ndebug) w.queue.made
      (w.modify fun q => q.make.setCmd q.made hasSignal phase)
  | .removeAsyncOp op, w => .ok (w.modify (·.removeAsyncOp op))
  | .enqueueMarker inherit scope, w =>
    enqueueMarkerWithDependency rt (Csq.wait rt optFlush ndebug) inherit scope w
  | .wait, w => Csq.wait rt optFlush ndebug w
  | .dispatchHsaKernel inOrder future, w =>
    Csq.dispatchHsaKernel rt optFlush ndebug inOrder future w
  | .enqueueAsyncCopy, w => Csq.enqueueAsyncCopy rt optFlush ndebug w
  | .cmd op hasSignal phase, w =>
    .ok (w.modify (·.setCmd op hasSignal phase))
  | .nextSync r, w => .ok (w.modify fun q => { q with nextSyncNeedsSysRelease := r })

/-- A call that returns; the runtime is in any state when it is made. -/
def Step (rt : Runtime σ) (optFlush ndebug : Bool) (w : World σ) (c : Call) (w' : World σ) : Prop :=
  ∃ hw, exec rt optFlush ndebug c { w with hw := hw } = .ok w'

section

variable {rt : Runtime σ} {optFlush ndebug : Bool} {w w' : World σ} {c : Call}

/-- **Every call leaves the queue idle.** -/
theorem exec_returns (h : w.queue.Idle) :
    Returns (exec rt optFlush ndebug c w) fun w' => w'.queue.Idle := by
  cases c with
  | pushAsyncOp hasSignal phase =>
    have hmake := h.make
    exact (pushAsyncOp_returns (fun w hw => wait_draining hw)
      (w := w.modify fun q => q.make.setCmd q.made hasSignal phase)
      ⟨hmake.tidy.update rfl, hmake.draining, hmake.room⟩ (Nat.lt_succ_self _)
      h.tidy.not_held_made).mono fun _ h => h.idle
  | removeAsyncOp op =>
    refine ⟨h.tidy.removeAsyncOp op, h.draining, ?_⟩
    exact (h.tidy.length_removeAsyncOp op).symm ▸ h.room
  | enqueueMarker inherit scope =>
    exact (enqueueMarkerWithDependency_returns (fun w hw => wait_draining hw) h).mono
      fun _ h => h.idle
  | wait => exact (wait_returns h).mono fun _ h => h.2
  | dispatchHsaKernel inOrder future => exact dispatchHsaKernel_returns h
  | enqueueAsyncCopy => exact enqueueAsyncCopy_returns h
  | cmd op hasSignal phase => exact ⟨h.tidy.update rfl, h.draining, h.room⟩
  | nextSync r => exact ⟨⟨h.tidy.index, h.tidy.empties, h.tidy.length_le, h.tidy.most_le⟩,
      h.draining, h.room⟩

theorem idle_of_run {s : σ} {calls : List Call}
    (h : Run (Step rt optFlush ndebug) { hw := s } calls w) : w.queue.Idle := by
  refine Run.inv (I := fun w => w.queue.Idle) ?_ h ?_
  · rintro w c w' hw ⟨hw', hexec⟩
    have hreturns := @exec_returns σ rt optFlush ndebug { w with hw := hw' } c hw
    rw [hexec] at hreturns
    exact hreturns
  · refine ⟨⟨?_, ?_, Nat.zero_le _, Nat.zero_le _⟩, rfl, Nat.zero_lt_succ _⟩
    · intro i op hi
      cases hi
    · intro i j _ hnone
      cases hnone

/-- **Every operation is where its index says**: the empty slots are a prefix, the limit holds and
always held, removing a held operation releases it and the older ones and nothing else, and no call
reads outside of the vector, or waits more than two deep. -/
structure InPlace (rt : Runtime σ) (optFlush ndebug : Bool) (w : World σ) : Prop where
  index : ∀ i op, w.queue.HeldAt i op → (w.queue.cmds op).asyncOpsIndex = i
  empties : ∀ i j : ℕ, i ≤ j → w.queue.asyncOps[j]? = some none → w.queue.asyncOps[i]? = some none
  length_le : w.queue.asyncOps.length ≤ MAX_INFLIGHT_COMMANDS_PER_QUEUE
  most_le : w.queue.most ≤ MAX_INFLIGHT_COMMANDS_PER_QUEUE
  released : ∀ i op, w.queue.HeldAt i op → ∀ j : ℕ,
    (w.queue.removeAsyncOp op).asyncOps[j]? = if j ≤ i then some none else w.queue.asyncOps[j]?
  inRange : ∀ c hw, exec rt optFlush ndebug c { w with hw := hw } ≠ .error .outOfRange
  shallow : ∀ c hw, exec rt optFlush ndebug c { w with hw := hw } ≠ .error .depth

/-- **In every history of a queue, every operation stays where its index says.** -/
theorem inPlace_of_run {s : σ} {calls : List Call}
    (h : Run (Step rt optFlush ndebug) { hw := s } calls w) : InPlace rt optFlush ndebug w := by
  have hidle := idle_of_run h
  have hreturns (c : Call) (hw : σ) :=
    @exec_returns σ rt optFlush ndebug { w with hw := hw } c hidle
  refine ⟨fun i op hi => (hidle.tidy.index i op hi).1, hidle.tidy.empties, hidle.tidy.length_le,
    hidle.tidy.most_le, fun i op hi => hidle.tidy.removeAsyncOp_held hi, ?_, ?_⟩
  · intro c hw hr
    have := hreturns c hw
    rw [hr] at this
    rcases this with he | he <;> cases he
  · intro c hw hr
    have := hreturns c hw
    rw [hr] at this
    rcases this with he | he <;> cases he

/-- A runtime that completes a command when it is waited for. -/
def eagerRuntime : Runtime Unit where
  write _ _ := id
  copy _ _ := id
  await _ := some

/-- A kernel, a marker and a kernel; the marker is removed, and the first kernel with it. -/
theorem inPlace_of_run_three :
    ∃ w, w.queue.asyncOps = [none, none, some 2] ∧ InPlace eagerRuntime true false w :=
  have h : Run (Step eagerRuntime true false) { hw := () }
      [.dispatchHsaKernel true false, .enqueueMarker false .system, .dispatchHsaKernel true false,
        .removeAsyncOp 1] _ :=
    .cons ⟨(), rfl⟩ (.cons ⟨(), rfl⟩ (.cons ⟨(), rfl⟩ (.cons ⟨(), rfl⟩ (.nil _))))
  ⟨_, rfl, inPlace_of_run h⟩

end

end Codrive.Csq
