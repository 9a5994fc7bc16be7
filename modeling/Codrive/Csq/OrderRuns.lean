/-
# Histories of an in-order queue

Any history of kernels, markers, copies and waits, and any order in which the device executes them.
Packets are ordered by their barrier bits; a copy is ordered by the marker it depends on.  A packet
after a copy, and a copy that no release is needed for, are ordered by nothing: they have to come
when what they are to be after is complete (`Apart`).
-/

import Mathlib.Data.List.TakeWhile
import Codrive.Csq.AsyncOpsRuns
import Codrive.Csq.Order

namespace Codrive.Csq

open Codrive.Basis

/-! ### The device -/

/-- The device is kept from starting a command before another one. -/
def Engine.Keeps (e : Engine) (op a : ℕ) : Prop :=
  match e.work op with
  | .packet barrier => barrier = true ∧ (e.work a).isPacket = true
  | .copy none => False
  | .copy (some dep) => dep ∈ e.sent ∧ (a = dep ∨ a ∈ e.before dep)

/-- **What the device is kept from**: every command is held back by each earlier one that is not
complete. -/
structure Engine.Ordered (e : Engine) : Prop where
  unsent : ∀ op, op ∉ e.sent → e.stage op = .waiting
  inOrder : e.InOrder
  keeps : ∀ op ∈ e.sent, ∀ a ∈ e.before op, e.stage a = .done ∨ e.Keeps op a

section

variable {e : Engine} {op a : ℕ} {work : Work}

theorem Engine.mem_sent_of_before (h : a ∈ e.before op) : a ∈ e.sent :=
  (List.takeWhile_sublist _).subset h

/-- What is before a command stays when more is sent. -/
theorem Engine.before_send_of_mem {x : ℕ} (hx : x ∈ e.sent) :
    (e.send op work).before x = e.before x := by
  unfold Engine.before Engine.send
  dsimp only
  rw [List.takeWhile_append]
  refine if_neg fun hlen => ?_
  have heq := (List.takeWhile_prefix (fun y => decide (y ≠ x))).eq_of_length hlen
  have hself := List.mem_takeWhile_imp (heq.symm ▸ hx)
  simp at hself

/-- Before what is sent last is all that was sent. -/
theorem Engine.before_send_self (hop : op ∉ e.sent) : (e.send op work).before op = e.sent := by
  unfold Engine.before Engine.send
  dsimp only
  rw [List.takeWhile_append_of_pos]
  · simp
  · intro y hy
    exact decide_eq_true fun heq => hop (heq ▸ hy)

@[simp]
theorem Engine.step_sent (s : EngineStep) : (e.step s).sent = e.sent := by
  unfold Engine.step
  cases s <;> dsimp only <;> split <;> rfl

@[simp]
theorem Engine.step_work (s : EngineStep) : (e.step s).work = e.work := by
  unfold Engine.step
  cases s <;> dsimp only <;> split <;> rfl

@[simp]
theorem Engine.step_before (s : EngineStep) : (e.step s).before op = e.before op := by
  rw [Engine.before, Engine.step_sent, Engine.before]

/-- A command that may start is one that waits. -/
theorem Engine.waiting_of_mayStart (h : e.mayStart op = true) :
    op ∈ e.sent ∧ e.stage op = .waiting := by
  unfold Engine.mayStart at h
  simp only [Bool.and_eq_true, decide_eq_true_eq] at h
  exact h.1

/-- What is complete stays so. -/
theorem Engine.step_done (s : EngineStep) (h : e.stage a = .done) : (e.step s).stage a = .done := by
  unfold Engine.step
  cases s with
  | start op =>
    dsimp only
    split
    · rename_i hstart
      have hne : a ≠ op := by
        rintro rfl
        rw [(Engine.waiting_of_mayStart hstart).2] at h
        cases h
      exact (Function.update_of_ne hne ..).trans h
    · exact h
  | finish op =>
    dsimp only
    split
    · by_cases hne : a = op
      · rw [hne]
        exact Function.update_self ..
      · exact (Function.update_of_ne hne ..).trans h
    · exact h

/-- What waits no more after a step has started with it. -/
theorem Engine.mayStart_of_step {s : EngineStep} (hwaiting : e.stage op = .waiting)
    (hstage : (e.step s).stage op ≠ .waiting) : e.mayStart op = true := by
  unfold Engine.step at hstage
  cases s with
  | start x =>
    dsimp only at hstage
    split at hstage
    · rename_i hstart
      by_cases hx : op = x
      · exact hx ▸ hstart
      · exact absurd ((Function.update_of_ne hx ..).trans hwaiting) hstage
    · exact absurd hwaiting hstage
  | finish x =>
    dsimp only at hstage
    split at hstage
    · rename_i hstarted
      have hne : op ≠ x := by
        rintro rfl
        rw [hwaiting] at hstarted
        cases hstarted
      exact absurd ((Function.update_of_ne hne ..).trans hwaiting) hstage
    · exact absurd hwaiting hstage

/-- **A command that starts is after nothing that is not complete.** -/
theorem Engine.Ordered.done_of_mayStart (h : e.Ordered) (hstart : e.mayStart op = true)
    (ha : a ∈ e.before op) : e.stage a = .done := by
  have hop := (Engine.waiting_of_mayStart hstart).1
  rcases h.keeps op hop a ha with hdone | hkeeps
  · exact hdone
  unfold Engine.mayStart at hstart
  unfold Engine.Keeps at hkeeps
  cases hwork : e.work op with
  | packet barrier =>
    rw [hwork] at hkeeps hstart
    obtain ⟨rfl, hpacket⟩ := hkeeps
    have := List.all_eq_true.1 (Bool.and_eq_true_iff.1 hstart).2 a ha
    simpa [hpacket] using this
  | copy dep =>
    rw [hwork] at hkeeps hstart
    cases dep with
    | none => exact hkeeps.elim
    | some dep =>
      have hdep : e.stage dep = .done := by simpa using (Bool.and_eq_true_iff.1 hstart).2
      obtain ⟨hmem, rfl | hbefore⟩ := hkeeps
      · exact hdep
      · exact h.inOrder dep hmem (by simp [hdep]) a hbefore

/-- **A step of the device keeps the order.** -/
theorem Engine.Ordered.step (h : e.Ordered) (s : EngineStep) : (e.step s).Ordered := by
  have hkeeps (op a : ℕ) (hk : e.Keeps op a) : (e.step s).Keeps op a := by
    unfold Engine.Keeps at hk ⊢
    simpa using hk
  refine ⟨?_, ?_, ?_⟩
  · intro op hop
    rw [Engine.step_sent] at hop
    by_contra hstage
    exact hop (Engine.waiting_of_mayStart
      (Engine.mayStart_of_step (h.unsent op hop) hstage)).1
  · intro op hop hstage a ha
    rw [Engine.step_sent] at hop
    rw [Engine.step_before] at ha
    refine Engine.step_done s ?_
    by_cases hwaiting : e.stage op = .waiting
    · exact h.done_of_mayStart (Engine.mayStart_of_step hwaiting hstage) ha
    · exact h.inOrder op hop hwaiting a ha
  · intro op hop a ha
    rw [Engine.step_sent] at hop
    rw [Engine.step_before] at ha
    exact (h.keeps op hop a ha).imp (Engine.step_done s) (hkeeps op a)

/-- **A command is sent** that everything earlier keeps back. -/
theorem Engine.Ordered.send (h : e.Ordered) (hop : op ∉ e.sent)
    (hkeeps : ∀ a ∈ e.sent, e.stage a = .done ∨ (e.send op work).Keeps op a) :
    (e.send op work).Ordered := by
  have hmem {x : ℕ} : x ∈ (e.send op work).sent ↔ x ∈ e.sent ∨ x = op := by
    simp [Engine.send]
  have hwork {x : ℕ} (hx : x ∈ e.sent) : (e.send op work).work x = e.work x :=
    Function.update_of_ne (fun heq : x = op => hop (heq ▸ hx)) ..
  refine ⟨?_, ?_, ?_⟩
  · intro x hx
    exact h.unsent x fun hxe => hx (hmem.2 (.inl hxe))
  · intro x hx hstage a ha
    rcases hmem.1 hx with hx | rfl
    · rw [Engine.before_send_of_mem hx] at ha
      exact h.inOrder x hx hstage a ha
    · exact absurd (h.unsent x hop) hstage
  · intro x hx a ha
    rcases hmem.1 hx with hx | rfl
    · rw [Engine.before_send_of_mem hx] at ha
      refine (h.keeps x hx a ha).imp_right fun hk => ?_
      unfold Engine.Keeps at hk ⊢
      rw [hwork hx, hwork (Engine.mem_sent_of_before ha)]
      cases hw : e.work x with
      | packet barrier => simpa [hw] using hk
      | copy dep =>
        cases dep with
        | none =>
          rw [hw] at hk
          exact hk.elim
        | some dep =>
          rw [hw] at hk
          refine ⟨hmem.2 (.inl hk.1), ?_⟩
          rw [Engine.before_send_of_mem hk.1]
          exact hk.2
    · rw [Engine.before_send_self hop] at ha
      exact hkeeps a ha

/-- A copy is after what its marker is after, and after the marker. -/
theorem Engine.keeps_of_marker {marker : ℕ} (hmarker : marker ∈ e.sent)
    (ha : a = marker ∨ a ∈ e.before marker) : (e.send op (.copy (some marker))).Keeps op a := by
  have hwork : (e.send op (.copy (some marker))).work op = .copy (some marker) :=
    Function.update_self ..
  unfold Engine.Keeps
  rw [hwork]
  refine ⟨List.mem_append_left _ hmarker, ?_⟩
  rw [Engine.before_send_of_mem hmarker]
  exact ha

/-- What every step of the device keeps, the steps that come next keep. -/
theorem Engine.advance_inv {I : Engine → Prop} (hstep : ∀ e s, I e → I (e.step s))
    (hwait : ∀ e schedule, I e → I { e with schedule := schedule }) (h : I e) : I e.advance := by
  unfold Engine.advance
  split
  · exact h
  · rename_i steps schedule _
    refine hwait _ schedule ?_
    clear * - h hstep
    induction steps generalizing e with
    | nil => exact h
    | cons s steps ih => exact ih (hstep e s h)

/-- The device is given nothing by itself. -/
theorem Engine.advance_frame :
    e.advance.sent = e.sent ∧ e.advance.work = e.work ∧
      ∀ a, e.stage a = .done → e.advance.stage a = .done := by
  refine Engine.advance_inv
    (I := fun e' => e'.sent = e.sent ∧ e'.work = e.work ∧
      ∀ a, e.stage a = .done → e'.stage a = .done) ?_ (fun _ _ h => h) ⟨rfl, rfl, fun _ h => h⟩
  rintro e' s ⟨hsent, hwork, hdone⟩
  exact ⟨(Engine.step_sent s).trans hsent, (Engine.step_work s).trans hwork,
    fun a ha => Engine.step_done s (hdone a ha)⟩

theorem Engine.Ordered.advance (h : e.Ordered) : e.advance.Ordered :=
  Engine.advance_inv (fun _ s h => h.step s) (fun _ _ h => ⟨h.unsent, h.inOrder, h.keeps⟩) h

/-- All copies are complete. -/
def Engine.CopiesDone (e : Engine) : Prop :=
  ∀ a ∈ e.sent, (e.work a).isPacket = false → e.stage a = .done

/-- All commands are complete. -/
def Engine.AllDone (e : Engine) : Prop := ∀ a ∈ e.sent, e.stage a = .done

theorem Engine.CopiesDone.advance (h : e.CopiesDone) : e.advance.CopiesDone := by
  obtain ⟨hsent, hwork, hdone⟩ := e.advance_frame
  intro a ha hcopy
  rw [hsent] at ha
  rw [hwork] at hcopy
  exact hdone a (h a ha hcopy)

/-- A packet is no copy. -/
theorem Engine.CopiesDone.packet {barrier : Bool} (h : e.CopiesDone) :
    (e.send op (.packet barrier)).CopiesDone := by
  intro a ha hcopy
  by_cases hne : a = op
  · simp [hne, Engine.send, Work.isPacket] at hcopy
  · have hmem : a ∈ e.sent := by simpa [Engine.send, hne] using ha
    refine h a hmem ?_
    simpa [Engine.send, Function.update_of_ne hne] using hcopy

end

/-! ### Calls -/

section

variable {σ : Type*} {r : Except Stop (World σ)} {P Q : World σ → Prop}

/-- A call that returns does so with the property. -/
def Ensures (r : Except Stop (World σ)) (P : World σ → Prop) : Prop := ∀ w, r = .ok w → P w

theorem Ensures.bind {f : World σ → Except Stop (World σ)} (h : Ensures r P)
    (hf : ∀ w, P w → Ensures (f w) Q) : Ensures (r.bind f) Q := by
  cases r with
  | error e =>
    intro w hw
    cases hw
  | ok w => exact hf w (h w rfl)

theorem Ensures.map {f : World σ → World σ} (h : Ensures r P) (hf : ∀ w, P w → Q (f w)) :
    Ensures (r.map f) Q := by
  cases r with
  | error e =>
    intro w hw
    cases hw
  | ok w =>
    intro w' hw'
    cases hw'
    exact hf w (h w rfl)

theorem Ensures.mono (h : Ensures r P) (hPQ : ∀ w, P w → Q w) : Ensures r Q :=
  fun w hw => hPQ w (h w hw)

theorem Ensures.ok {w : World σ} (h : P w) : Ensures (.ok w) P := by
  rintro w' hw'
  cases hw'
  exact h

theorem Ensures.error {e : Stop} : Ensures (σ := σ) (.error e) P := by
  rintro w' hw'
  cases hw'

end

/-- **Between calls**: what the device has is ordered, and no copy is outstanding while a release is
pending. -/
structure InStep (w : World Engine) : Prop where
  ordered : w.hw.Ordered
  below : ∀ op ∈ w.hw.sent, op < w.queue.made
  released : w.queue.nextSyncNeedsSysRelease = true → w.hw.CopiesDone

/-- What a part of a call does that sends no copy. -/
structure Grown (w w' : World Engine) : Prop where
  made_le : w.queue.made ≤ w'.queue.made
  sent : ∀ x ∈ w'.hw.sent, x ∈ w.hw.sent ∨ w.queue.made ≤ x
  copies : w.hw.CopiesDone → w'.hw.CopiesDone

section

variable {optFlush ndebug : Bool} {w w' w'' : World Engine} {op : ℕ}
variable {f : World Engine → Except Stop (World Engine)}

theorem Grown.refl (w : World Engine) : Grown w w :=
  ⟨Nat.le_refl _, fun _ hx => .inl hx, id⟩

theorem Grown.trans (h : Grown w w') (h' : Grown w' w'') : Grown w w'' := by
  refine ⟨Nat.le_trans h.made_le h'.made_le, fun x hx => ?_, fun hc => h'.copies (h.copies hc)⟩
  rcases h'.sent x hx with hx | hx
  · exact h.sent x hx
  · exact .inr (Nat.le_trans h.made_le hx)

/-- The device takes the steps that come next. -/
theorem InStep.advance (h : InStep w) :
    InStep { w with hw := w.hw.advance } ∧ Grown w { w with hw := w.hw.advance } := by
  have hsent : w.hw.advance.sent = w.hw.sent := Engine.advance_frame.1
  refine ⟨⟨h.ordered.advance, fun op hop => h.below op (hsent ▸ hop),
    fun hr => (h.released hr).advance⟩, Nat.le_refl _, fun x hx => .inl (hsent ▸ hx), ?_⟩
  exact Engine.CopiesDone.advance

/-- **A packet is sent** while no copy is outstanding. -/
theorem InStep.packet {q : DlaQueue} (h : InStep w) (hop : op ∉ w.hw.sent)
    (hmade : op < q.made) (hq : w.queue.made ≤ q.made) (hcopies : w.hw.CopiesDone) :
    InStep { queue := q, hw := w.hw.advance.send op (.packet true) } := by
  obtain ⟨hsent, hwork, -⟩ := w.hw.advance_frame
  have hop' : op ∉ w.hw.advance.sent := hsent ▸ hop
  have hcopies' := hcopies.advance
  refine ⟨h.ordered.advance.send hop' fun a ha => ?_, fun x hx => ?_, fun _ => hcopies'.packet⟩
  · have hne : a ≠ op := fun heq => hop' (heq ▸ ha)
    cases hp : (w.hw.advance.work a).isPacket with
    | false => exact .inl (hcopies' a ha hp)
    | true =>
      right
      simp [Engine.Keeps, Engine.send, hne, hp]
  · have hx : x ∈ w.hw.advance.sent ∨ x = op := by simpa [Engine.send] using hx
    rcases hx with hx | rfl
    · exact Nat.lt_of_lt_of_le (h.below x (hsent ▸ hx)) hq
    · exact hmade

/-- What a wait under another call is to do. -/
def Grows (f : World Engine → Except Stop (World Engine)) : Prop :=
  ∀ w, InStep w → Ensures (f w) fun w' => InStep w' ∧ Grown w w'

theorem pushAsyncOp_grows (hf : Grows f) : Grows (pushAsyncOp f op) := by
  intro w h
  unfold pushAsyncOp
  split_ifs
  · refine (hf (w.modify fun q => { q with draining := true })
      ⟨h.ordered, h.below, h.released⟩).map fun w' hw' => ?_
    obtain ⟨hw', hgrown⟩ := hw'
    exact ⟨⟨hw'.ordered, hw'.below, hw'.released⟩, hgrown.made_le, hgrown.sent, hgrown.copies⟩
  · exact .ok ⟨⟨h.ordered, h.below, h.released⟩, Nat.le_refl _, fun _ hx => .inl hx, id⟩

theorem InStep.make (h : InStep w) :
    InStep (w.modify (·.make)) ∧ w.queue.made ∉ w.hw.sent :=
  ⟨⟨h.ordered, fun op hop => Nat.lt_succ_of_lt (h.below op hop), h.released⟩,
    fun hop => Nat.lt_irrefl _ (h.below _ hop)⟩

/-- A command is made and placed, and is not sent yet. -/
theorem place_grows (hf : Grows f) (h : InStep w) :
    Ensures (pushAsyncOp f w.queue.made (w.modify (·.make))) fun w' =>
      InStep w' ∧ Grown w w' ∧ w.queue.made < w'.queue.made ∧ w.queue.made ∉ w'.hw.sent := by
  obtain ⟨hmake, hunsent⟩ := h.make
  refine (pushAsyncOp_grows hf _ hmake).mono fun w' hw' => ?_
  obtain ⟨hw', hgrown⟩ := hw'
  have hlt : w.queue.made < w'.queue.made := hgrown.made_le
  refine ⟨hw', ⟨Nat.le_of_lt hlt, fun x hx => ?_, hgrown.copies⟩, hlt, fun hx => ?_⟩
  · exact (hgrown.sent x hx).imp_right fun hx => Nat.le_trans (Nat.le_succ _) hx
  · exact (hgrown.sent _ hx).elim hunsent fun hx => Nat.lt_irrefl _ hx

/-- What a marker leaves: it was sent last. -/
structure Marker (marker : ℕ) (scope : MemoryScope) (w : World Engine) : Prop where
  sent : ∃ e : Engine, marker ∉ e.sent ∧ w.hw = e.send marker (.packet true)
  released : scope = .system → w.queue.nextSyncNeedsSysRelease = false

/-- **A marker**, while no copy is outstanding. -/
theorem enqueueMarkerWithDependency_grows {inherit : Bool} {scope : MemoryScope} (hf : Grows f)
    (h : InStep w) (hcopies : w.hw.CopiesDone) :
    Ensures (enqueueMarkerWithDependency engine f inherit scope w) fun w' =>
      InStep w' ∧ Grown w w' ∧ Marker w.queue.made scope w' := by
  refine (place_grows hf h).map fun w' hw' => ?_
  obtain ⟨hw', hgrown, hmade, hunsent⟩ := hw'
  have hcopies' := hgrown.copies hcopies
  have hsent : w'.hw.advance.sent = w'.hw.sent := Engine.advance_frame.1
  refine ⟨hw'.packet hunsent hmade (Nat.le_refl _) hcopies', ⟨hgrown.made_le, fun x hx => ?_,
    fun _ => hcopies'.advance.packet⟩, ⟨w'.hw.advance, hsent ▸ hunsent, rfl⟩, ?_⟩
  · have hx : x ∈ w'.hw.advance.sent ∨ x = w.queue.made := by
      simpa [enqueueAsync, engine, Engine.send, World.modify] using hx
    rcases hx with hx | rfl
    · exact hgrown.sent x (hsent ▸ hx)
    · exact .inr (Nat.le_refl _)
  · rintro rfl
    rfl

/-- A wait for a command changes nothing but what is held. -/
theorem futureWait_grows : Grows (futureWait engine op) := by
  intro w h
  unfold futureWait
  split_ifs
  · exact .ok ⟨h, .refl w⟩
  · exact .ok ⟨⟨h.ordered, h.below, h.released⟩, Nat.le_refl _, fun _ hx => .inl hx, id⟩
  · split
    · exact .error
    · rename_i hw hawait
      simp only [engine, Option.ite_none_right_eq_some, Option.some.injEq] at hawait
      obtain ⟨-, rfl⟩ := hawait
      obtain ⟨hadvance, hgrown⟩ := h.advance
      exact .ok ⟨⟨hadvance.ordered, hadvance.below, hadvance.released⟩, hgrown.made_le,
        hgrown.sent, hgrown.copies⟩

theorem waitLoop_grows (i : ℕ) (found : Bool) : Grows (waitLoop engine ndebug i found) := by
  induction i generalizing found with
  | zero => exact fun w h => .ok ⟨h, .refl w⟩
  | succ i ih =>
    intro w h
    rw [waitLoop]
    split
    · exact .error
    · exact ih found w h
    · split_ifs
      · exact .error
      · refine (futureWait_grows w h).bind fun w' hw' => ?_
        exact (ih true w' hw'.1).mono fun w'' hw'' => ⟨hw''.1, hw'.2.trans hw''.2⟩

theorem drain_grows : Grows (drain engine ndebug) := by
  intro w h
  refine (waitLoop_grows _ false w h).map fun w' hw' => ?_
  exact ⟨⟨hw'.1.ordered, hw'.1.below, hw'.1.released⟩, hw'.2.made_le, hw'.2.sent, hw'.2.copies⟩

/-- **A wait**: a marker goes out only while a release is pending. -/
theorem waitDepth_grows (n : ℕ) : Grows (waitDepth engine optFlush ndebug n) := by
  induction n with
  | zero => exact fun w h => .error
  | succ n ih =>
    intro w h
    rw [waitDepth]
    split_ifs with hrelease
    · have hcopies := h.released (Bool.and_eq_true_iff.1 hrelease).2
      rw [enqueueMarker_eq]
      refine (enqueueMarkerWithDependency_grows ih h hcopies).bind fun w' hw' => ?_
      exact (drain_grows w' hw'.1).mono fun w'' hw'' => ⟨hw''.1, hw'.2.1.trans hw''.2⟩
    · exact drain_grows w h

theorem wait_grows : Grows (wait engine optFlush ndebug) := waitDepth_grows 2

/-- **A kernel**, while no copy is outstanding. -/
theorem dispatchHsaKernel_inStep {future : Bool} (h : InStep w) (hcopies : w.hw.CopiesDone) :
    Ensures (dispatchHsaKernel engine optFlush ndebug true future w) InStep := by
  refine (place_grows wait_grows h).map fun w' hw' => ?_
  obtain ⟨hw', hgrown, hmade, hunsent⟩ := hw'
  exact hw'.packet hunsent hmade (Nat.le_refl _) (hgrown.copies hcopies)

/-- **A copy**, while a release is pending or all is complete. -/
theorem enqueueAsyncCopy_inStep (h : InStep w)
    (hapart : w.queue.nextSyncNeedsSysRelease = true ∨ w.hw.AllDone) :
    Ensures (enqueueAsyncCopy engine optFlush ndebug w) InStep := by
  -- the copy is sent
  have hcopy {w' : World Engine} {op : ℕ} {dep : Option ℕ} (h' : InStep w')
      (hmade : op < w'.queue.made) (hop : op ∉ w'.hw.sent)
      (hrelease : w'.queue.nextSyncNeedsSysRelease = false)
      (hkeeps : ∀ a ∈ w'.hw.advance.sent, w'.hw.advance.stage a = .done ∨
        (w'.hw.advance.send op (.copy dep)).Keeps op a) :
      InStep (hccMemoryAsyncCopy engine op dep w') := by
    have hsent : w'.hw.advance.sent = w'.hw.sent := Engine.advance_frame.1
    refine ⟨h'.ordered.advance.send (hsent ▸ hop) hkeeps, fun x hx => ?_, fun hr => ?_⟩
    · have hx : x ∈ w'.hw.advance.sent ∨ x = op := by
        simpa [hccMemoryAsyncCopy, engine, Engine.send] using hx
      rcases hx with hx | rfl
      · exact h'.below x (hsent ▸ hx)
      · exact hmade
    · have hr : w'.queue.nextSyncNeedsSysRelease = true := hr
      rw [hrelease] at hr
      cases hr
  obtain ⟨hmake, hunsent⟩ := h.make
  unfold enqueueAsyncCopy enqueueAsyncCopyCommand
  refine Ensures.bind (P := InStep) ?_ fun w' hw' =>
    (pushAsyncOp_grows wait_grows w' hw').mono fun _ hw'' => hw''.1
  split_ifs with hrelease
  · -- a marker goes before it
    refine (enqueueMarkerWithDependency_grows wait_grows hmake (h.released hrelease)).map ?_
    rintro w' ⟨hw', hgrown, ⟨e, hunsent', hhw⟩, hreleased⟩
    have hlt : w.queue.made < (w.modify (·.make)).queue.made := Nat.lt_succ_self _
    refine hcopy hw' (Nat.lt_of_lt_of_le hlt hgrown.made_le) (fun hx => ?_) (hreleased rfl) ?_
    · exact (hgrown.sent _ hx).elim hunsent fun hx => Nat.lt_irrefl _ hx
    · intro a ha
      right
      have hsent : w'.hw.advance.sent = e.sent ++ [(w.modify (·.make)).queue.made] := by
        rw [Engine.advance_frame.1, hhw]
        rfl
      have hmem : (w.modify (·.make)).queue.made ∈ w'.hw.advance.sent := by
        rw [hsent]
        simp
      have hbefore : w'.hw.advance.before (w.modify (·.make)).queue.made = e.sent := by
        rw [Engine.before, Engine.advance_frame.1, hhw]
        exact Engine.before_send_self hunsent'
      refine Engine.keeps_of_marker hmem ?_
      rw [hsent] at ha
      rw [hbefore]
      exact (List.mem_append.1 ha).symm.imp_left List.mem_singleton.1
  · have hdone : w.hw.AllDone := hapart.resolve_left hrelease
    obtain ⟨hsent, -, hstage⟩ := w.hw.advance_frame
    refine .ok (hcopy hmake (Nat.lt_succ_self _) hunsent (Bool.eq_false_iff.2 hrelease) ?_)
    exact fun a ha => .inl (hstage a (hdone a (hsent ▸ ha)))

/-! ### Histories -/

/-- A call comes when it is ordered by what goes before it: a packet while no copy is outstanding, a
copy while a release is pending or nothing is outstanding. -/
def Apart (w : World Engine) : OrderEvent → Prop
  | .call (.kernel _) => w.hw.CopiesDone
  | .call (.marker _ _) => w.hw.CopiesDone
  | .call .copy => w.queue.nextSyncNeedsSysRelease = true ∨ w.hw.AllDone
  | _ => True

/-- **A step of a queue and its device.** -/
theorem InStep.step {e : OrderEvent} (h : InStep w) (hapart : Apart w e)
    (hstep : OrderStep optFlush ndebug w e w') : InStep w' := by
  cases hstep with
  | @device s =>
    refine ⟨h.ordered.step s, fun op hop => h.below op (Engine.step_sent s ▸ hop), ?_⟩
    intro hr a ha hcopy
    rw [Engine.step_sent] at ha
    rw [Engine.step_work] at hcopy
    exact Engine.step_done s (h.released hr a ha hcopy)
  | @call _ c schedule hrun =>
    have hw : InStep { w with hw := { w.hw with schedule := schedule } } :=
      ⟨⟨h.ordered.unsent, h.ordered.inOrder, h.ordered.keeps⟩, h.below, h.released⟩
    cases c with
    | kernel future => exact dispatchHsaKernel_inStep hw hapart w' hrun
    | marker inherit scope =>
      exact (enqueueMarkerWithDependency_grows wait_grows hw hapart w' hrun).1
    | copy => exact enqueueAsyncCopy_inStep hw hapart w' hrun
    | wait => exact (wait_grows _ hw w' hrun).1

/-- **In every history whose calls are apart, no command starts before all earlier ones are
complete.** -/
theorem inOrder_of_run {events : List OrderEvent}
    (h : Run (Guarded Apart (OrderStep optFlush ndebug)) { hw := {} } events w) : w.hw.InOrder := by
  have hinv : InStep w := by
    refine Run.inv (I := InStep) (fun _ _ _ hs hstep => hs.step hstep.1 hstep.2) h ?_
    refine ⟨⟨fun _ _ => rfl, ?_, ?_⟩, ?_, fun hr => by cases hr⟩
    all_goals
      intro op hop
      cases hop
  exact hinv.ordered.inOrder

/-- A kernel and a copy, and the device at work. -/
theorem inOrder_of_run_two :
    ∃ w : World Engine, w.hw.stage 1 = .started ∧ w.hw.InOrder :=
  have h : Run (Guarded Apart (OrderStep true false)) { hw := {} }
      [.call (.kernel false), .call .copy, .device (.start 0), .device (.finish 0),
        .device (.start 2), .device (.finish 2), .device (.start 1)] _ :=
    .cons ⟨by simp [Apart, Engine.CopiesDone], @OrderStep.call true false _ _ _ [] rfl⟩
      (.cons ⟨.inl rfl, @OrderStep.call true false _ _ _ [] rfl⟩
        (.cons ⟨trivial, .device⟩ (.cons ⟨trivial, .device⟩ (.cons ⟨trivial, .device⟩
          (.cons ⟨trivial, .device⟩ (.cons ⟨trivial, .device⟩ (.nil _)))))))
  ⟨_, rfl, inOrder_of_run h⟩

/-- **A kernel starts while a copy before it has not**: it waits for packets only. -/
theorem kernel_overtakes_copy :
    ∃ w : World Engine, Run (OrderStep true false) { hw := {} }
      [.call .copy, .call (.kernel false), .device (.start 1)] w ∧ ¬w.hw.InOrder := by
  have h : Run (OrderStep true false) { hw := {} }
      [.call .copy, .call (.kernel false), .device (.start 1)] _ :=
    .cons (@OrderStep.call true false _ _ _ [] rfl)
      (.cons (@OrderStep.call true false _ _ _ [] rfl) (.cons .device (.nil _)))
  refine ⟨_, h, fun hin => ?_⟩
  have := hin 1 (by decide) (by decide) 0 (by decide)
  revert this
  decide

end

end Codrive.Csq
