/-
# What calls leave of the rings

Every call on a queue keeps what the queue and its ring have in common, and writes to no full ring
(`QueueCall.run_kept`).  What it does to the device meanwhile is a sequence of steps of the device,
packets at its own place, and copies (`HwStep`), which is all that other queues see of it.
-/

import Mathlib.Logic.Relation
import Codrive.Csq.RingsInv

namespace Codrive.Csq

open Codrive.Basis Relation

/-- What a call on a queue does to the device, step by step. -/
inductive HwStep (q : ℕ) (p : Place) : Hw → Hw → Prop
  | device (s : DeviceStep) (hw : Hw) : HwStep q p hw (hw.device s)
  | write (op : ℕ) (hw : Hw) : HwStep q p hw (hw.write p (q, op))
  | copy (op : ℕ) (dep : Option CmdId) (hw : Hw) : HwStep q p hw (hw.copy (q, op) dep)
  | wait (schedule : List (List DeviceStep)) (hw : Hw) :
      HwStep q p hw { hw with schedule := schedule }

/-- **What a call keeps**, from the state of the device when it was made. -/
structure Kept (optFlush : Bool) (q : ℕ) (p : Place) (hw : Hw) (w : World Hw) : Prop where
  core : Core optFlush q p w
  clean : w.hw.Clean
  steps : ReflTransGen (HwStep q p) hw w.hw

/-- The commands that are not held stay as they are. -/
def DlaQueue.Spares (q q' : DlaQueue) : Prop :=
  ∀ x < q.made, ¬q.Held x → q'.cmds x = q.cmds x

section

variable {optFlush ndebug : Bool} {q op : ℕ} {p : Place} {w w' : World Hw} {hw hw' : Hw}

theorem Returns.and {σ : Type*} {r : Except Stop (World σ)} {P Q : World σ → Prop}
    (hP : Returns r P) (hQ : Returns r Q) : Returns r fun w => P w ∧ Q w := by
  cases r with
  | error e => exact hP
  | ok w => exact ⟨hP, hQ⟩

theorem Hw.Clean.device (h : hw.Clean) (s : DeviceStep) : (hw.device s).Clean := by
  unfold Hw.device
  cases s with
  | read p =>
    dsimp only
    split
    · exact h
    · exact ⟨h.overrun, h.overwritten⟩
  | complete c =>
    dsimp only
    split
    · exact ⟨h.overrun, h.overwritten⟩
    · exact h

/-! ### Waiting for the youngest operation -/

section

variable {σ : Type*} {rt : Runtime σ} {w : World σ} {i : ℕ}

/-- The loop of `wait` passes over empty slots. -/
theorem waitLoop_empty {found : Bool} (h : ∀ j < i, w.queue.asyncOps[j]? = some none) :
    waitLoop rt ndebug i found w = .ok w := by
  induction i with
  | zero => rfl
  | succ i ih =>
    rw [waitLoop, h i (Nat.lt_succ_self i)]
    exact ih fun j hj => h j (Nat.lt_succ_of_lt hj)

/-- What is held after the youngest operation was removed: nothing. -/
theorem DlaQueue.Tidy.removeAsyncOp_youngest {q : DlaQueue} (h : q.Tidy) (hi : q.HeldAt i op)
    (hlen : q.asyncOps.length = i + 1) :
    (∀ j < i, (q.removeAsyncOp op).asyncOps[j]? = some none) ∧
      ∀ x, ¬(q.removeAsyncOp op).Held x := by
  refine ⟨fun j hj => by rw [h.removeAsyncOp_held hi, if_pos (by omega)], ?_⟩
  rintro x ⟨j, hj⟩
  unfold DlaQueue.HeldAt at hj
  rw [h.removeAsyncOp_held hi] at hj
  split_ifs at hj with hji
  · cases hj
  · have := (List.getElem?_eq_some_iff.1 hj).1
    omega

/-- **A drain is a wait for the youngest operation**: the older ones are removed with it. -/
theorem drain_youngest (h : w.queue.Tidy) (hi : w.queue.HeldAt i op)
    (hlen : w.queue.asyncOps.length = i + 1) (hsignal : (w.queue.cmds op).hasSignal = true)
    (hphase : (w.queue.cmds op).phase = .dispatched) :
    drain rt ndebug w = (futureWait rt op w).map (·.modify fun q => { q with asyncOps := [] }) := by
  have hslot : w.queue.asyncOps[i]? = some (some op) := hi
  unfold drain futureWait
  rw [hlen, waitLoop, hslot]
  dsimp only
  rw [if_neg (by simp [assert, hsignal]), futureWait, if_neg (by simp [hphase]),
    if_neg (by simp [hsignal])]
  cases rt.await op w.hw with
  | none => rfl
  | some hw =>
    refine congrArg (Except.map _) (waitLoop_empty ?_)
    exact (h.removeAsyncOp_youngest hi hlen).1

end

/-! ### Parts of a call -/

theorem Kept.make (h : Kept optFlush q p hw w) : Kept optFlush q p hw (w.modify (·.make)) :=
  ⟨h.core.make, h.clean, h.steps⟩

theorem Kept.wait (h : Kept optFlush q p hw w) (schedule : List (List DeviceStep)) :
    Kept optFlush q p hw { w with hw := { w.hw with schedule := schedule } } :=
  ⟨h.core.wait schedule, ⟨h.clean.overrun, h.clean.overwritten⟩, h.steps.tail (.wait schedule _)⟩

/-- The device takes the steps that come next. -/
theorem Kept.advance (h : Kept optFlush q p hw w) :
    Kept optFlush q p hw { w with hw := w.hw.advance } := by
  refine Hw.advance_inv (I := fun hw' => Kept optFlush q p hw { w with hw := hw' }) ?_ ?_ h
  · exact fun hw' s h => ⟨h.core.device s, h.clean.device s, h.steps.tail (.device s hw')⟩
  · exact fun _ schedule h => h.wait schedule

/-- A packet is written. -/
theorem Kept.sent {hasSignal release : Bool} (h : Kept optFlush q p hw w)
    (hop : op < w.queue.made) (hheld : ¬w.queue.Held op)
    (hroom : w.queue.asyncOps.length < MAX_INFLIGHT_COMMANDS_PER_QUEUE)
    (hsignal : (optFlush && release) = false → hasSignal = true) :
    Kept optFlush q p hw
      { queue := { (w.queue.place op).dispatched op hasSignal with
          nextSyncNeedsSysRelease := release }
        hw := w.hw.advance.write p (q, op) } :=
  have h := h.advance
  ⟨h.core.sent hop hheld hroom hsignal, h.core.clean_write h.clean, h.steps.tail (.write op _)⟩

/-- **A wait for a command** that is dispatched, with a signal. -/
theorem futureWait_kept (h : Kept optFlush q p hw w) (hsignal : (w.queue.cmds op).hasSignal = true)
    (hphase : (w.queue.cmds op).phase = .dispatched) :
    Returns (futureWait (rings q p) op w) fun w' => Kept optFlush q p hw w' ∧
      w'.queue = (w.queue.removeAsyncOp op).completed op := by
  unfold futureWait
  rw [if_neg (by simp [hphase]), if_neg (by simp [hsignal])]
  split
  · exact .inr rfl
  · rename_i hw' hawait
    have hkept := h.advance
    simp only [rings, Option.ite_none_right_eq_some, Option.some.injEq] at hawait
    obtain ⟨hdone, rfl⟩ := hawait
    refine ⟨⟨?_, hkept.clean, hkept.steps⟩, rfl⟩
    by_cases hheld : w.queue.Held op
    · obtain ⟨i, hi⟩ := hheld
      exact hkept.core.removed hi hdone
    · rw [DlaQueue.removeAsyncOp_of_not_held hheld h.core.tidy.length_le_gc]
      exact hkept.core.cmd hheld rfl

/-- The vector of a queue that holds nothing is cleared. -/
theorem Kept.cleared (h : Kept optFlush q p hw w) (hheld : ∀ x, ¬w.queue.Held x) :
    Kept optFlush q p hw (w.modify fun q => { q with asyncOps := [] }) := by
  have hnil : w.queue.held = [] :=
    List.eq_nil_iff_forall_not_mem.2 fun x hx => hheld x (DlaQueue.mem_held.1 hx)
  have hpending : w.hw.pending p = [] := List.sublist_nil.1 (hnil ▸ h.core.sub)
  have hnot {i x : ℕ} : ¬(w.modify fun q => { q with asyncOps := [] }).queue.HeldAt i x := by
    intro hi
    cases hi
  refine ⟨⟨⟨?_, ?_, Nat.zero_le _, h.core.tidy.most_le⟩, ?_, ?_, h.core.fresh, h.core.own,
    h.core.elsewhere, ?_, ?_⟩, h.clean, h.steps⟩
  · exact fun i x hi => absurd hi hnot
  · intro i j _ hnone
    cases hnone
  · exact fun x ⟨i, hi⟩ => absurd hi hnot
  · exact fun _ i x hi => absurd hi hnot
  · exact hpending ▸ List.nil_sublist _
  · intro a ha
    rw [show (w.modify _).hw.pending p = [] from hpending] at ha
    cases ha

/-- **A drain** waits for the youngest operation, which has a signal, and leaves nothing. -/
theorem drain_kept (h : Kept optFlush q p hw w)
    (hrelease : (optFlush && w.queue.nextSyncNeedsSysRelease) = false) :
    Returns (drain (rings q p) ndebug w) fun w' => Kept optFlush q p hw w' ∧
      w.queue.Spares w'.queue := by
  have hnone (hempty : ∀ j < w.queue.asyncOps.length, w.queue.asyncOps[j]? = some none) :
      Returns (drain (rings q p) ndebug w) fun w' => Kept optFlush q p hw w' ∧
        w.queue.Spares w'.queue := by
    unfold drain
    rw [waitLoop_empty hempty]
    refine ⟨h.cleared fun x ⟨i, hi⟩ => ?_, fun x _ _ => rfl⟩
    have hlt := (List.getElem?_eq_some_iff.1 hi).1
    cases hi.symm.trans (hempty i hlt)
  cases hlen : w.queue.asyncOps.length with
  | zero => exact hnone fun j hj => by omega
  | succ i =>
    obtain ⟨slot, hslot⟩ : ∃ slot, w.queue.asyncOps[i]? = some slot :=
      ⟨_, List.getElem?_eq_getElem (by omega)⟩
    cases slot with
    | none => exact hnone fun j hj => h.core.tidy.empties j i (by omega) hslot
    | some op =>
      have hsignal := h.core.signal hrelease i op hslot hlen.symm
      have hphase := h.core.phases op ⟨i, hslot⟩
      rw [drain_youngest h.core.tidy hslot hlen hsignal hphase]
      refine (futureWait_kept h hsignal hphase).map fun w' hw' => ⟨hw'.1.cleared ?_, ?_⟩
      · rw [hw'.2]
        exact (h.core.tidy.removeAsyncOp_youngest hslot hlen).2
      · intro x _ hx
        refine (congrFun (congrArg DlaQueue.cmds hw'.2) x).trans ?_
        exact Function.update_of_ne (fun heq : x = op => hx (heq ▸ ⟨i, hslot⟩)) ..

/-! ### Calls -/

/-- An operation may be placed: what is unread was unread before, or nothing is. -/
structure Ready (optFlush : Bool) (q : ℕ) (p : Place) (hw : Hw) (op : ℕ) (w w' : World Hw) :
    Prop where
  kept : Kept optFlush q p hw w'
  made : op < w'.queue.made
  heldNot : ¬w'.queue.Held op
  room : w'.queue.asyncOps.length < MAX_INFLIGHT_COMMANDS_PER_QUEUE
  cmd : w'.queue.cmds op = w.queue.cmds op
  same : w' = w ∨ w'.hw.pending p = []

/-- What a wait under another call is to do. -/
def Drains (optFlush : Bool) (q : ℕ) (p : Place) (hw : Hw)
    (f : World Hw → Except Stop (World Hw)) : Prop :=
  ∀ w : World Hw, w.queue.Draining → Kept optFlush q p hw w → Returns (f w) fun w' =>
    w.queue.Cleared w'.queue ∧ Kept optFlush q p hw w' ∧ w.queue.Spares w'.queue

/-- A queue that holds nothing has nothing that is unread. -/
theorem Core.pending_eq_nil (h : Core optFlush q p w) (hempty : w.queue.asyncOps = []) :
    w.hw.pending p = [] := by
  have hsub := h.sub
  rw [DlaQueue.held, hempty] at hsub
  exact List.sublist_nil.1 hsub

theorem pushAsyncOp_kept {f : World Hw → Except Stop (World Hw)} (hf : Drains optFlush q p hw f)
    (h : Kept optFlush q p hw w) (hidle : w.queue.Idle) (hop : op < w.queue.made)
    (hheld : ¬w.queue.Held op) :
    Returns (pushAsyncOp f op w) fun w' =>
      ∃ w'', w' = w''.modify (·.place op) ∧ Ready optFlush q p hw op w w'' := by
  unfold pushAsyncOp
  split_ifs
  · refine (hf (w.modify fun q => { q with draining := true })
      ⟨(h.core.draining true).tidy, rfl, hidle.room⟩
      ⟨h.core.draining true, h.clean, h.steps⟩).map fun w' hw' => ?_
    obtain ⟨hcleared, hkept, hspares⟩ := hw'
    refine ⟨w', rfl, hkept, Nat.lt_of_lt_of_le hop hcleared.made_le, hcleared.not_held op, ?_, ?_,
      .inr (hkept.core.pending_eq_nil hcleared.asyncOps)⟩
    · rw [hcleared.asyncOps]
      decide
    · exact hspares op hop hheld
  · exact ⟨w, rfl, h, hop, hheld, hidle.room, rfl, .inl rfl⟩

/-- What a marker leaves: it is the youngest operation, and its packet is unread. -/
structure Marked (q : ℕ) (marker : ℕ) (scope : MemoryScope) (w : World Hw) : Prop where
  written : w.hw.status (q, marker) = .written
  held : ∃ l, w.queue.held = l ++ [marker]
  released : scope = .system → w.queue.nextSyncNeedsSysRelease = false

/-- **A marker.** -/
theorem enqueueMarkerWithDependency_kept {f : World Hw → Except Stop (World Hw)} {inherit : Bool}
    {scope : MemoryScope} (hf : Drains optFlush q p hw f) (h : Kept optFlush q p hw w)
    (hidle : w.queue.Idle) :
    Returns (enqueueMarkerWithDependency (rings q p) f inherit scope w) fun w' =>
      Kept optFlush q p hw w' ∧ Marked q w.queue.made scope w' := by
  refine (pushAsyncOp_kept hf h.make hidle.make (Nat.lt_succ_self _)
    h.core.tidy.not_held_made).map fun w' hw' => ?_
  obtain ⟨w'', rfl, hready⟩ := hw'
  refine ⟨hready.kept.sent hready.made hready.heldNot hready.room fun _ => rfl,
    Function.update_self .., ⟨w''.queue.held, DlaQueue.held_place⟩, ?_⟩
  rintro rfl
  rfl

/-- **A drain under another call.** -/
theorem waitDepth_drains (n : ℕ) :
    Drains optFlush q p hw (waitDepth (rings q p) optFlush ndebug (n + 1)) := by
  intro w hdraining h
  refine (waitDepth_draining hdraining).and ?_
  rw [waitDepth]
  split_ifs with hrelease
  · unfold enqueueMarker
    have hmake : w.queue.make.Draining :=
      ⟨hdraining.tidy.make, hdraining.draining, hdraining.room⟩
    rw [pushAsyncOp_draining (w := w.modify (·.make)) hmake]
    have hsent := @Kept.sent optFlush q w.queue.made p _ hw true false h.make
      (Nat.lt_succ_self _) h.core.tidy.not_held_made hdraining.room fun _ => rfl
    refine (drain_kept hsent (Bool.and_false _)).mono fun w' hw' => ⟨hw'.1, fun x hx hheld => ?_⟩
    have hne : x ≠ w.queue.made := Nat.ne_of_lt hx
    refine (hw'.2 x (Nat.lt_succ_of_lt hx) ?_).trans ?_
    · intro hx'
      exact (DlaQueue.Tidy.held_place hx').elim hheld hne
    · simp [DlaQueue.dispatched, DlaQueue.place, World.modify, DlaQueue.make, hne]
  · exact drain_kept h (by simpa using hrelease)

theorem wait_drains : Drains optFlush q p hw (wait (rings q p) optFlush ndebug) :=
  waitDepth_drains 1

/-- **A wait between calls.** -/
theorem wait_kept (h : Kept optFlush q p hw w) (hidle : w.queue.Idle) :
    Returns (wait (rings q p) optFlush ndebug w) (Kept optFlush q p hw) := by
  unfold wait
  rw [waitDepth]
  split_ifs with hrelease
  · rw [enqueueMarker_eq]
    refine (enqueueMarkerWithDependency_kept (waitDepth_drains 0) h hidle).bind fun w' hw' => ?_
    refine (drain_kept hw'.1 ?_).mono fun _ hw'' => hw''.1
    rw [hw'.2.released rfl, Bool.and_false]
  · exact (drain_kept h (by simpa using hrelease)).mono fun _ hw' => hw'.1

/-- **A dispatch.** -/
theorem dispatchHsaKernel_kept {inOrder future : Bool} (h : Kept optFlush q p hw w)
    (hidle : w.queue.Idle) :
    Returns (dispatchHsaKernel (rings q p) optFlush ndebug inOrder future w)
      (Kept optFlush q p hw) := by
  refine (pushAsyncOp_kept wait_drains h.make hidle.make (Nat.lt_succ_self _)
    h.core.tidy.not_held_made).map fun w' hw' => ?_
  obtain ⟨w'', rfl, hready⟩ := hw'
  refine hready.kept.sent hready.made hready.heldNot hready.room fun hrelease => ?_
  -- without the flush there is always a signal, and with it a release is pending now
  have hoptFlush : optFlush = false := by simpa using hrelease
  simp [needsSignal, hoptFlush]

/-- **A copy** that a marker goes before, or that finds nothing unread. -/
theorem enqueueAsyncCopy_kept (h : Kept optFlush q p hw w) (hidle : w.queue.Idle)
    (hafter : w.queue.nextSyncNeedsSysRelease = true ∨ w.hw.pending p = []) :
    Returns (enqueueAsyncCopy (rings q p) optFlush ndebug w) (Kept optFlush q p hw) := by
  -- the copy, when it is pushed
  have hpush {w' : World Hw} {op : ℕ} (h' : Kept optFlush q p hw w') (hidle' : w'.queue.Idle)
      (hop : op < w'.queue.made) (hheld : ¬w'.queue.Held op)
      (hphase : (w'.queue.cmds op).phase = .dispatched)
      (hsignal : (w'.queue.cmds op).hasSignal = true)
      (hdep : ∀ a ∈ w'.hw.pending p, ∃ m, w'.hw.status (q, op) = .copying (some (q, m)) ∧
        w'.hw.status (q, m) = .written ∧ NotBefore w'.queue.held a m) :
      Returns (pushAsyncOp (wait (rings q p) optFlush ndebug) op w') (Kept optFlush q p hw) := by
    refine (pushAsyncOp_kept wait_drains h' hidle' hop hheld).mono fun w'' hw'' => ?_
    obtain ⟨w₃, rfl, hready⟩ := hw''
    refine ⟨hready.kept.core.placed hready.made hready.heldNot hready.room (hready.cmd ▸ hphase)
      (hready.cmd ▸ hsignal) ?_, hready.kept.clean, hready.kept.steps⟩
    rcases hready.same with rfl | hnil
    · exact hdep
    · rw [hnil]
      exact fun a ha => absurd ha List.not_mem_nil
  have hcopied {w' : World Hw} {op : ℕ} {dep : Option ℕ} (h' : Kept optFlush q p hw w')
      (hop : op < w'.queue.made) (hheld : ¬w'.queue.Held op) :
      Kept optFlush q p hw (hccMemoryAsyncCopy (rings q p) op dep w') :=
    have h' := h'.advance
    ⟨h'.core.copied hop hheld, ⟨h'.clean.overrun, h'.clean.overwritten⟩,
      h'.steps.tail (.copy op _ _)⟩
  have hheld : ¬w.queue.Held w.queue.made := h.core.tidy.not_held_made
  have hphase (w' : World Hw) (dep : Option ℕ) : ((hccMemoryAsyncCopy (rings q p) w.queue.made dep
      w').queue.cmds w.queue.made).phase = .dispatched := by
    simp [hccMemoryAsyncCopy, DlaQueue.dispatched]
  have hsignal (w' : World Hw) (dep : Option ℕ) : ((hccMemoryAsyncCopy (rings q p) w.queue.made dep
      w').queue.cmds w.queue.made).hasSignal = true := by
    simp [hccMemoryAsyncCopy, DlaQueue.dispatched]
  unfold enqueueAsyncCopy enqueueAsyncCopyCommand
  split_ifs with hrelease
  · have hmarker : Returns (enqueueMarkerWithDependency (rings q p)
        (wait (rings q p) optFlush ndebug) false .system (w.modify (·.make))) fun w' =>
          (Kept optFlush q p hw w' ∧ Marked q (w.queue.made + 1) .system w') ∧
            w.queue.make.make.Pushed (w.queue.made + 1) w'.queue :=
      (enqueueMarkerWithDependency_kept wait_drains h.make hidle.make).and
        (enqueueMarkerWithDependency_returns (fun _ hw => wait_draining hw) hidle.make)
    refine (hmarker.map (Q := fun w' => Returns (pushAsyncOp (wait (rings q p) optFlush ndebug)
      w.queue.made w') (Kept optFlush q p hw)) ?_).bind fun _ hw' => hw'
    rintro w' ⟨⟨hkept, hmarked⟩, hpushed⟩
    have hop : w.queue.made < w'.queue.made :=
      Nat.lt_of_lt_of_le (Nat.lt_succ_of_lt (Nat.lt_succ_self _)) hpushed.made_le
    have hheld' : ¬w'.queue.Held w.queue.made := fun hx =>
      (hpushed.held _ hx).elim hheld (Nat.ne_of_lt (Nat.lt_succ_self _))
    refine hpush (hcopied hkept hop hheld') hpushed.idle.dispatched hop hheld' (hphase ..)
      (hsignal ..) fun a ha => ?_
    -- the device has not come to the marker, while it has not come to what is older
    have hcore := hkept.advance.core
    have hbefore : NotBefore w'.queue.held a (w.queue.made + 1) := by
      obtain ⟨l, hl⟩ := hmarked.held
      have hmem : a ∈ l ++ [w.queue.made + 1] := hl ▸ hcore.sub.subset ha
      rw [hl]
      rcases List.mem_append.1 hmem with hmem | hmem
      · exact .last hmem _
      · rw [List.mem_singleton.1 hmem]
        exact .self (by simp)
    have hwritten : w'.hw.advance.status (q, w.queue.made + 1) = .written := by
      rcases hcore.waits a ha _ hbefore with hwritten | ⟨m, hcopying, -⟩
      · exact hwritten
      · exact absurd hcopying (Hw.advance_copying (by rw [hmarked.written]; simp))
    refine ⟨w.queue.made + 1, Function.update_self .., ?_, hbefore⟩
    exact (Function.update_of_ne (by simp) ..).trans hwritten
  · have hnil : w.hw.advance.pending p = [] :=
      Hw.advance_pending (hafter.resolve_left hrelease)
    refine hpush (hcopied h.make (Nat.lt_succ_self _) hheld) hidle.make.dispatched
      (Nat.lt_succ_self _) hheld (hphase ..) (hsignal ..) fun a ha => ?_
    have ha : a ∈ w.hw.advance.pending p := ha
    rw [hnil] at ha
    cases ha

/-- **Every call keeps what the queue and its ring have in common.** -/
theorem QueueCall.run_kept {c : QueueCall} (h : Kept optFlush q p hw w) (hidle : w.queue.Idle)
    (hafter : c = .enqueueAsyncCopy →
      w.queue.nextSyncNeedsSysRelease = true ∨ w.hw.pending p = []) :
    Returns (c.run (rings q p) optFlush ndebug w) fun w' =>
      Kept optFlush q p hw w' ∧ w'.queue.Idle := by
  cases c with
  | dispatchHsaKernel inOrder future =>
    exact (dispatchHsaKernel_kept h hidle).and (dispatchHsaKernel_returns hidle)
  | enqueueMarker inherit scope =>
    exact ((enqueueMarkerWithDependency_kept wait_drains h hidle).and
      (enqueueMarkerWithDependency_returns (fun _ hw => wait_draining hw) hidle)).mono
        fun _ hw' => ⟨hw'.1.1, hw'.2.idle⟩
  | enqueueAsyncCopy =>
    exact (enqueueAsyncCopy_kept h hidle (hafter rfl)).and (enqueueAsyncCopy_returns hidle)
  | wait => exact ((wait_kept h hidle).and (wait_returns hidle)).mono fun _ hw' => ⟨hw'.1, hw'.2.2⟩
  | waitComplete op =>
    unfold QueueCall.run
    dsimp only
    split_ifs with hsignal
    · by_cases hphase : (w.queue.cmds op).phase = .dispatched
      · refine (futureWait_kept h hsignal hphase).mono fun w' hw' => ⟨hw'.1, ?_⟩
        rw [hw'.2]
        refine ⟨(h.core.tidy.removeAsyncOp op).update rfl, hidle.draining, ?_⟩
        exact (h.core.tidy.length_removeAsyncOp op).symm ▸ hidle.room
      · unfold futureWait
        rw [if_pos hphase]
        exact ⟨h, hidle⟩
    · exact .inr rfl

end

end Codrive.Csq
