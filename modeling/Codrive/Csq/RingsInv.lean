/-
# The unread packets of a queue

What a queue and the ring it writes to have in common (`Core`): the unread packets of the ring are
those of operations that the queue holds, in their order, and no operation that is not older than an
unread one is complete.  So what is waited for is read with all that is older, and a ring never has
more unread packets than its queue has slots.
-/

import Codrive.Basis.Seniority
import Codrive.Csq.Rings

namespace Codrive.Csq

open Codrive.Basis

/-! ### What is held -/

section

variable {q : DlaQueue} {i op : ℕ}

theorem DlaQueue.mem_held : op ∈ q.held ↔ q.Held op := by
  have hmem : op ∈ q.held ↔ some op ∈ q.asyncOps := by simp [DlaQueue.held]
  rw [hmem, List.mem_iff_getElem?]
  rfl

theorem DlaQueue.held_place : (q.place op).held = q.held ++ [op] := by
  simp [DlaQueue.held, DlaQueue.place]

theorem DlaQueue.length_held_le : q.held.length ≤ q.asyncOps.length :=
  List.length_filterMap_le ..

theorem DlaQueue.Tidy.nodup_held (h : q.Tidy) : q.held.Nodup := by
  unfold DlaQueue.held
  refine List.pairwise_filterMap.2 (List.pairwise_iff_getElem.2 ?_)
  intro i j hi hj hij a ha b hb hab
  subst hab
  have hia : q.HeldAt i a := List.getElem?_eq_some_iff.2 ⟨hi, ha⟩
  have hja : q.HeldAt j a := List.getElem?_eq_some_iff.2 ⟨hj, hb⟩
  have := h.heldAt_unique hia hja
  omega

/-- What is held after a removal is what was younger. -/
theorem DlaQueue.Tidy.held_removeAsyncOp (h : q.Tidy) (hi : q.HeldAt i op) :
    ∃ l, q.held = l ++ op :: (q.removeAsyncOp op).held := by
  have hlt : i < q.asyncOps.length := (List.getElem?_eq_some_iff.1 hi).1
  have hop : q.asyncOps[i] = some op := (List.getElem?_eq_some_iff.1 hi).2
  have hremoved : (q.removeAsyncOp op).asyncOps =
      List.replicate (i + 1) none ++ q.asyncOps.drop (i + 1) := by
    refine List.ext_getElem? fun j => ?_
    rw [h.removeAsyncOp_held hi, List.getElem?_append]
    simp only [List.length_replicate, List.getElem?_replicate, List.getElem?_drop,
      Nat.lt_succ_iff]
    split_ifs with hj
    · rfl
    · congr 1
      omega
  refine ⟨(q.asyncOps.take i).filterMap id, ?_⟩
  unfold DlaQueue.held
  rw [hremoved]
  conv_lhs => rw [← List.take_append_drop i q.asyncOps, List.drop_eq_getElem_cons hlt, hop]
  simp

end

/-! ### The device -/

/-- The device has not come to a command: its packet is unread, or that of the command it is a copy
after. -/
def Hw.Waits (hw : Hw) (q : ℕ) (held : List ℕ) (a b : ℕ) : Prop :=
  hw.status (q, b) = .written ∨ ∃ m, hw.status (q, b) = .copying (some (q, m)) ∧
    hw.status (q, m) = .written ∧ NotBefore held a m

/-- The operations of the unread packets at a place. -/
def Hw.pending (hw : Hw) (p : Place) : List ℕ := (hw.rings p).unread.map Prod.snd

/-- **What a queue and its ring have in common.** -/
structure Core (optFlush : Bool) (q : ℕ) (p : Place) (w : World Hw) : Prop where
  tidy : w.queue.Tidy
  phases : ∀ op, w.queue.Held op → (w.queue.cmds op).phase = .dispatched
  signal : (optFlush && w.queue.nextSyncNeedsSysRelease) = false →
    ∀ i op, w.queue.HeldAt i op → i + 1 = w.queue.asyncOps.length →
      (w.queue.cmds op).hasSignal = true
  fresh : ∀ op, w.queue.made ≤ op → w.hw.status (q, op) = .unsent
  own : ∀ c ∈ (w.hw.rings p).unread, c.1 = q
  elsewhere : ∀ p', p' ≠ p → ∀ c ∈ (w.hw.rings p').unread, c.1 ≠ q
  sub : (w.hw.pending p).Sublist w.queue.held
  waits : ∀ a ∈ w.hw.pending p, ∀ b, NotBefore w.queue.held a b → w.hw.Waits q w.queue.held a b

section

variable {optFlush : Bool} {q op : ℕ} {p : Place} {w : World Hw} {hw : Hw} {s : DeviceStep}

/-- What the device has not come to is not complete, and cannot be completed. -/
theorem Hw.Waits.not_completable {held : List ℕ} {a b : ℕ} (h : hw.Waits q held a b) :
    hw.status (q, b) ≠ .done ∧ hw.completable (q, b) = false := by
  unfold Hw.completable
  rcases h with h | ⟨m, h, hm, -⟩
  · simp [h]
  · simp [h, hm]

/-- The status of some commands changes that the device has come to. -/
theorem Hw.Waits.congr {held : List ℕ} {a b : ℕ} {hw' : Hw} (h : hw.Waits q held a b)
    (hsame : ∀ m, NotBefore held a m → hw.status (q, m) = .written →
      hw'.status (q, m) = .written)
    (hb : ∀ dep, hw.status (q, b) = .copying dep → hw'.status (q, b) = .copying dep)
    (hab : NotBefore held a b) : hw'.Waits q held a b := by
  rcases h with h | ⟨m, h, hm, ham⟩
  · exact .inl (hsame b hab h)
  · exact .inr ⟨m, hb _ h, hsame m ham hm, ham⟩

/-- The device reads a packet that no unread one of the queue is younger than. -/
theorem Core.launched (h : Core optFlush q p w) {p' : Place} {c : CmdId} {unread : List CmdId}
    (hunread : (w.hw.rings p').unread = c :: unread)
    (hfresh : ∀ op, w.queue.made ≤ op → (q, op) ≠ c)
    (hne : ∀ a ∈ ({ w.hw with
        rings := Function.update w.hw.rings p' ⟨(w.hw.rings p').read + 1, unread⟩ } :
          Hw).pending p, ∀ b, NotBefore w.queue.held a b → (q, b) ≠ c) :
    Core optFlush q p { w with hw := { w.hw with
      rings := Function.update w.hw.rings p' ⟨(w.hw.rings p').read + 1, unread⟩
      status := Function.update w.hw.status c .launched } } := by
  have hle (p'' : Place) : (Function.update w.hw.rings p'
      ⟨(w.hw.rings p').read + 1, unread⟩ p'').unread.Sublist (w.hw.rings p'').unread := by
    by_cases hp : p'' = p'
    · rw [hp, Function.update_self, hunread]
      exact List.sublist_cons_self ..
    · rw [Function.update_of_ne hp]
  refine ⟨h.tidy, h.phases, h.signal, ?_, ?_, ?_, ((hle p).map _).trans h.sub, ?_⟩
  · intro op hop
    exact (Function.update_of_ne (hfresh op hop) ..).trans (h.fresh op hop)
  · intro c' hc'
    exact h.own c' ((hle p).subset hc')
  · intro p'' hp'' c' hc'
    exact h.elsewhere p'' hp'' c' ((hle p'').subset hc')
  · intro a ha b hab
    have ha' : a ∈ w.hw.pending p := ((hle p).map Prod.snd).subset ha
    refine (h.waits a ha' b hab).congr ?_ ?_ hab
    · intro m ham hm
      exact (Function.update_of_ne (hne a ha m ham) ..).trans hm
    · intro dep hdep
      exact (Function.update_of_ne (hne a ha b hab) ..).trans hdep

/-- **The device takes a step.** -/
theorem Core.device (h : Core optFlush q p w) (s : DeviceStep) :
    Core optFlush q p { w with hw := w.hw.device s } := by
  cases s with
  | complete c =>
    unfold Hw.device
    dsimp only
    split_ifs with hc
    · refine ⟨h.tidy, h.phases, h.signal, ?_, h.own, h.elsewhere, h.sub, ?_⟩
      · intro op hop
        have hunsent := h.fresh op hop
        have hne : (q, op) ≠ c := by
          rintro rfl
          simp [Hw.completable, hunsent] at hc
        exact (Function.update_of_ne hne ..).trans hunsent
      · intro a ha b hab
        have hwaits := h.waits a ha b hab
        have hne : (q, b) ≠ c := by
          rintro rfl
          rw [hwaits.not_completable.2] at hc
          cases hc
        refine hwaits.congr ?_ (fun dep hdep => (Function.update_of_ne hne ..).trans hdep) hab
        intro m _ hm
        have hne : (q, m) ≠ c := by
          rintro rfl
          simp [Hw.completable, hm] at hc
        exact (Function.update_of_ne hne ..).trans hm
    · exact h
  | read p' =>
    unfold Hw.device
    dsimp only
    split
    · exact h
    · rename_i c unread hunread
      have hc : c ∈ (w.hw.rings p').unread := by
        rw [hunread]
        exact List.mem_cons_self
      by_cases hp : p' = p
      · -- the first unread packet of the queue itself
        subst hp
        obtain ⟨q', u⟩ := c
        obtain rfl : q' = q := h.own _ hc
        have hsub := h.sub
        rw [Hw.pending, hunread, List.map_cons] at hsub
        have hu : u ∈ w.queue.held := hsub.subset List.mem_cons_self
        refine h.launched hunread ?_ ?_
        · intro op hop heq
          obtain ⟨i, hi⟩ := DlaQueue.mem_held.1 hu
          have := (h.tidy.index i u hi).2
          have := congrArg Prod.snd heq
          dsimp only at this
          omega
        · intro a ha b hab heq
          have hb : b = u := congrArg Prod.snd heq
          unfold Hw.pending at ha
          dsimp only at ha
          rw [Function.update_self] at ha
          exact not_notBefore_head h.tidy.nodup_held hsub ha (hb ▸ hab)
      · have hother (op : ℕ) : (q, op) ≠ c := fun heq => h.elsewhere p' hp c hc (heq ▸ rfl)
        exact h.launched hunread (fun op _ => hother op) fun _ _ b _ => hother b

/-- No packet is written over an unread one where the ring is not full. -/
theorem Ring.overwrites_eq_false {ring : Ring} (h : ring.unread.length < QUEUE_SIZE) :
    ring.overwrites = false := by
  have hlt : ring.unread.length < 2 * (2 * 8192) := h
  unfold Ring.overwrites
  rw [List.any_eq_false]
  intro i hi
  have := List.mem_range.1 hi
  have hne : (ring.read + i) % (2 * (2 * 8192)) ≠
      (ring.read + ring.unread.length) % (2 * (2 * 8192)) := by
    omega
  exact fun heq => hne (of_decide_eq_true heq)

/-- What a ring is not to see. -/
structure Hw.Clean (hw : Hw) : Prop where
  overrun : hw.overrun = false
  overwritten : hw.overwritten = false

/-- **A ring takes as many packets as its queue has slots.** -/
theorem Core.clean_write (h : Core optFlush q p w) (hclean : w.hw.Clean) :
    (w.hw.write p (q, op)).Clean := by
  have hlen : (w.hw.rings p).unread.length ≤ 2 * 8192 := by
    have hsub := h.sub.length_le
    rw [Hw.pending, List.length_map] at hsub
    exact Nat.le_trans hsub (Nat.le_trans DlaQueue.length_held_le h.tidy.length_le)
  have hroom : (w.hw.rings p).unread.length < QUEUE_SIZE := Nat.lt_of_le_of_lt hlen (by decide)
  constructor
  · simp [Hw.write, hclean.overrun, hroom]
  · simp [Hw.write, hclean.overwritten, Ring.overwrites_eq_false hroom]

/-- **A command goes out**: it is placed, and its packet is written. -/
theorem Core.sent {hasSignal release : Bool} (h : Core optFlush q p w) (hop : op < w.queue.made)
    (hheld : ¬w.queue.Held op)
    (hroom : w.queue.asyncOps.length < MAX_INFLIGHT_COMMANDS_PER_QUEUE)
    (hsignal : (optFlush && release) = false → hasSignal = true) :
    Core optFlush q p
      { queue := { (w.queue.place op).dispatched op hasSignal with
          nextSyncNeedsSysRelease := release }
        hw := w.hw.write p (q, op) } := by
  have htidy : ({ (w.queue.place op).dispatched op hasSignal with
      nextSyncNeedsSysRelease := release } : DlaQueue).Tidy :=
    (h.tidy.place hop hheld hroom).dispatched
  have hmem {b : ℕ} (hb : b ∈ w.queue.held) : (q, b) ≠ (q, op) := by
    intro heq
    obtain rfl : b = op := congrArg Prod.snd heq
    exact hheld (DlaQueue.mem_held.1 hb)
  have hkeep {b : ℕ} (hb : b ∈ w.queue.held) :
      (w.hw.write p (q, op)).status (q, b) = w.hw.status (q, b) :=
    Function.update_of_ne (hmem hb) ..
  have hpending : (w.hw.write p (q, op)).pending p = w.hw.pending p ++ [op] := by
    simp [Hw.pending, Hw.write]
  have hplaced : ({ (w.queue.place op).dispatched op hasSignal with
      nextSyncNeedsSysRelease := release } : DlaQueue).held = w.queue.held ++ [op] :=
    DlaQueue.held_place
  have hheldPlaced {x : ℕ} (hx : x ∈ w.queue.held ++ [op]) : x ∈ w.queue.held ∨ x = op := by
    simpa using hx
  refine ⟨htidy, ?_, ?_, ?_, ?_, ?_, ?_, ?_⟩
  · intro x hx
    have hx : (w.queue.place op).Held x := hx
    rcases DlaQueue.Tidy.held_place hx with hx | rfl
    · have hxop : x ≠ op := fun heq => hheld (heq ▸ hx)
      simpa [DlaQueue.dispatched, DlaQueue.place, Function.update_of_ne hxop] using h.phases x hx
    · simp [DlaQueue.dispatched]
  · intro hrelease i x hx hlast
    have hx : (w.queue.place op).HeldAt i x := hx
    have hlast : i + 1 = (w.queue.asyncOps ++ [some op]).length := hlast
    rw [List.length_append] at hlast
    rcases DlaQueue.heldAt_place.1 hx with hx | ⟨-, rfl⟩
    · have := (List.getElem?_eq_some_iff.1 hx).1
      simp at hlast
      omega
    · simpa [DlaQueue.dispatched] using hsignal hrelease
  · intro x hx
    have hx : w.queue.made ≤ x := hx
    have hne : (q, x) ≠ (q, op) := by
      intro heq
      have : x = op := congrArg Prod.snd heq
      omega
    exact (Function.update_of_ne hne ..).trans (h.fresh x hx)
  · intro c hc
    simp only [Hw.write, Function.update_self, List.mem_append, List.mem_singleton] at hc
    rcases hc with hc | rfl
    · exact h.own c hc
    · rfl
  · intro p' hp' c hc
    simp only [Hw.write, Function.update_of_ne hp'] at hc
    exact h.elsewhere p' hp' c hc
  · rw [hpending, hplaced]
    exact h.sub.append (.refl _)
  · intro a ha b hab
    rw [hpending] at ha
    rw [hplaced] at hab ⊢
    have hwritten : (w.hw.write p (q, op)).status (q, op) = .written := by simp [Hw.write]
    have hopHeld : op ∉ w.queue.held := fun hmem => hheld (DlaQueue.mem_held.1 hmem)
    rcases List.mem_append.1 ha with ha | ha
    · rcases hab.of_concat (h.sub.subset ha) with hab | rfl
      · rcases h.waits a ha b hab with hb | ⟨m, hb, hm, ham⟩
        · exact .inl ((hkeep hab.mem_right).trans hb)
        · exact .inr ⟨m, (hkeep hab.mem_right).trans hb, (hkeep ham.mem_right).trans hm,
            ham.mono (List.sublist_append_left ..)⟩
      · exact .inl hwritten
    · obtain rfl := List.mem_singleton.1 ha
      rw [NotBefore.eq_last hopHeld hab]
      exact .inl hwritten

/-- A command is made. -/
theorem Core.make (h : Core optFlush q p w) : Core optFlush q p (w.modify (·.make)) := by
  have hcmd {x : ℕ} (hx : w.queue.Held x) : w.queue.make.cmds x = w.queue.cmds x := by
    obtain ⟨i, hi⟩ := hx
    exact Function.update_of_ne (Nat.ne_of_lt (h.tidy.index i x hi).2) ..
  refine ⟨h.tidy.make, ?_, ?_, ?_, h.own, h.elsewhere, h.sub, h.waits⟩
  · intro x hx
    exact (congrArg Cmd.phase (hcmd hx)).trans (h.phases x hx)
  · intro hrelease i x hx hlast
    exact (congrArg Cmd.hasSignal (hcmd ⟨i, hx⟩)).trans (h.signal hrelease i x hx hlast)
  · intro x hx
    exact h.fresh x (Nat.le_trans (Nat.le_succ _) hx)

/-- What a command that is not held is like is nothing to the queue. -/
theorem Core.cmd {c : Cmd} (h : Core optFlush q p w) (hheld : ¬w.queue.Held op)
    (hc : c.asyncOpsIndex = (w.queue.cmds op).asyncOpsIndex) :
    Core optFlush q p
      (w.modify fun q => { q with cmds := Function.update w.queue.cmds op c }) := by
  have hcmd {x : ℕ} (hx : w.queue.Held x) :
      Function.update w.queue.cmds op c x = w.queue.cmds x :=
    Function.update_of_ne (fun heq : x = op => hheld (heq ▸ hx)) ..
  refine ⟨h.tidy.update hc, ?_, ?_, h.fresh, h.own, h.elsewhere, h.sub, h.waits⟩
  · intro x hx
    exact (congrArg Cmd.phase (hcmd hx)).trans (h.phases x hx)
  · intro hrelease i x hx hlast
    exact (congrArg Cmd.hasSignal (hcmd ⟨i, hx⟩)).trans (h.signal hrelease i x hx hlast)

/-- The status of a command that is not held, and was made, is nothing to the others. -/
theorem Core.copied {dep : Option ℕ} (h : Core optFlush q p w) (hop : op < w.queue.made)
    (hheld : ¬w.queue.Held op) :
    Core optFlush q p
      { queue := w.queue.dispatched op true, hw := w.hw.copy (q, op) (dep.map (q, ·)) } := by
  have hne {b : ℕ} (hb : b ∈ w.queue.held) : (q, b) ≠ (q, op) := by
    intro heq
    obtain rfl : b = op := congrArg Prod.snd heq
    exact hheld (DlaQueue.mem_held.1 hb)
  have hcmd := h.cmd hheld
    (c := { w.queue.cmds op with hasSignal := true, phase := .dispatched }) rfl
  refine ⟨hcmd.tidy, hcmd.phases, hcmd.signal, ?_, h.own, h.elsewhere, h.sub, ?_⟩
  · intro x hx
    have hne : (q, x) ≠ (q, op) := by
      intro heq
      have : x = op := congrArg Prod.snd heq
      have hx : w.queue.made ≤ x := hx
      omega
    exact (Function.update_of_ne hne ..).trans (h.fresh x hx)
  · intro a ha b hab
    refine (h.waits a ha b hab).congr ?_ ?_ hab
    · intro m ham hm
      exact (Function.update_of_ne (hne ham.mem_right) ..).trans hm
    · intro dep hdep
      exact (Function.update_of_ne (hne hab.mem_right) ..).trans hdep

/-- A copy that is after all that is unread is placed. -/
theorem Core.placed (h : Core optFlush q p w) (hop : op < w.queue.made)
    (hheld : ¬w.queue.Held op)
    (hroom : w.queue.asyncOps.length < MAX_INFLIGHT_COMMANDS_PER_QUEUE)
    (hphase : (w.queue.cmds op).phase = .dispatched) (hsignal : (w.queue.cmds op).hasSignal = true)
    (hdep : ∀ a ∈ w.hw.pending p, ∃ m, w.hw.status (q, op) = .copying (some (q, m)) ∧
      w.hw.status (q, m) = .written ∧ NotBefore w.queue.held a m) :
    Core optFlush q p (w.modify (·.place op)) := by
  have hplaced : (w.queue.place op).held = w.queue.held ++ [op] := DlaQueue.held_place
  refine ⟨h.tidy.place hop hheld hroom, ?_, ?_, h.fresh, h.own, h.elsewhere, ?_, ?_⟩
  · intro x hx
    rcases DlaQueue.Tidy.held_place hx with hx | rfl
    · have hxop : x ≠ op := fun heq => hheld (heq ▸ hx)
      simpa [World.modify, DlaQueue.place, Function.update_of_ne hxop] using h.phases x hx
    · simpa [World.modify, DlaQueue.place] using hphase
  · intro _ i x hx hlast
    have hlast : i + 1 = (w.queue.asyncOps ++ [some op]).length := hlast
    rw [List.length_append] at hlast
    rcases DlaQueue.heldAt_place.1 hx with hx | ⟨-, rfl⟩
    · have := (List.getElem?_eq_some_iff.1 hx).1
      simp at hlast
      omega
    · simpa [World.modify, DlaQueue.place] using hsignal
  · exact h.sub.trans (hplaced ▸ List.sublist_append_left ..)
  · intro a ha b hab
    change NotBefore (w.queue.place op).held a b at hab
    change w.hw.Waits q (w.queue.place op).held a b
    rw [hplaced] at hab ⊢
    rcases hab.of_concat (h.sub.subset ha) with hab | rfl
    · rcases h.waits a ha b hab with hb | ⟨m, hb, hm, ham⟩
      · exact .inl hb
      · exact .inr ⟨m, hb, hm, ham.mono (List.sublist_append_left ..)⟩
    · obtain ⟨m, hb, hm, ham⟩ := hdep a ha
      exact .inr ⟨m, hb, hm, ham.mono (List.sublist_append_left ..)⟩

/-- **What is complete is removed** with all that is older: nothing of that is unread. -/
theorem Core.removed {i : ℕ} (h : Core optFlush q p w) (hi : w.queue.HeldAt i op)
    (hdone : w.hw.status (q, op) = .done) :
    Core optFlush q p { w with queue := (w.queue.removeAsyncOp op).completed op } := by
  obtain ⟨l, hheld⟩ := h.tidy.held_removeAsyncOp hi
  have hnot {a : ℕ} (ha : a ∈ w.hw.pending p) : ¬NotBefore w.queue.held a op := fun hab =>
    (h.waits a ha op hab).not_completable.1 hdone
  have hpast {u : List ℕ} (hu : u.Sublist w.queue.held)
      (hbefore : ∀ a ∈ u, ¬NotBefore w.queue.held a op) :
      u.Sublist (w.queue.removeAsyncOp op).held := by
    rw [hheld] at hu hbefore
    exact sublist_of_not_notBefore hu hbefore
  have hyounger {x : ℕ} (hx : (w.queue.removeAsyncOp op).Held x) : x ≠ op := by
    have hnodup := h.tidy.nodup_held
    rw [hheld] at hnodup
    rintro rfl
    exact (List.nodup_cons.1 (List.nodup_append.1 hnodup).2.1).1 (DlaQueue.mem_held.2 hx)
  have hwas {x : ℕ} (hx : (w.queue.removeAsyncOp op).Held x) : w.queue.Held x := by
    obtain ⟨j, hj⟩ := hx
    exact ⟨j, h.tidy.held_of_removeAsyncOp hj⟩
  have hcmd {x : ℕ} (hx : (w.queue.removeAsyncOp op).Held x) :
      ((w.queue.removeAsyncOp op).completed op).cmds x = w.queue.cmds x :=
    Function.update_of_ne (hyounger hx) ..
  refine ⟨(h.tidy.removeAsyncOp op).update rfl, ?_, ?_, h.fresh, h.own, h.elsewhere, ?_, ?_⟩
  · intro x hx
    exact (congrArg Cmd.phase (hcmd hx)).trans (h.phases x (hwas hx))
  · intro hrelease j x hx hlast
    refine (congrArg Cmd.hasSignal (hcmd ⟨j, hx⟩)).trans
      (h.signal hrelease j x (h.tidy.held_of_removeAsyncOp hx) (hlast.trans ?_))
    exact h.tidy.length_removeAsyncOp op
  · exact hpast h.sub fun a ha => hnot ha
  · intro a ha b hab
    have hsubl : (w.queue.removeAsyncOp op).held.Sublist w.queue.held := by
      rw [hheld]
      exact (List.sublist_cons_self ..).trans (List.sublist_append_right ..)
    have hab' : NotBefore w.queue.held a b := hab.mono hsubl
    rcases h.waits a ha b hab' with hb | ⟨m, hb, hm, ham⟩
    · exact .inl hb
    · refine .inr ⟨m, hb, hm, hab.1, ?_⟩
      obtain ⟨-, rfl | ham⟩ := ham
      · exact .inl rfl
      -- neither of the two is before what is removed
      refine .inr (hpast ham fun x hx hxop => ?_)
      rcases List.mem_pair.1 hx with rfl | rfl
      · exact hnot ha hxop
      · exact hnot ha (.trans h.tidy.nodup_held ⟨hab'.1, .inr ham⟩ hxop)

/-- What the device does next is nothing to the queue. -/
theorem Core.wait (h : Core optFlush q p w) (schedule : List (List DeviceStep)) :
    Core optFlush q p { w with hw := { w.hw with schedule := schedule } } :=
  ⟨h.tidy, h.phases, h.signal, h.fresh, h.own, h.elsewhere, h.sub, h.waits⟩

/-- Nor is whether the queue is drained. -/
theorem Core.draining (h : Core optFlush q p w) (draining : Bool) :
    Core optFlush q p (w.modify fun q => { q with draining := draining }) :=
  ⟨⟨h.tidy.index, h.tidy.empties, h.tidy.length_le, h.tidy.most_le⟩, h.phases, h.signal, h.fresh,
    h.own, h.elsewhere, h.sub, h.waits⟩

/-- What every step of the device keeps, the steps that come next keep. -/
theorem Hw.advance_inv {I : Hw → Prop} (hdevice : ∀ hw s, I hw → I (hw.device s))
    (hwait : ∀ hw schedule, I hw → I { hw with schedule := schedule }) (h : I hw) :
    I hw.advance := by
  unfold Hw.advance
  split
  · exact h
  · rename_i steps schedule _
    refine hwait _ schedule ?_
    clear * - h hdevice
    induction steps generalizing hw with
    | nil => exact h
    | cons s steps ih => exact ih (hdevice hw s h)

/-- The device makes no copy of a command. -/
theorem Hw.advance_copying {c : CmdId} {dep : Option CmdId}
    (h : hw.status c ≠ .copying dep) : hw.advance.status c ≠ .copying dep := by
  refine Hw.advance_inv (I := fun hw => hw.status c ≠ .copying dep) ?_ (fun _ _ h => h) h
  intro hw s h
  have hupdate {c' : CmdId} {status : CmdStatus} (hstatus : status ≠ .copying dep) :
      Function.update hw.status c' status c ≠ .copying dep := by
    by_cases hc : c = c'
    · rw [hc, Function.update_self]
      exact hstatus
    · rw [Function.update_of_ne hc]
      exact h
  unfold Hw.device
  cases s with
  | complete c' =>
    dsimp only
    split
    · exact hupdate (by simp)
    · exact h
  | read p =>
    dsimp only
    split
    · exact h
    · exact hupdate (by simp)

/-- The device moves no write index, and reads nothing where nothing is unread. -/
theorem Hw.device_ring (s : DeviceStep) (p' : Place) :
    ((hw.device s).rings p').write = (hw.rings p').write ∧
      ((hw.rings p').unread = [] → ((hw.device s).rings p').unread = []) := by
  unfold Hw.device
  cases s with
  | complete c =>
    dsimp only
    split <;> exact ⟨rfl, id⟩
  | read p =>
    dsimp only
    split
    · exact ⟨rfl, id⟩
    · rename_i c unread hunread
      by_cases hp : p' = p
      · subst hp
        dsimp only
        rw [Function.update_self, Ring.write, Ring.write, hunread, List.length_cons]
        exact ⟨by dsimp only; omega, fun hnil => by cases hnil⟩
      · dsimp only
        rw [Function.update_of_ne hp]
        exact ⟨rfl, id⟩

/-- Where nothing is unread, nothing is until a packet is written. -/
theorem Hw.advance_pending (h : hw.pending p = []) : hw.advance.pending p = [] := by
  refine Hw.advance_inv (I := fun hw => hw.pending p = []) ?_ (fun _ _ h => h) h
  intro hw s h
  exact List.map_eq_nil_iff.2 ((hw.device_ring s p).2 (List.map_eq_nil_iff.1 h))

end

end Codrive.Csq
