/-
# Histories of queues and their rings

Any history of calls on any queues, of the device, and of rings that are taken, stolen and given up.
A ring that changes its owner has no unread packet, so all unread packets of a ring are those of one
queue, and the limit of that queue bounds them.  A copy without a dependency breaks this: it is
complete, and removed with all that is older, before that is read.
-/

import Codrive.Basis.Run
import Codrive.Csq.RingsCalls

namespace Codrive.Csq

open Codrive.Basis Relation

/-! ### What other queues see of a call -/

section

variable {optFlush ndebug : Bool} {q q' op : ℕ} {p p' : Place} {queue : DlaQueue} {hw hw' : Hw}
variable {w : World Hw}

/-- Another queue at another place keeps what it has in common with its ring. -/
theorem HwStep.core (hstep : HwStep q p hw hw') (hq : q' ≠ q) (hp : p' ≠ p)
    (h : Core optFlush q' p' { queue := queue, hw := hw }) :
    Core optFlush q' p' { queue := queue, hw := hw' } := by
  have hne (op op' : ℕ) : (q', op') ≠ (q, op) := fun heq => hq (congrArg Prod.fst heq)
  cases hstep with
  | device s => exact h.device s
  | wait schedule => exact h.wait schedule
  | copy op dep =>
    refine ⟨h.tidy, h.phases, h.signal, ?_, h.own, h.elsewhere, h.sub, ?_⟩
    · intro x hx
      exact (Function.update_of_ne (hne op x) ..).trans (h.fresh x hx)
    · intro a ha b hab
      refine (h.waits a ha b hab).congr ?_ ?_ hab
      · intro m _ hm
        exact (Function.update_of_ne (hne op m) ..).trans hm
      · intro dep hdep
        exact (Function.update_of_ne (hne op b) ..).trans hdep
  | write op =>
    have hrings : (hw.write p (q, op)).rings p' = hw.rings p' := Function.update_of_ne hp ..
    have hpending : (hw.write p (q, op)).pending p' = hw.pending p' := by
      rw [Hw.pending, hrings, Hw.pending]
    refine ⟨h.tidy, h.phases, h.signal, ?_, ?_, ?_, hpending ▸ h.sub, ?_⟩
    · intro x hx
      exact (Function.update_of_ne (hne op x) ..).trans (h.fresh x hx)
    · intro c hc
      exact h.own c (hrings ▸ hc)
    · intro p'' hp'' c hc
      by_cases heq : p'' = p
      · simp only [Hw.write, heq, Function.update_self, List.mem_append, List.mem_singleton] at hc
        rcases hc with hc | rfl
        · exact h.elsewhere p (heq ▸ hp'') c hc
        · exact hq.symm
      · simp only [Hw.write, Function.update_of_ne heq] at hc
        exact h.elsewhere p'' hp'' c hc
    · intro a ha b hab
      refine (h.waits a (hpending ▸ ha) b hab).congr ?_ ?_ hab
      · intro m _ hm
        exact (Function.update_of_ne (hne op m) ..).trans hm
      · intro dep hdep
        exact (Function.update_of_ne (hne op b) ..).trans hdep

theorem HwStep.ring (hstep : HwStep q p hw hw') (hp : p' ≠ p) :
    (hw'.rings p').write = (hw.rings p').write ∧
      ((hw.rings p').unread = [] → (hw'.rings p').unread = []) := by
  cases hstep with
  | device s => exact hw.device_ring s p'
  | wait schedule => exact ⟨rfl, id⟩
  | copy op dep => exact ⟨rfl, id⟩
  | write op =>
    have hrings : (hw.write p (q, op)).rings p' = hw.rings p' := Function.update_of_ne hp ..
    rw [hrings]
    exact ⟨rfl, id⟩

/-- **What a call leaves of the others.** -/
theorem HwSteps.core (hsteps : ReflTransGen (HwStep q p) hw hw') (hq : q' ≠ q) (hp : p' ≠ p)
    (h : Core optFlush q' p' { queue := queue, hw := hw }) :
    Core optFlush q' p' { queue := queue, hw := hw' } := by
  induction hsteps with
  | refl => exact h
  | tail _ hstep ih => exact hstep.core hq hp ih

theorem HwSteps.ring (hsteps : ReflTransGen (HwStep q p) hw hw') (hp : p' ≠ p) :
    (hw'.rings p').write = (hw.rings p').write ∧
      ((hw.rings p').unread = [] → (hw'.rings p').unread = []) := by
  induction hsteps with
  | refl => exact ⟨rfl, id⟩
  | tail _ hstep ih => exact ⟨(hstep.ring hp).1.trans ih.1, fun h => (hstep.ring hp).2 (ih.2 h)⟩

/-- A queue writes somewhere else, where nothing is unread here and there. -/
theorem Core.move (h : Core optFlush q p w) (hp : (w.hw.rings p).unread = [])
    (hp' : (w.hw.rings p').unread = []) : Core optFlush q p' w := by
  have hpending : w.hw.pending p' = [] := by rw [Hw.pending, hp', List.map_nil]
  refine ⟨h.tidy, h.phases, h.signal, h.fresh, ?_, ?_, hpending ▸ List.nil_sublist _, ?_⟩
  · intro c hc
    rw [hp'] at hc
    cases hc
  · intro p'' hp'' c hc
    by_cases heq : p'' = p
    · rw [heq, hp] at hc
      cases hc
    · exact h.elsewhere p'' heq c hc
  · intro a ha
    rw [hpending] at ha
    cases ha

end

/-! ### The system -/

/-- **What the queues and the rings have in common**: a ring has one owner, and one without has
nothing that is unread. -/
structure System.Inv (optFlush : Bool) (s : System) : Prop where
  core : ∀ q, Core optFlush q (s.place q) { queue := s.queue q, hw := s.hw }
  idle : ∀ q, (s.queue q).Idle
  apart : ∀ q q', s.place q = s.place q' → q = q'
  nowhere : ∀ q q', s.place q = .nowhere q' → q' = q
  created : ∀ q r, s.place q = .ring r → r < s.created
  unowned : ∀ p, (∀ q, s.place q ≠ p) → (s.hw.rings p).unread = []
  unwritten : ∀ q, (s.hw.rings (.nowhere q)).write = 0
  clean : s.hw.Clean

section

variable {optFlush ndebug : Bool} {q r : ℕ} {p : Place} {s s' : System} {w : World Hw}
variable {schedule : List (List DeviceStep)}

theorem System.Inv.start : System.Inv optFlush {} := by
  have hheld {i op : ℕ} : ¬({} : DlaQueue).HeldAt i op := fun h => by cases h
  have htidy : ({} : DlaQueue).Tidy := by
    refine ⟨fun i op h => absurd h hheld, ?_, Nat.zero_le _, Nat.zero_le _⟩
    intro i j _ h
    cases h
  refine ⟨fun q => ⟨htidy, ?_, ?_, fun _ _ => rfl, ?_, ?_, List.nil_sublist _, ?_⟩,
    fun q => ⟨htidy, rfl, Nat.zero_lt_succ _⟩, ?_, ?_, ?_, fun _ _ => rfl, fun _ => rfl, ⟨rfl, rfl⟩⟩
  · exact fun op ⟨i, h⟩ => absurd h hheld
  · exact fun _ i op h => absurd h hheld
  · intro c hc
    cases hc
  · intro p' _ c hc
    cases hc
  · intro a ha
    cases ha
  · intro q q' h
    cases h
    rfl
  · intro q q' h
    cases h
    rfl
  · intro q r h
    cases h

/-- What is nowhere is not read. -/
theorem System.Inv.unread_nowhere (h : s.Inv optFlush) (q : ℕ) :
    (s.hw.rings (.nowhere q)).unread = [] := by
  have hwrite := h.unwritten q
  unfold Ring.write at hwrite
  exact List.length_eq_zero_iff.1 (by omega)

/-- The world of a queue when a call is made. -/
theorem System.Inv.kept (h : s.Inv optFlush) (q : ℕ) (schedule : List (List DeviceStep)) :
    Kept optFlush q (s.place q) (s.world q schedule).hw (s.world q schedule) :=
  ⟨(h.core q).wait schedule, ⟨h.clean.overrun, h.clean.overwritten⟩, .refl⟩

/-- **After a call.** -/
theorem System.Inv.after (h : s.Inv optFlush)
    (hkept : Kept optFlush q (s.place q) (s.world q schedule).hw w) (hidle : w.queue.Idle)
    (hwrite : (w.hw.rings (.nowhere q)).write = 0) : (s.after q w).Inv optFlush := by
  refine ⟨?_, ?_, h.apart, h.nowhere, h.created, ?_, ?_, hkept.clean⟩
  · intro q'
    unfold System.after
    dsimp only
    by_cases hq : q' = q
    · subst hq
      rw [Function.update_self]
      exact hkept.core
    · rw [Function.update_of_ne hq]
      exact HwSteps.core hkept.steps hq (fun hp => hq (h.apart q' q hp))
        ((h.core q').wait schedule)
  · intro q'
    unfold System.after
    dsimp only
    by_cases hq : q' = q
    · rw [hq, Function.update_self]
      exact hidle
    · rw [Function.update_of_ne hq]
      exact h.idle q'
  · intro p hp
    exact (HwSteps.ring hkept.steps fun heq => hp q heq.symm).2 (h.unowned p hp)
  · intro q'
    by_cases hq : q' = q
    · rw [hq]
      exact hwrite
    · refine (HwSteps.ring hkept.steps fun heq => hq ?_).1.trans (h.unwritten q')
      exact h.nowhere q q' heq.symm

/-- A queue goes where nobody is, and leaves nothing that is unread. -/
theorem System.Inv.move (h : s.Inv optFlush) (hold : (s.hw.rings (s.place q)).unread = [])
    (hfree : ∀ q', s.place q' ≠ p) (hring : ∀ r, p = .ring r → r < s.created)
    (hnowhere : ∀ q', p = .nowhere q' → q' = q) : (s.move q p).Inv optFlush := by
  have hplace {q' : ℕ} (hq : q' ≠ q) : (s.move q p).place q' = s.place q' :=
    Function.update_of_ne hq ..
  have hself : (s.move q p).place q = p := Function.update_self ..
  refine ⟨?_, h.idle, ?_, ?_, ?_, ?_, h.unwritten, h.clean⟩
  · intro q'
    by_cases hq : q' = q
    · subst hq
      rw [hself]
      exact (h.core q').move hold (h.unowned p hfree)
    · rw [hplace hq]
      exact h.core q'
  · intro q₁ q₂ heq
    by_cases h₁ : q₁ = q <;> by_cases h₂ : q₂ = q
    · rw [h₁, h₂]
    · rw [h₁, hself, hplace h₂] at heq
      exact absurd heq.symm (hfree q₂)
    · rw [h₂, hself, hplace h₁] at heq
      exact absurd heq (hfree q₁)
    · rw [hplace h₁, hplace h₂] at heq
      exact h.apart q₁ q₂ heq
  · intro q₁ q₂ heq
    by_cases h₁ : q₁ = q
    · rw [h₁, hself] at heq
      rw [h₁]
      exact hnowhere q₂ heq
    · rw [hplace h₁] at heq
      exact h.nowhere q₁ q₂ heq
  · intro q₁ r heq
    by_cases h₁ : q₁ = q
    · rw [h₁, hself] at heq
      exact hring r heq
    · rw [hplace h₁] at heq
      exact h.created q₁ r heq
  · intro p' hp'
    by_cases hpq : s.place q = p'
    · exact hpq ▸ hold
    · refine h.unowned p' fun q' heq => ?_
      by_cases hq : q' = q
      · exact hpq (hq ▸ heq)
      · exact hp' q' ((hplace hq).trans heq)

/-- **A queue that is empty has nothing that is unread.** -/
theorem System.Inv.unread_of_isEmpty (h : s.Inv optFlush) (hempty : s.isEmpty q = true) :
    (s.hw.rings (s.place q)).unread = [] := by
  have hcore := h.core q
  have hnil : s.hw.pending (s.place q) = [] := by
    refine List.eq_nil_iff_forall_not_mem.2 fun a ha => ?_
    have hheld : a ∈ (s.queue q).held := hcore.sub.subset ha
    unfold System.isEmpty at hempty
    rcases List.eq_nil_or_concat' (s.queue q).held with hl | ⟨l, op, hl⟩
    · rw [hl] at hheld
      cases hheld
    · rw [hl, List.getLast?_append, List.getLast?_singleton] at hempty
      have hdone : s.hw.status (q, op) = .done := by simpa using (Bool.and_eq_true_iff.1 hempty).2
      refine (hcore.waits a ha op ?_).not_completable.1 hdone
      change NotBefore (s.queue q).held a op
      rw [hl] at hheld ⊢
      rcases List.mem_append.1 hheld with hmem | hmem
      · exact .last hmem op
      · rw [List.mem_singleton.1 hmem]
        exact .self (by simp)
  exact List.map_eq_nil_iff.1 hnil

/-- A copy that goes to the queue has a marker before it, or nothing of the queue is unread. -/
def Covered (s : System) : Event → Prop
  | .call q .enqueueAsyncCopy =>
    (s.queue q).nextSyncNeedsSysRelease = true ∨ (s.hw.rings (s.place q)).unread = []
  | _ => True

/-- **A step of the system.** -/
theorem System.Inv.step {e : Event} (h : s.Inv optFlush) (hcovered : Covered s e)
    (hstep : SystemStep optFlush ndebug s e s') : s'.Inv optFlush := by
  cases hstep with
  | @call q c schedule w hrun hwrite =>
    have hkept : Returns (c.run (rings q (s.place q)) optFlush ndebug (s.world q schedule))
        fun w => Kept optFlush q (s.place q) (s.world q schedule).hw w ∧ w.queue.Idle := by
      refine QueueCall.run_kept (h.kept q schedule) (h.idle q) ?_
      rintro rfl
      exact hcovered.imp_right List.map_eq_nil_iff.2
    rw [hrun] at hkept
    exact h.after hkept.1 hkept.2 hwrite
  | @device d =>
    have hring (p : Place) := s.hw.device_ring d p
    refine ⟨fun q => (h.core q).device d, h.idle, h.apart, h.nowhere, h.created,
      fun p hp => (hring p).2 (h.unowned p hp), fun q => (hring _).1.trans (h.unwritten q),
      h.clean.device d⟩
  | @create q hplace =>
    have hcreated : ({ s with created := s.created + 1 } : System).Inv optFlush :=
      ⟨h.core, h.idle, h.apart, h.nowhere, fun q r hr => Nat.lt_succ_of_lt (h.created q r hr),
        h.unowned, h.unwritten, h.clean⟩
    refine hcreated.move (hplace ▸ h.unread_nowhere q) (fun q' heq => ?_) ?_ ?_
    · exact absurd (h.created q' _ heq) (Nat.lt_irrefl _)
    · rintro r heq
      cases heq
      exact Nat.lt_succ_self _
    · rintro q' heq
      cases heq
  | @take q r hplace hr hfree =>
    refine h.move (hplace ▸ h.unread_nowhere q) hfree ?_ ?_
    · rintro r' heq
      cases heq
      exact hr
    · rintro q' heq
      cases heq
  | @steal thief victim r hthief hvictim hempty =>
    have hne : thief ≠ victim := by
      rintro rfl
      rw [hthief] at hvictim
      cases hvictim
    -- the victim gives its ring up, and the thief takes it
    have hgiven : (s.move victim (.nowhere victim)).Inv optFlush := by
      refine h.move (h.unread_of_isEmpty hempty) (fun q' heq => ?_) ?_ ?_
      · have := h.nowhere q' victim heq
        rw [this, heq] at hvictim
        cases hvictim
      · rintro r' heq
        cases heq
      · rintro q' heq
        cases heq
        rfl
    have hplace : (s.move victim (.nowhere victim)).place thief = .nowhere thief :=
      (Function.update_of_ne hne ..).trans hthief
    have hself : (s.move victim (.nowhere victim)).place victim = .nowhere victim :=
      Function.update_self ..
    refine hgiven.move (hplace ▸ hgiven.unread_nowhere thief) (fun q' heq => ?_) ?_ ?_
    · by_cases hq : q' = victim
      · rw [hq, hself] at heq
        cases heq
      · exact hq (h.apart q' victim (((Function.update_of_ne hq ..).symm.trans heq).trans
          hvictim.symm))
    · rintro r' heq
      cases heq
      exact h.created victim r hvictim
    · rintro q' heq
      cases heq
  | @dispose q schedule w hrun hwrite =>
    have hreturns : Returns (wait (rings q (s.place q)) optFlush ndebug (s.world q schedule)) _ :=
      (wait_kept (h.kept q schedule) (h.idle q)).and (wait_returns (h.idle q))
    rw [hrun] at hreturns
    obtain ⟨hkept, hwaited⟩ := hreturns
    have hafter := h.after hkept hwaited.2 hwrite
    by_cases hplace : s.place q = .nowhere q
    · have heq : (s.after q w).move q (.nowhere q) = s.after q w := by
        unfold System.move
        rw [← hplace]
        exact congrArg (fun place => { s.after q w with place := place })
          (Function.update_eq_self q s.place)
      rw [heq]
      exact hafter
    · have hnil : w.hw.pending (s.place q) = [] := hkept.core.pending_eq_nil hwaited.1.asyncOps
      refine hafter.move (List.map_eq_nil_iff.1 hnil) (fun q' heq => ?_) ?_ ?_
      · have := h.nowhere q' q heq
        exact hplace (this ▸ heq)
      · rintro r heq
        cases heq
      · rintro q' heq
        cases heq
        rfl

/-- **In every history whose copies are covered, no packet is written to a full ring, or over an
unread one.** -/
theorem no_overrun_of_run {events : List Event}
    (h : Run (Guarded Covered (SystemStep optFlush ndebug)) {} events s) :
    s.hw.overrun = false ∧ s.hw.overwritten = false := by
  have hinv : s.Inv optFlush :=
    Run.inv (I := fun s => s.Inv optFlush) (fun _ _ _ hs hstep => hs.step hstep.1 hstep.2) h .start
  exact ⟨hinv.clean.overrun, hinv.clean.overwritten⟩

/-- A kernel, a copy after it, and a wait; then another queue steals the ring. -/
theorem no_overrun_of_run_stolen :
    ∃ s : System, s.place 1 = .ring 0 ∧ s.hw.overrun = false ∧ s.hw.overwritten = false :=
  have h : Run (Guarded Covered (SystemStep true false)) {}
      [.create 0, .call 0 (.dispatchHsaKernel true false), .call 0 .enqueueAsyncCopy,
        .call 0 .wait, .steal 1 0] _ :=
    .cons ⟨trivial, .create rfl⟩
      (.cons ⟨trivial, @SystemStep.call true false _ _ _ [] _ rfl rfl⟩
        (.cons ⟨.inl rfl, @SystemStep.call true false _ _ _ [] _ rfl rfl⟩
          (.cons ⟨trivial, @SystemStep.call true false _ _ _ [[.read (.ring 0), .read (.ring 0),
              .complete (0, 2), .complete (0, 1)]] _ rfl rfl⟩
            (.cons ⟨trivial, .steal rfl rfl rfl⟩ (.nil _)))))
  ⟨_, rfl, no_overrun_of_run h⟩

/-! ### Copies that are not covered -/

section

variable {σ : Type*} {rt : Runtime σ} {w : World σ} {i op : ℕ} {hw : σ}

theorem pushAsyncOp_room {f : World σ → Except Stop (World σ)}
    (h : w.queue.asyncOps.length + 1 < MAX_INFLIGHT_COMMANDS_PER_QUEUE) :
    pushAsyncOp f op w = .ok (w.modify (·.place op)) := by
  have hlt : ¬MAX_INFLIGHT_COMMANDS_PER_QUEUE - 1 ≤ w.queue.asyncOps.length :=
    Nat.not_le.2 (Nat.lt_sub_of_add_lt h)
  unfold pushAsyncOp
  rw [if_neg fun hlimit => hlt hlimit.2]

/-- A marker where there is room. -/
theorem enqueueMarkerWithDependency_room {f : World σ → Except Stop (World σ)} {inherit : Bool}
    {scope : MemoryScope}
    (h : w.queue.asyncOps.length + 1 < MAX_INFLIGHT_COMMANDS_PER_QUEUE) :
    enqueueMarkerWithDependency rt f inherit scope w = .ok
      { queue := { (w.queue.make.place w.queue.made).dispatched w.queue.made true with
          nextSyncNeedsSysRelease :=
            scope ≠ .system && (inherit || w.queue.nextSyncNeedsSysRelease) }
        hw := rt.write w.queue.made true w.hw } := by
  unfold enqueueMarkerWithDependency
  rw [pushAsyncOp_room (w := w.modify (·.make)) h]
  rfl

/-- A copy where there is room and no release is needed. -/
theorem enqueueAsyncCopy_room (hrelease : w.queue.nextSyncNeedsSysRelease = false)
    (h : w.queue.asyncOps.length + 1 < MAX_INFLIGHT_COMMANDS_PER_QUEUE) :
    enqueueAsyncCopy rt optFlush ndebug w = .ok
      { queue := (w.queue.make.dispatched w.queue.made true).place w.queue.made
        hw := rt.copy w.queue.made none w.hw } := by
  have hmake : (w.modify (·.make)).queue.nextSyncNeedsSysRelease = false := hrelease
  unfold enqueueAsyncCopy enqueueAsyncCopyCommand
  rw [hmake, if_neg Bool.false_ne_true]
  exact pushAsyncOp_room h

/-- A wait that the youngest operation ends. -/
theorem wait_youngest (h : w.queue.Tidy) (hrelease : w.queue.nextSyncNeedsSysRelease = false)
    (hi : w.queue.HeldAt i op) (hlen : w.queue.asyncOps.length = i + 1)
    (hsignal : (w.queue.cmds op).hasSignal = true)
    (hphase : (w.queue.cmds op).phase = .dispatched) (hawait : rt.await op w.hw = some hw) :
    wait rt optFlush ndebug w = .ok
      { queue := { (w.queue.removeAsyncOp op).completed op with asyncOps := [] }, hw := hw } := by
  unfold wait
  rw [waitDepth, hrelease, Bool.and_false, if_neg Bool.false_ne_true,
    drain_youngest h hi hlen hsignal hphase]
  unfold futureWait
  rw [if_neg (by simp [hphase]), if_neg (by simp [hsignal]), hawait]
  rfl

end

/-- A marker, a copy, and a wait that the copy is complete for. -/
def uncoveredRound : List Event :=
  [.call 0 (.enqueueMarker false .system), .call 0 .enqueueAsyncCopy, .call 0 .wait]

/-- A queue with few slots that needs no release. -/
structure DlaQueue.Short (n : ℕ) (q : DlaQueue) : Prop where
  idle : q.Idle
  length_eq : q.asyncOps.length = n
  release : q.nextSyncNeedsSysRelease = false

/-- The youngest operation of a queue with two slots. -/
structure DlaQueue.Second (op : ℕ) (q : DlaQueue) : Prop where
  held : q.HeldAt 1 op
  signal : (q.cmds op).hasSignal = true
  phase : (q.cmds op).phase = .dispatched

/-- The queue 0 holds nothing, and as many packets of its ring are unread. -/
structure Unread (n : ℕ) (s : System) : Prop where
  place : s.place 0 = .ring 0
  short : (s.queue 0).Short 0
  unread : (s.hw.rings (.ring 0)).unread.length = n
  nowhere : (s.hw.rings (.nowhere 0)).write = 0

/-- A device that takes no steps. -/
theorem Hw.advance_nil {hw : Hw} (h : hw.schedule = []) : hw.advance = hw := by
  simp [Hw.advance, h]

/-- The marker of a round. -/
theorem marker_round {w : World Hw} (h : w.queue.Short 0) (hschedule : w.hw.schedule = []) :
    ∃ w', QueueCall.run (rings 0 (.ring 0)) true ndebug (.enqueueMarker false .system) w = .ok w' ∧
      w'.queue.Short 1 ∧ w'.hw.rings (.nowhere 0) = w.hw.rings (.nowhere 0) ∧
      w'.hw.rings (.ring 0) = { w.hw.rings (.ring 0) with
        unread := (w.hw.rings (.ring 0)).unread ++ [(0, w.queue.made)] } := by
  have hrun : QueueCall.run (rings 0 (.ring 0)) true ndebug (.enqueueMarker false .system) w = _ :=
    enqueueMarkerWithDependency_room (by rw [h.length_eq]; decide)
  have hreturns : Returns (QueueCall.run (rings 0 (.ring 0)) true ndebug
      (.enqueueMarker false .system) w) _ :=
    enqueueMarkerWithDependency_returns (fun _ hw => wait_draining hw) h.idle
  rw [hrun] at hreturns
  refine ⟨_, hrun, ⟨hreturns.idle, ?_, rfl⟩, ?_, ?_⟩
  · simp [DlaQueue.dispatched, DlaQueue.place, DlaQueue.make, h.length_eq]
  · simp [rings, Hw.write, Hw.advance_nil hschedule]
  · simp [rings, Hw.write, Hw.advance_nil hschedule]

/-- The copy of a round, which depends on nothing. -/
theorem copy_round {w : World Hw} (h : w.queue.Short 1) (hschedule : w.hw.schedule = []) :
    ∃ w', QueueCall.enqueueAsyncCopy.run (rings 0 (.ring 0)) true ndebug w = .ok w' ∧
      w'.queue.Short 2 ∧ w'.queue.Second w.queue.made ∧ w'.hw.rings = w.hw.rings ∧
      w'.hw.status (0, w.queue.made) = .copying none := by
  have hrun : QueueCall.enqueueAsyncCopy.run (rings 0 (.ring 0)) true ndebug w = _ :=
    enqueueAsyncCopy_room h.release (by rw [h.length_eq]; decide)
  have hreturns : Returns (QueueCall.enqueueAsyncCopy.run (rings 0 (.ring 0)) true ndebug w) _ :=
    enqueueAsyncCopy_returns h.idle
  rw [hrun] at hreturns
  refine ⟨_, hrun, ⟨hreturns, ?_, h.release⟩, ⟨?_, ?_, ?_⟩, ?_, ?_⟩
  · simp [DlaQueue.dispatched, DlaQueue.place, DlaQueue.make, h.length_eq]
  · rw [← h.length_eq]
    exact List.getElem?_concat_length ..
  · simp [DlaQueue.place, DlaQueue.dispatched]
  · simp [DlaQueue.place, DlaQueue.dispatched]
  · simp [rings, Hw.copy, Hw.advance_nil hschedule]
  · simp [rings, Hw.copy]

/-- The wait of a round, while the device completes the copy. -/
theorem wait_round {w : World Hw} {op : ℕ} (h : w.queue.Short 2) (hop : w.queue.Second op)
    (hstatus : w.hw.status (0, op) = .copying none)
    (hschedule : w.hw.schedule = [[.complete (0, op)]]) :
    ∃ w', QueueCall.wait.run (rings 0 (.ring 0)) true ndebug w = .ok w' ∧
      w'.queue.Short 0 ∧ w'.hw.rings = w.hw.rings := by
  obtain ⟨hw, hawait, hrings⟩ : ∃ hw, (rings 0 (.ring 0)).await op w.hw = some hw ∧
      hw.rings = w.hw.rings := by
    simp [rings, hschedule, Hw.advance, Hw.device, Hw.completable, hstatus]
  have hrun : QueueCall.wait.run (rings 0 (.ring 0)) true ndebug w = _ :=
    wait_youngest h.idle.tidy h.release hop.held h.length_eq hop.signal hop.phase hawait
  have hreturns : Returns (QueueCall.wait.run (rings 0 (.ring 0)) true ndebug w) _ :=
    wait_returns h.idle
  rw [hrun] at hreturns
  exact ⟨_, hrun, ⟨hreturns.2, rfl, h.release⟩, hrings⟩

/-- **A round leaves one more packet unread.** -/
theorem Unread.next {n : ℕ} (h : Unread n s) :
    ∃ s', Run (SystemStep true ndebug) s uncoveredRound s' ∧ Unread (n + 1) s' := by
  have hstep {s' : System} {c : QueueCall} {schedule : List (List DeviceStep)} {w : World Hw}
      (hplace : s'.place 0 = .ring 0)
      (hrun : c.run (rings 0 (.ring 0)) true ndebug (s'.world 0 schedule) = .ok w)
      (hnowhere : (w.hw.rings (.nowhere 0)).write = 0) :
      SystemStep true ndebug s' (.call 0 c) (s'.after 0 w) :=
    .call (hplace ▸ hrun) hnowhere
  have hqueue (s' : System) (w : World Hw) : (s'.after 0 w).queue 0 = w.queue := by
    simp [System.after]
  obtain ⟨w₁, h₁, hshort₁, hnowhere₁, hring₁⟩ := @marker_round ndebug (s.world 0 []) h.short rfl
  have hwrite₁ : (w₁.hw.rings (.nowhere 0)).write = 0 := hnowhere₁ ▸ h.nowhere
  obtain ⟨w₂, h₂, hshort₂, hsecond₂, hrings₂, hstatus₂⟩ :=
    @copy_round ndebug ((s.after 0 w₁).world 0 [])
      (by rw [System.world, hqueue]; exact hshort₁) rfl
  have hwrite₂ : (w₂.hw.rings (.nowhere 0)).write = 0 := by
    rw [hrings₂]
    exact hwrite₁
  -- the device completes the copy while it is waited for
  obtain ⟨w₃, h₃, hshort₃, hrings₃⟩ :=
    @wait_round ndebug (((s.after 0 w₁).after 0 w₂).world 0
      [[.complete (0, ((s.after 0 w₁).queue 0).made)]]) _
        (by rw [System.world, hqueue]; exact hshort₂)
      (by rw [System.world, hqueue]; exact hsecond₂) hstatus₂ rfl
  have hrings (r : Place) : w₃.hw.rings r = w₁.hw.rings r := by
    rw [hrings₃]
    exact congrFun hrings₂ r
  have hwrite₃ : (w₃.hw.rings (.nowhere 0)).write = 0 := by
    rw [hrings]
    exact hwrite₁
  refine ⟨_, .cons (hstep h.place h₁ hwrite₁) (.cons (hstep h.place h₂ hwrite₂)
    (.cons (hstep h.place h₃ hwrite₃) (.nil _))), h.place, ?_, ?_, hwrite₃⟩
  · rw [hqueue]
    exact hshort₃
  · change (w₃.hw.rings (.ring 0)).unread.length = n + 1
    rw [hrings, hring₁, List.length_append]
    exact congrArg (· + 1) h.unread

/-- As many rounds as a ring has packets, and one more marker. -/
def uncoveredEvents : List Event :=
  .create 0 :: (List.replicate QUEUE_SIZE uncoveredRound).flatten ++
    [.call 0 (.enqueueMarker false .system)]

/-- A full ring overwrites its first unread packet. -/
theorem Ring.overwrites_of_full {ring : Ring} (h : ring.unread.length = QUEUE_SIZE) :
    ring.overwrites = true := by
  unfold Ring.overwrites
  rw [List.any_eq_true]
  refine ⟨0, ?_, ?_⟩
  · rw [List.mem_range, h]
    decide
  · rw [decide_eq_true_eq, Ring.write, h, Nat.add_zero, Nat.add_mod_right]

/-- **An unread packet is overwritten**: every copy is complete, and removed with the marker before
it, while the device reads nothing. -/
theorem unread_packet_is_overwritten :
    ∃ s, Run (SystemStep true false) {} uncoveredEvents s ∧ s.hw.overrun = true ∧
      s.hw.overwritten = true := by
  have hrounds (n : ℕ) : ∃ s, Run (SystemStep true false) {}
      (.create 0 :: (List.replicate n uncoveredRound).flatten) s ∧ Unread n s := by
    induction n with
    | zero =>
      exact ⟨_, .cons (.create rfl) (.nil _), rfl,
        ⟨(@System.Inv.start true).idle 0, rfl, rfl⟩, rfl, rfl⟩
    | succ n ih =>
      obtain ⟨s, hrun, hunread⟩ := ih
      obtain ⟨s', hround, hunread'⟩ := @Unread.next false s n hunread
      refine ⟨s', ?_, hunread'⟩
      rw [List.replicate_succ', List.flatten_append, List.flatten_singleton, ← List.cons_append]
      exact hrun.append hround
  obtain ⟨s, hrun, hunread⟩ := hrounds QUEUE_SIZE
  have hlast : QueueCall.run (rings 0 (s.place 0)) true false (.enqueueMarker false .system)
      (s.world 0 []) = _ :=
    enqueueMarkerWithDependency_room (by rw [System.world, hunread.short.length_eq]; decide)
  refine ⟨_, hrun.snoc (.call hlast ?_), ?_, ?_⟩
  · rw [hunread.place]
    exact hunread.nowhere
  · simp [System.after, System.world, rings, Hw.advance, Hw.write, hunread.place, hunread.unread]
  · simp [System.after, System.world, rings, Hw.advance, Hw.write, hunread.place,
      Ring.overwrites_of_full hunread.unread]

end

end Codrive.Csq
