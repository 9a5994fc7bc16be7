/-
# The start of a wait

The first part of `opu_wait_on_events`, from the loop over the user's array to where the mutex is
let go: `init_event_waiter_get_status` takes signals one after the other, and a call that fails
after that has lost them.  `Starting` is what the loop keeps; `Starting.cons` is one pass through
it.
-/

import Codrive.Events.WaitsInv

namespace Codrive.Events

open Codrive.Basis

namespace State

section

variable {s t : State} {ev ev' : Event} {id : ℕ} {w : ℕ} {x : ℕ × ℕ} {wait : Wait} {phase : Phase}
variable {woken : ℕ × ℕ → Bool} {events : List (Option ℕ)} {op : WaitOp} {ops : List WaitOp}

/-- A wait starts, with waiters that are not activated. -/
theorem Inv.start (h : s.Inv) (hnone : s.waits w = none) (hphase : wait.phase = .waiting)
    {waiters : ℕ × ℕ → Waiter} (hsame : ∀ x, x.1 ≠ w → waiters x = s.waiters x)
    (hclear : ∀ x, x.1 = w → (waiters x).activated = false) :
    Inv { s with waits := Function.update s.waits w (some wait), waiters } := by
  have hother : ∀ {w' wait'}, s.waits w' = some wait' → w' ≠ w ∧
      Function.update s.waits w (some wait) w' = some wait' := by
    intro w' wait' hwait'
    have hne : w' ≠ w := by
      rintro rfl
      rw [hnone] at hwait'
      cases hwait'
    exact ⟨hne, by rw [Function.update_apply, if_neg hne, hwait']⟩
  refine ⟨h.ids, fun id ev hev x hx => ?_, h.since_live, h.signaled, h.before, h.once,
    fun x hx => ?_, fun w' wait' hwait' hend => ?_⟩
  · obtain ⟨wait', hwait', hphase', hidx, htype⟩ := h.queued id ev hev x hx
    obtain ⟨hne, hwaits⟩ := hother hwait'
    refine ⟨wait', hwaits, hphase', hidx, ?_⟩
    dsimp only
    rw [hsame x hne]
    exact htype
  · dsimp only at hx
    by_cases hw : x.1 = w
    · rw [hclear x hw] at hx
      cases hx
    · rw [hsame x hw] at hx
      obtain ⟨wait', hwait', hgrant⟩ := h.activated x hx
      exact ⟨wait', (hother hwait').2, hgrant⟩
  · dsimp only at hwait'
    rw [Function.update_apply] at hwait'
    split at hwait'
    · cases hwait'
      rw [hphase] at hend
      rcases hend with hend | hend <;> cases hend
    · rename_i hw
      refine (h.done w' wait' hwait' hend).imp fun i hi => ?_
      dsimp only
      rw [hsame (w', i) hw]
      exact hi

/-- **A wait has started**: its waiters are in no queue and point to the events of the array. -/
structure Starting (s : State) (w : ℕ) (wait : Wait) : Prop where
  inv : s.Inv
  none_lost : s.NoneLost
  listed : s.waits w = some wait
  phase : wait.phase = .waiting
  pointed : ∀ i id type, (s.waiters (w, i)).event = some (id, type) →
    wait.events[i]? = some (some id)
  free : ∀ id ev, lookupEventById s.p id = some ev → ∀ x ∈ ev.wq, x.1 ≠ w

/-- What `init_event_waiter_get_status` does to the events, the waiters and the grants. -/
theorem initEventWaiterGetStatus_spec (hev : lookupEventById s.p id = some ev)
    (hid : ev.event_id = id) : ∃ t, s.initEventWaiterGetStatus x id = (none, t) ∧
      (∀ id', lookupEventById t.p id' =
        if id' = id then some { ev with signaled := ev.signaled && !ev.auto_reset }
        else lookupEventById s.p id') ∧
      (∀ x', t.waiters x' = if x' = x then ⟨some (id, ev.type), ev.signaled⟩ else s.waiters x') ∧
      t.waits = s.waits ∧ t.now = s.now ∧ t.since = s.since ∧
      (∀ g ∈ s.grants, g ∈ t.grants) ∧
      (∀ g ∈ t.grants, g ∈ s.grants ∨ ev.signaled = true ∧ g.event_id = id ∧
        g.auto_reset = ev.auto_reset ∧ s.since id = some g.signal ∧ g.moment = s.now ∧
          g.waiter = x) ∧
      (∀ n, ev.signaled = true → s.since id = some n →
        ∃ g ∈ t.grants, g.event_id = id ∧ g.signal = n ∧ g.waiter = x) := by
  subst hid
  unfold initEventWaiterGetStatus
  rw [hev]
  refine ⟨_, rfl, fun id' => lookup_put, fun x' => Function.update_apply .., rfl, rfl, rfl,
    fun g hg => ?_, fun g hg => ?_, fun n hs hsince => ?_⟩
  · dsimp only
    split
    · exact List.mem_append_right _ hg
    · exact hg
  · dsimp only at hg
    split at hg
    · rename_i hs
      rcases List.mem_append.1 hg with hg | hg
      · obtain ⟨n, hn, rfl⟩ := List.mem_map.1 hg
        exact .inr ⟨hs, rfl, rfl, Option.mem_toList.1 hn, rfl, rfl⟩
      · exact .inl hg
    · exact .inl hg
  · dsimp only
    rw [if_pos hs, hsince]
    exact ⟨_, List.mem_append_left _ (List.mem_map_of_mem (Option.mem_toList.2 rfl)), rfl, rfl, rfl⟩

/-- **A waiter looks at its event**, and takes the signal of one that resets itself. -/
theorem Starting.initEventWaiterGetStatus (h : s.Starting w wait) {i : ℕ}
    (hev : lookupEventById s.p id = some ev) (hidx : wait.events[i]? = some (some id))
    (ht : s.initEventWaiterGetStatus (w, i) id = (none, t)) : t.Starting w wait := by
  have hid := h.inv.ids id ev hev
  obtain ⟨t', ht', hlookup, hwaiters, hwaits, hnow, hsince, hold, hgrants, hnew⟩ :=
    @initEventWaiterGetStatus_spec s ev id (w, i) hev hid
  rw [ht] at ht'
  cases ht'
  -- an event afterwards is one from before, with the same queue
  have hbefore : ∀ id' ev', lookupEventById t.p id' = some ev' → ∃ ev'',
      lookupEventById s.p id' = some ev'' ∧ ev'.event_id = ev''.event_id ∧ ev'.wq = ev''.wq ∧
        ev'.auto_reset = ev''.auto_reset ∧
        ev'.signaled = (ev''.signaled && !(id' = id && ev''.auto_reset)) := by
    intro id' ev' h'
    rw [hlookup] at h'
    split at h'
    · rename_i heq
      subst heq
      cases h'
      exact ⟨ev, hev, rfl, rfl, rfl, by simp⟩
    · rename_i hne
      exact ⟨ev', h', rfl, rfl, rfl, by simp [hne]⟩
  have hfree : ∀ id' ev', lookupEventById t.p id' = some ev' → ∀ x ∈ ev'.wq, x.1 ≠ w := by
    intro id' ev' h' x hx
    obtain ⟨ev'', h'', -, hwq, -⟩ := hbefore id' ev' h'
    rw [hwq] at hx
    exact h.free id' ev'' h'' x hx
  have hgranted : ∀ {w' wait' k}, s.Granted w' wait' k → t.Granted w' wait' k :=
    fun ⟨g, hg, hgx⟩ => ⟨g, hold g hg, hgx⟩
  refine ⟨?_, ?_, hwaits ▸ h.listed, h.phase, fun j id' type htype => ?_, hfree⟩
  · constructor
    · intro id' ev' h'
      obtain ⟨ev'', h'', heq, -⟩ := hbefore id' ev' h'
      rw [heq]
      exact h.inv.ids id' ev'' h''
    · intro id' ev' h' x hx
      obtain ⟨ev'', h'', -, hwq, -⟩ := hbefore id' ev' h'
      have hne : x ≠ (w, i) := fun heq => hfree id' ev' h' x hx (congrArg Prod.fst heq)
      rw [hwq] at hx
      rw [hwaits, hwaiters, if_neg hne]
      exact h.inv.queued id' ev'' h'' x hx
    · intro id' n hn
      rw [hlookup]
      split
      · exact ⟨_, rfl⟩
      · exact h.inv.since_live id' n (hsince ▸ hn)
    · intro id' ev' h' hs
      obtain ⟨ev'', h'', -, -, hauto, hsig⟩ := hbefore id' ev' h'
      rw [hsig, Bool.and_eq_true, Bool.not_eq_true'] at hs
      obtain ⟨n, hn, hn', hnone⟩ := h.inv.signaled id' ev'' h'' hs.1
      refine ⟨n, hnow ▸ hn, hsince ▸ hn', fun ha g hg hgid => ?_⟩
      rcases hgrants g hg with hg | ⟨-, hgid', -⟩
      · exact hnone (hauto ▸ ha) g hg hgid
      · -- an event that resets itself is not signaled any more
        rw [hgid] at hgid'
        rw [hauto] at ha
        simp [hgid', ha] at hs
    · intro g hg
      rcases hgrants g hg with hg | ⟨hs, -, -, hn, hmoment, -⟩
      · exact hnow ▸ h.inv.before g hg
      · obtain ⟨n, hle, hn', -⟩ := h.inv.signaled id ev hev hs
        rw [hn] at hn'
        cases hn'
        rw [hmoment, hnow]
        exact ⟨hle, Nat.le_refl _⟩
    · intro g hg g' hg' ha ha' hgid hgn
      rcases hgrants g hg with hg | ⟨hs, hgid₁, hauto₁, hn, hmoment, -⟩ <;>
        rcases hgrants g' hg' with hg' | ⟨hs', hgid₂, hauto₂, hn', hmoment', -⟩
      · exact h.inv.once g hg g' hg' ha ha' hgid hgn
      · obtain ⟨n, -, hsn, hnone⟩ := h.inv.signaled id ev hev hs'
        rw [hn'] at hsn
        cases hsn
        exact absurd hgn.symm (hnone (hauto₂ ▸ ha') g hg (hgid.symm.trans hgid₂))
      · obtain ⟨n, -, hsn, hnone⟩ := h.inv.signaled id ev hev hs
        rw [hn] at hsn
        cases hsn
        exact absurd hgn (hnone (hauto₁ ▸ ha) g' hg' (hgid.trans hgid₁))
      · rw [hmoment, hmoment']
    · intro x hx
      rw [hwaiters] at hx
      split at hx
      · rename_i heq
        subst heq
        obtain ⟨n, -, hn, -⟩ := h.inv.signaled id ev hev hx
        obtain ⟨g, hg, hgid, -, hgx⟩ := hnew n hx hn
        exact ⟨wait, hwaits ▸ h.listed, g, hg, hgx, by rw [hidx, hgid]⟩
      · obtain ⟨wait', hwait', hgrant⟩ := h.inv.activated x hx
        exact ⟨wait', hwaits ▸ hwait', hgranted hgrant⟩
    · intro w' wait' hwait' hend
      rw [hwaits] at hwait'
      refine (h.inv.done w' wait' hwait' hend).imp fun j hj => ?_
      rw [hwaiters, if_neg, hj]
      intro heq
      rw [(Prod.mk.inj heq).1, h.listed] at hwait'
      cases hwait'
      rw [h.phase] at hend
      rcases hend with hend | hend <;> cases hend
  · intro id' ev' n h' hauto hn
    obtain ⟨ev'', h'', -, -, hauto', hsig⟩ := hbefore id' ev' h'
    have hhope : ∀ {w'}, s.Hopeful w' → t.Hopeful w' := fun ⟨wait', hwait', hphase⟩ =>
      ⟨wait', hwaits ▸ hwait', hphase⟩
    rw [hsince] at hn
    rcases h.none_lost id' ev'' n h'' (hauto' ▸ hauto) hn with hs | ⟨g, hg, hgid, hgn, hg'⟩
    · by_cases heq : id' = id
      · subst heq
        rw [hev] at h''
        cases h''
        obtain ⟨g, hg, hgid, hgn, hgx⟩ := hnew n hs hn
        refine .inr ⟨g, hg, hgid, hgn, wait, ?_, by rw [h.phase]; rfl⟩
        rw [hgx, hwaits]
        exact h.listed
      · exact .inl (by rw [hsig, hs]; simp [heq])
    · exact .inr ⟨g, hold g hg, hgid, hgn, hhope hg'⟩
  · rw [hwaiters] at htype
    split at htype
    · rename_i heq
      cases htype
      cases heq
      exact hidx
    · exact h.pointed j id' type htype

/-- **The loop over the array goes on** after an id of an event. -/
theorem Starting.cons (h : s.Starting w wait) {i : ℕ}
    (hevents : wait.events.drop i = some id :: events) :
    lookupEventById s.p id = none ∧
        s.initEventWaiters w i (some id :: events) = (some .einval, s) ∨
      ∃ (ev : Event) (t : State), lookupEventById s.p id = some ev ∧ t.Starting w wait ∧
        wait.events.drop (i + 1) = events ∧
        s.initEventWaiters w i (some id :: events) = t.initEventWaiters w (i + 1) events ∧
        (∀ id', lookupEventById t.p id' =
          if id' = id then some { ev with signaled := ev.signaled && !ev.auto_reset }
          else lookupEventById s.p id') ∧
        (∀ x, t.waiters x =
          if x = (w, i) then ⟨some (id, ev.type), ev.signaled⟩ else s.waiters x) ∧
        t.waits = s.waits ∧ t.since = s.since ∧ ∀ g ∈ s.grants, g ∈ t.grants := by
  cases hev : lookupEventById s.p id with
  | none =>
    have hfail : s.initEventWaiterGetStatus (w, i) id = (some .einval, s) := by
      unfold State.initEventWaiterGetStatus
      rw [hev]
    exact .inl ⟨rfl, by rw [State.initEventWaiters, hfail]⟩
  | some ev =>
    obtain ⟨t, ht, hlookup, hwaiters, hwaits, -, hsince, hold, -⟩ :=
      @initEventWaiterGetStatus_spec s ev id (w, i) hev (h.inv.ids id ev hev)
    have hidx : wait.events[i]? = some (some id) := by
      rw [← Nat.add_zero i, ← List.getElem?_drop, hevents]
      rfl
    have hrest : wait.events.drop (i + 1) = events := by
      rw [← List.drop_drop, hevents]
      rfl
    refine .inr ⟨ev, t, rfl, h.initEventWaiterGetStatus hev hidx ht, hrest, ?_, hlookup, hwaiters,
      hwaits, hsince, hold⟩
    rw [State.initEventWaiters, ht]

/-- What the loop over the array keeps, whether it ends with an error or not. -/
theorem Starting.initEventWaiters (h : s.Starting w wait) {i : ℕ}
    (hevents : wait.events.drop i = events) :
    (s.initEventWaiters w i events).2.Starting w wait ∧
      (s.initEventWaiters w i events).2.since = s.since ∧
      (∀ w', (s.initEventWaiters w i events).2.waits w' = s.waits w') ∧
      ∀ g ∈ s.grants, g ∈ (s.initEventWaiters w i events).2.grants := by
  induction events generalizing s i with
  | nil => exact ⟨h, rfl, fun _ => rfl, fun _ hg => hg⟩
  | cons entry events ih =>
    cases entry with
    | none => exact ⟨h, rfl, fun _ => rfl, fun _ hg => hg⟩
    | some id =>
      rcases h.cons hevents with ⟨-, hfail⟩ |
        ⟨ev, t, -, ht, hrest, hnext, -, -, hwaits, hsince, hold⟩
      · rw [hfail]
        exact ⟨h, rfl, fun _ => rfl, fun _ hg => hg⟩
      · obtain ⟨hstart, hsince', hwaits', hold'⟩ := ih ht hrest
        rw [hnext]
        exact ⟨hstart, hsince'.trans hsince, fun w' => (hwaits' w').trans (congrFun hwaits w'),
          fun g hg => hold' g (hold g hg)⟩

/-- What is known stays known. -/
theorem known_iff {s t : State} {entry : Option ℕ} {id : ℕ} {ev ev' : Event}
    (hev : lookupEventById s.p id = some ev) (hlookup : ∀ id', lookupEventById t.p id' =
      if id' = id then some ev' else lookupEventById s.p id') :
    Known t.p entry ↔ Known s.p entry := by
  constructor
  · rintro ⟨id', ev'', rfl, h⟩
    rw [hlookup] at h
    split at h
    · rename_i heq
      exact ⟨id', ev, rfl, heq ▸ hev⟩
    · exact ⟨id', ev'', rfl, h⟩
  · rintro ⟨id', ev'', rfl, h⟩
    by_cases heq : id' = id
    · exact ⟨id', ev', rfl, by rw [hlookup, if_pos heq]⟩
    · exact ⟨id', ev'', rfl, by rw [hlookup, if_neg heq, h]⟩

/-- The loop ends with an error when an entry is not known. -/
theorem Starting.exists_not_known (h : s.Starting w wait) {i : ℕ} {e : Errno}
    (hevents : wait.events.drop i = events)
    (he : (s.initEventWaiters w i events).1 = some e) : ∃ entry ∈ events, ¬Known s.p entry := by
  induction events generalizing s i with
  | nil => cases he
  | cons entry events ih =>
    cases entry with
    | none =>
      refine ⟨none, List.mem_cons_self .., ?_⟩
      rintro ⟨id, ev, hnone, -⟩
      cases hnone
    | some id =>
      rcases h.cons hevents with ⟨hnone, -⟩ | ⟨ev, t, hev, ht, hrest, hnext, hlookup, -⟩
      · refine ⟨some id, List.mem_cons_self .., ?_⟩
        rintro ⟨id', ev, heq, hev⟩
        cases heq
        rw [hnone] at hev
        cases hev
      · rw [hnext] at he
        obtain ⟨entry, hmem, hentry⟩ := ih ht hrest he
        exact ⟨entry, List.mem_cons_of_mem _ hmem, fun hk => hentry ((known_iff hev hlookup).2 hk)⟩

/-- **A loop that takes no signal leaves the events as they are.** -/
theorem Starting.lookup_of_not_takes (h : s.Starting w wait) {i : ℕ}
    (hevents : wait.events.drop i = events) (htakes : ¬Takes s.p events) (id' : ℕ) :
    lookupEventById (s.initEventWaiters w i events).2.p id' = lookupEventById s.p id' := by
  induction events generalizing s i with
  | nil => rfl
  | cons entry events ih =>
    cases entry with
    | none => rfl
    | some id =>
      rcases h.cons hevents with ⟨-, hfail⟩ | ⟨ev, t, hev, ht, hrest, hnext, hlookup, -⟩
      · rw [hfail]
      · -- the event keeps its state, since it does not reset itself or is not signaled
        have hsame : ∀ id', lookupEventById t.p id' = lookupEventById s.p id' := by
          intro id'
          rw [hlookup]
          split
          · rename_i heq
            subst heq
            have hkeep : (ev.signaled && !ev.auto_reset) = ev.signaled := by
              cases hs : ev.signaled with
              | false => rfl
              | true =>
                cases ha : ev.auto_reset with
                | false => rfl
                | true =>
                  exact absurd ⟨[], id', events, ev, rfl, fun _ h => absurd h List.not_mem_nil,
                    hev, ha, hs⟩ htakes
            rw [hkeep, hev]
          · rfl
        rw [hnext, ih ht hrest, hsame]
        rintro ⟨A, id'', B, ev'', rfl, hA, hev'', ha, hs⟩
        refine htakes ⟨some id :: A, id'', B, ev'', rfl, fun entry hentry => ?_, ?_, ha, hs⟩
        · rcases List.mem_cons.1 hentry with rfl | hentry
          · exact ⟨id, ev, rfl, hev⟩
          · exact (known_iff hev hlookup).1 (hA entry hentry)
        · rw [← hsame]
          exact hev''

/-- The loop does not come back to a waiter. -/
theorem Starting.waiters_of_lt (h : s.Starting w wait) {i j : ℕ}
    (hevents : wait.events.drop i = events) (hj : j < i) :
    (s.initEventWaiters w i events).2.waiters (w, j) = s.waiters (w, j) := by
  induction events generalizing s i with
  | nil => rfl
  | cons entry events ih =>
    cases entry with
    | none => rfl
    | some id =>
      rcases h.cons hevents with ⟨-, hfail⟩ | ⟨ev, t, -, ht, hrest, hnext, -, hwaiters, -⟩
      · rw [hfail]
      · rw [hnext, ih ht hrest (Nat.lt_succ_of_lt hj), hwaiters, if_neg]
        intro heq
        exact absurd (Prod.mk.inj heq).2 hj.ne

/-- **The waiters after the loop**: a waiter points to its event and is activated only if the event
was signaled. -/
theorem Starting.waiters_initEventWaiters (h : s.Starting w wait) {i : ℕ}
    (hevents : wait.events.drop i = events) (hnone : (s.initEventWaiters w i events).1 = none) :
    ∀ j entry, events[j]? = some entry → ∃ id ev activated, entry = some id ∧
      lookupEventById s.p id = some ev ∧ (s.initEventWaiters w i events).2.waiters (w, i + j) =
        ⟨some (id, ev.type), activated⟩ ∧ (activated = true → ev.signaled = true) := by
  induction events generalizing s i with
  | nil => exact fun j entry hj => by simp at hj
  | cons entry events ih =>
    cases entry with
    | none => cases hnone
    | some id =>
      rcases h.cons hevents with ⟨-, hfail⟩ |
        ⟨ev, t, hev, ht, hrest, hnext, hlookup, hwaiters, -⟩
      · rw [hfail] at hnone
        cases hnone
      · rw [hnext] at hnone ⊢
        intro j entry hj
        cases j with
        | zero =>
          cases hj
          refine ⟨id, ev, ev.signaled, rfl, hev, ?_, fun hs => hs⟩
          exact (ht.waiters_of_lt hrest (Nat.lt_succ_self i)).trans
            ((hwaiters (w, i)).trans (if_pos rfl))
        | succ j =>
          obtain ⟨id', ev', activated, rfl, hev', hwaiter, hact⟩ := ih ht hrest hnone j entry hj
          have hsum : i + (j + 1) = i + 1 + j := by omega
          rw [hsum, hwaiter]
          rw [hlookup] at hev'
          split at hev'
          · rename_i heq
            subst heq
            cases hev'
            exact ⟨id', ev, activated, rfl, hev, rfl, fun ha =>
              (Bool.and_eq_true_iff.1 (hact ha)).1⟩
          · exact ⟨id', ev', activated, rfl, hev', rfl, hact⟩

/-- **All waiters are activated only by events that are listed once**, if they reset themselves. -/
theorem Starting.count_of_activated (h : s.Starting w wait) {i : ℕ}
    (hevents : wait.events.drop i = events) (hnone : (s.initEventWaiters w i events).1 = none)
    (hall : ∀ j < events.length,
      ((s.initEventWaiters w i events).2.waiters (w, i + j)).activated = true)
    {id' : ℕ} {ev' : Event} (hev' : lookupEventById s.p id' = some ev')
    (hauto : ev'.auto_reset = true) : events.count (some id') ≤ 1 := by
  induction events generalizing s i ev' with
  | nil => exact Nat.zero_le _
  | cons entry events ih =>
    cases entry with
    | none => cases hnone
    | some id =>
      rcases h.cons hevents with ⟨-, hfail⟩ |
        ⟨ev, t, hev, ht, hrest, hnext, hlookup, hwaiters, -⟩
      · rw [hfail] at hnone
        cases hnone
      · rw [hnext] at hnone hall
        have hall' : ∀ j < events.length,
            ((t.initEventWaiters w (i + 1) events).2.waiters (w, i + 1 + j)).activated = true := by
          intro j hj
          rw [Nat.add_assoc, Nat.add_comm 1 j]
          exact hall (j + 1) (Nat.succ_lt_succ hj)
        by_cases heq : id' = id
        · -- the signal was taken, and no later waiter finds it
          subst heq
          rw [hev] at hev'
          cases hev'
          have hnot : some id' ∉ events := by
            intro hmem
            obtain ⟨j, hj, hget⟩ := List.mem_iff_getElem.1 hmem
            obtain ⟨id'', ev'', activated, heq, hev'', hwaiter, hact⟩ :=
              ht.waiters_initEventWaiters hrest hnone j (some id') (by
                rw [List.getElem?_eq_getElem hj, hget])
            cases heq
            rw [hlookup, if_pos rfl] at hev''
            cases hev''
            have hactive := hall' j hj
            rw [hwaiter] at hactive
            have hsig := hact hactive
            simp [hauto] at hsig
          rw [List.count_cons, List.count_eq_zero.2 hnot]
          split <;> omega
        · rw [List.count_cons_of_ne (fun h => heq (Option.some.inj h).symm)]
          exact ih ht hrest hnone hall' (by rw [hlookup, if_neg heq, hev']) hauto

/-- What the loop of `test_event_condition` finds when it ends well. -/
theorem testEventCondition_loop {all : Bool} {num_events count : ℕ} {waiters : List Waiter}
    (h : testEventCondition.loop all num_events waiters count = .complete) :
    (all = false → (∃ waiter ∈ waiters, waiter.activated = true) ∨ count = num_events) ∧
      (all = true → count + waiters.length ≤ num_events →
        (∀ waiter ∈ waiters, waiter.activated = true) ∧ count + waiters.length = num_events) := by
  induction waiters generalizing count with
  | nil =>
    unfold testEventCondition.loop at h
    split at h
    · rename_i hcount
      exact ⟨fun _ => .inr hcount, fun _ _ => ⟨fun _ h => absurd h List.not_mem_nil, hcount⟩⟩
    · cases h
  | cons waiter waiters ih =>
    unfold testEventCondition.loop at h
    split at h
    · cases h
    rename_i hevent
    split at h
    · rename_i hactive
      refine ⟨fun _ => .inl ⟨waiter, List.mem_cons_self .., hactive⟩, fun hall hle => ?_⟩
      rw [if_neg (by simp [hall])] at h
      obtain ⟨-, hrest⟩ := ih h
      rw [List.length_cons] at hle ⊢
      obtain ⟨hrest, hsum⟩ := hrest hall (by omega)
      refine ⟨fun waiter' hmem => ?_, by omega⟩
      rcases List.mem_cons.1 hmem with rfl | hmem
      · exact hactive
      · exact hrest waiter' hmem
    · obtain ⟨hany, hrest⟩ := ih h
      refine ⟨fun hall => (hany hall).imp_left fun ⟨waiter', hmem, hact⟩ =>
        ⟨waiter', List.mem_cons_of_mem _ hmem, hact⟩, fun hall hle => ?_⟩
      rw [List.length_cons] at hle
      have hsum := (hrest hall (by omega)).2
      omega

/-- **A wait that finds its condition met has what it needs.** -/
theorem needs_of_check (h : s.check w wait = .complete) :
    wait.Needs fun i => (s.waiters (w, i)).activated = true := by
  unfold State.check testEventCondition at h
  obtain ⟨hany, hall⟩ := testEventCondition_loop h
  have hlen : (s.eventWaiters w wait.events.length).length = wait.events.length := by
    unfold State.eventWaiters
    rw [List.length_map, List.length_range]
  unfold Wait.Needs
  split
  · rename_i h
    intro i hi
    exact (hall h (Nat.zero_add _).le).1 _ (List.mem_map_of_mem (List.mem_range.2 hi))
  · rename_i h
    rcases hany (by simpa using h) with ⟨waiter, hmem, hact⟩ | hzero
    · obtain ⟨i, hi, rfl⟩ := List.mem_map.1 hmem
      exact .inr ⟨i, List.mem_range.1 hi, hact⟩
    · rw [hlen] at hzero
      exact .inl (List.eq_nil_of_length_eq_zero hzero.symm)

/-- **The data of a memory event cannot be written**: the call fails. -/
theorem Starting.fails_of_copy (h : s.Starting w wait) {fault : Bool} {e : Errno}
    (hinit : s.initEventWaiters w 0 wait.events = (none, t)) (hcheck : t.check w wait = .complete)
    (hcopy : copySignaledEventData fault (t.eventWaiters w wait.events.length) = some e) :
    Fails s.p fault wait.events wait.all := by
  have hnone : (s.initEventWaiters w 0 wait.events).1 = none := by rw [hinit]
  -- each waiter points to its event
  have hwaiters : ∀ i entry, wait.events[i]? = some entry → ∃ id ev activated, entry = some id ∧
      lookupEventById s.p id = some ev ∧ t.waiters (w, i) = ⟨some (id, ev.type), activated⟩ ∧
        (activated = true → ev.signaled = true) := by
    have hall := h.waiters_initEventWaiters List.drop_zero hnone
    rw [hinit] at hall
    intro i entry hi
    have hwaiter := hall i entry hi
    rw [Nat.zero_add] at hwaiter
    exact hwaiter
  unfold copySignaledEventData at hcopy
  split at hcopy
  swap
  · cases hcopy
  rename_i hif
  rw [Bool.and_eq_true, List.any_eq_true] at hif
  obtain ⟨hfault, waiter, hmem, hdata⟩ := hif
  rw [Bool.and_eq_true] at hdata
  refine .inr ⟨hfault, ?_, fun hall id ev hid hev => ?_⟩
  · obtain ⟨i, hi, rfl⟩ := List.mem_map.1 hmem
    have hlt := List.mem_range.1 hi
    obtain ⟨id, ev, activated, hentry, hev, hwaiter, hsig⟩ :=
      hwaiters i _ (List.getElem?_eq_getElem hlt)
    rw [hwaiter] at hdata
    refine ⟨id, ev, hentry ▸ List.getElem_mem hlt, hev, ?_, hsig hdata.1⟩
    simpa using hdata.2
  · have hneeds := needs_of_check hcheck
    unfold Wait.Needs at hneeds
    rw [if_pos hall] at hneeds
    constructor
    · obtain ⟨i, hlt, hget⟩ := List.mem_iff_getElem.1 hid
      obtain ⟨id', ev', activated, hentry, hev', hwaiter, hsig⟩ :=
        hwaiters i (some id) (by rw [List.getElem?_eq_getElem hlt, hget])
      cases hentry
      rw [hev] at hev'
      cases hev'
      have hact : (t.waiters (w, i)).activated = true := hneeds i hlt
      rw [hwaiter] at hact
      exact hsig hact
    · intro hauto
      have hle := h.count_of_activated List.drop_zero hnone (fun i hi => by
        rw [hinit, Nat.zero_add]
        exact hneeds i hi) hev hauto
      have hpos := List.count_pos_iff.2 hid
      omega

/-- **A waiter joins the queue of its event.** -/
theorem Inv.initEventWaiterAddToWaitlist (h : s.Inv) (hwait : s.waits x.1 = some wait)
    (hphase : wait.phase = .waiting) (hpointed : ∀ id type,
      (s.waiters x).event = some (id, type) → wait.events[x.2]? = some (some id)) :
    (s.initEventWaiterAddToWaitlist x).Inv := by
  unfold State.initEventWaiterAddToWaitlist
  cases hevent : (s.waiters x).event with
  | none => exact h
  | some e =>
    obtain ⟨id, type⟩ := e
    dsimp only
    cases hev : lookupEventById s.p id with
    | none => exact h
    | some ev =>
      dsimp only
      split
      · exact h
      have heq := h.ids id ev hev
      subst heq
      refine ⟨fun id' ev' h' => ?_, fun id' ev' h' y hy => ?_, fun id' n hn => ?_,
        fun id' ev' h' hs => ?_, h.before, h.once, h.activated, h.done⟩
      · rw [lookup_put] at h'
        split at h'
        · rename_i hid
          cases h'
          exact hid.symm
        · exact h.ids id' ev' h'
      · rw [lookup_put] at h'
        split at h'
        · rename_i hid
          subst hid
          cases h'
          rcases List.mem_cons.1 hy with rfl | hy
          · refine ⟨wait, hwait, fun ret wait_result => ?_, hpointed _ _ hevent, type, hevent⟩
            rw [hphase]
            exact fun h => nomatch h
          · exact h.queued _ ev hev y hy
        · exact h.queued id' ev' h' y hy
      · rw [lookup_put]
        split
        · exact ⟨_, rfl⟩
        · exact h.since_live id' n hn
      · rw [lookup_put] at h'
        split at h'
        · rename_i hid
          subst hid
          cases h'
          exact h.signaled _ ev hev hs
        · exact h.signaled id' ev' h' hs

/-- Joining a queue changes nothing but the queue. -/
theorem lookup_initEventWaiterAddToWaitlist (h : s.Inv)
    (hev : lookupEventById (s.initEventWaiterAddToWaitlist x).p id = some ev) :
    ∃ ev', lookupEventById s.p id = some ev' ∧ ev'.auto_reset = ev.auto_reset ∧
      ev'.signaled = ev.signaled := by
  unfold State.initEventWaiterAddToWaitlist at hev
  split at hev
  · split at hev
    · rename_i id' _ _ _ ev' hev'
      split at hev
      · exact ⟨ev, hev, rfl, rfl⟩
      · have heq := h.ids id' ev' hev'
        rw [lookup_put] at hev
        split at hev
        · rename_i hid
          cases hev
          refine ⟨ev', ?_, rfl, rfl⟩
          rw [hid, heq]
          exact hev'
        · exact ⟨ev, hev, rfl, rfl⟩
    · exact ⟨ev, hev, rfl, rfl⟩
  · exact ⟨ev, hev, rfl, rfl⟩

/-- What joining a queue leaves alone. -/
theorem frame_initEventWaiterAddToWaitlist :
    (s.initEventWaiterAddToWaitlist x).waiters = s.waiters ∧
    (s.initEventWaiterAddToWaitlist x).waits = s.waits ∧
    (s.initEventWaiterAddToWaitlist x).since = s.since ∧
    (s.initEventWaiterAddToWaitlist x).grants = s.grants := by
  unfold State.initEventWaiterAddToWaitlist
  split
  · split
    · split
      · exact ⟨rfl, rfl, rfl, rfl⟩
      · exact ⟨rfl, rfl, rfl, rfl⟩
    · exact ⟨rfl, rfl, rfl, rfl⟩
  · exact ⟨rfl, rfl, rfl, rfl⟩

theorem NoneLost.initEventWaiterAddToWaitlist (h : s.NoneLost) (hs : s.Inv) :
    (s.initEventWaiterAddToWaitlist x).NoneLost := by
  obtain ⟨-, hwaits, hsince, hgrants⟩ := @frame_initEventWaiterAddToWaitlist s x
  intro id ev n hev hauto hn
  obtain ⟨ev', hev', hauto', hsig⟩ := lookup_initEventWaiterAddToWaitlist hs hev
  rw [hsince] at hn
  rw [← hsig, hgrants]
  refine (h id ev' n hev' (hauto'.trans hauto) hn).imp_right ?_
  rintro ⟨g, hg, hgid, hgn, wait, hwait, hphase⟩
  exact ⟨g, hg, hgid, hgn, wait, hwaits ▸ hwait, hphase⟩

/-- **The waiters join their queues.** -/
theorem foldl_waitlist (h : s.Inv) (hn : s.NoneLost) (hwait : s.waits w = some wait)
    (hphase : wait.phase = .waiting) (hpointed : ∀ i id type,
      (s.waiters (w, i)).event = some (id, type) → wait.events[i]? = some (some id))
    (l : List ℕ) :
    (l.foldl (fun s i => s.initEventWaiterAddToWaitlist (w, i)) s).Inv ∧
      (l.foldl (fun s i => s.initEventWaiterAddToWaitlist (w, i)) s).NoneLost := by
  induction l generalizing s with
  | nil => exact ⟨h, hn⟩
  | cons i l ih =>
    obtain ⟨hwaiters, hwaits, -, -⟩ := @frame_initEventWaiterAddToWaitlist s (w, i)
    exact ih (h.initEventWaiterAddToWaitlist hwait hphase (hpointed i))
      (hn.initEventWaiterAddToWaitlist h) (hwaits ▸ hwait) (hwaiters ▸ hpointed)

/-- A call that fails takes no signal: the signals are where they were. -/
theorem NoneLost.of_failed (h : s.NoneLost) (hnone : s.waits w = none)
    (hlookup : ∀ id ev, lookupEventById t.p id = some ev →
      ∃ ev', lookupEventById s.p id = some ev' ∧ ev'.auto_reset = ev.auto_reset ∧
        ev'.signaled = ev.signaled)
    (hsince : t.since = s.since) (hgrants : ∀ g ∈ s.grants, g ∈ t.grants)
    (hwaits : ∀ w', w' ≠ w → t.waits w' = s.waits w') : t.NoneLost := by
  intro id ev n hev hauto hn
  obtain ⟨ev', hev', hauto', hsig⟩ := hlookup id ev hev
  rw [hsince] at hn
  rw [← hsig]
  refine (h id ev' n hev' (hauto'.trans hauto) hn).imp_right ?_
  rintro ⟨g, hg, hgid, hgn, wait, hwait, hphase⟩
  refine ⟨g, hgrants g hg, hgid, hgn, wait, ?_, hphase⟩
  rw [hwaits _ fun heq => ?_, hwait]
  rw [heq, hnone] at hwait
  cases hwait

/-- What is behind the label `out` ends the wait, and keeps a success. -/
theorem waitReturn_spec {ret : Option Errno} {wait_result : WaitResult} : ∃ ret' wait_result',
    waitReturn ret wait_result = .returned ret' wait_result' ∧
      (ret' = none ∧ wait_result' = .complete ↔ ret = none ∧ wait_result = .complete) := by
  cases ret <;> cases wait_result <;> exact ⟨_, _, rfl, by simp⟩

theorem hopeful_iff {ret : Option Errno} {wait_result : WaitResult} :
    (Phase.leaving ret wait_result).hopeful = true ↔ ret = none ∧ wait_result = .complete := by
  unfold Phase.hopeful
  simp

/-- A wait that no longer holds the mutex returns. -/
theorem Inv.returns (h : s.Inv) (hwait : s.waits w = some wait) {ret : Option Errno}
    {wait_result : WaitResult} (hneeds : ret = none → wait_result = .complete →
      wait.Needs fun i => (s.waiters (w, i)).activated = true) :
    ((s.freeWaiters w wait.events.length).setPhase w (waitReturn ret wait_result)).Inv := by
  obtain ⟨ret', wait_result', heq, hiff⟩ := @waitReturn_spec ret wait_result
  rw [heq]
  refine h.freeWaiters.setPhase hwait (fun hphase => ?_) fun _ _ _ id ev hev x hx =>
    h.not_queued_freeWaiters hwait hev hx
  rcases hphase with hphase | hphase
  · cases hphase
  · cases hphase
    obtain ⟨hret, hresult⟩ := hiff.1 ⟨rfl, rfl⟩
    exact hneeds hret hresult

theorem NoneLost.returns (h : s.NoneLost) (hwait : s.waits w = some wait) {n : ℕ}
    {ret : Option Errno} {wait_result : WaitResult}
    (hok : (Phase.leaving ret wait_result).hopeful = true ∨ (s.freeWaiters w n).HoldsNoneAlone w) :
    ((s.freeWaiters w n).setPhase w (waitReturn ret wait_result)).NoneLost := by
  refine h.freeWaiters.setPhase hwait (hok.imp_left fun hhope => ?_)
  obtain ⟨ret', wait_result', heq, hiff⟩ := @waitReturn_spec ret wait_result
  obtain ⟨rfl, rfl⟩ := hiff.2 (hopeful_iff.1 hhope)
  rw [heq]
  rfl

/-- Nothing of a wait is there before it starts. -/
theorem Inv.free_of_none (h : s.Inv) (hnone : s.waits w = none)
    (hev : lookupEventById s.p id = some ev) (hx : x ∈ ev.wq) : x.1 ≠ w := by
  obtain ⟨wait, hwait, -⟩ := h.queued id ev hev x hx
  intro heq
  rw [heq, hnone] at hwait
  cases hwait

/-- The start of a call of a wait. -/
theorem Inv.starting (h : s.Inv) (hn : s.NoneLost) (hnone : s.waits w = none) {all : Bool}
    {user_timeout_ms : ℕ} : Starting { s with
      waits := Function.update s.waits w (some { events, all, user_timeout_ms })
      waiters := fun x => if x.1 = w then {} else s.waiters x } w
        { events, all, user_timeout_ms } where
  inv := h.start hnone rfl (fun x hx => if_neg hx) fun x hx => by rw [if_pos hx]
  none_lost := hn.of_failed hnone (fun id ev hev => ⟨ev, hev, rfl, rfl⟩) rfl (fun _ hg => hg)
    fun w' hne => by
      dsimp only
      rw [Function.update_apply, if_neg hne]
  listed := Function.update_self ..
  phase := rfl
  pointed i id type htype := by
    dsimp only at htype
    rw [if_pos rfl] at htype
    cases htype
  free _ _ hev _ hx := h.free_of_none hnone hev hx

/-- `test_event_condition` fails only when a waiter has lost its event. -/
theorem exists_event_eq_none_of_fail {all : Bool} {num_events count : ℕ} {waiters : List Waiter}
    (h : testEventCondition.loop all num_events waiters count = .fail) :
    ∃ waiter ∈ waiters, waiter.event = none := by
  induction waiters generalizing count with
  | nil =>
    unfold testEventCondition.loop at h
    split at h <;> cases h
  | cons waiter waiters ih =>
    unfold testEventCondition.loop at h
    split at h
    · rename_i hnone
      exact ⟨waiter, List.mem_cons_self .., Option.isNone_iff_eq_none.1 hnone⟩
    · have hrest : ∃ count, testEventCondition.loop all num_events waiters count = .fail := by
        split at h
        · split at h
          · cases h
          · exact ⟨_, h⟩
        · exact ⟨_, h⟩
      obtain ⟨count, hrest⟩ := hrest
      obtain ⟨waiter', hmem, hnone⟩ := ih hrest
      exact ⟨waiter', List.mem_cons_of_mem _ hmem, hnone⟩

/-- **The first part of a wait** keeps the invariant, and loses no signal if it takes none when it
fails. -/
theorem Inv.opuWaitOnEvents (h : s.Inv) (hn : s.NoneLost) (hnone : s.waits w = none)
    {mem fault all : Bool} {user_timeout_ms : ℕ}
    (hok : mem = true → Fails s.p fault events all → ¬Takes s.p events) :
    (s.opuWaitOnEvents mem fault w events all user_timeout_ms).Inv ∧
      (s.opuWaitOnEvents mem fault w events all user_timeout_ms).NoneLost := by
  have hother : ∀ w', w' ≠ w → ∀ {wait : Wait},
      Function.update s.waits w (some wait) w' = s.waits w' := fun w' hne wait => by
    rw [Function.update_apply, if_neg hne]
  unfold State.opuWaitOnEvents
  dsimp only
  cases mem with
  | false =>
    rw [if_pos (by decide)]
    have hclear : ∀ x, x.1 = w → (s.waiters x).activated = false := by
      intro x hx
      rw [Bool.eq_false_iff]
      intro hact
      obtain ⟨wait, hwait, -⟩ := h.activated x hact
      rw [hx, hnone] at hwait
      cases hwait
    constructor
    · refine (@Inv.start s w { events, all, user_timeout_ms } h hnone rfl s.waiters
        (fun _ _ => rfl) hclear).setPhase (Function.update_self ..) (fun hphase => ?_)
        fun _ _ _ id ev hev x hx => h.free_of_none hnone hev hx
      rcases hphase with hphase | hphase <;> cases hphase
    · refine hn.of_failed hnone (fun id ev hev => ⟨ev, hev, rfl, rfl⟩) rfl (fun _ hg => hg)
        fun w' hne => ?_
      unfold State.setPhase
      dsimp only
      rw [Function.update_apply, if_neg hne, hother w' hne]
  | true =>
    rw [if_neg (by decide)]
    have hstart := @Inv.starting s w events h hn hnone all user_timeout_ms
    obtain ⟨ht, hsince, hwaits, hgrants⟩ := hstart.initEventWaiters List.drop_zero
    have herror := fun e => @Starting.exists_not_known _ _ _ _ hstart 0 e List.drop_zero
    have hlookup := hstart.lookup_of_not_takes (i := 0) List.drop_zero
    have hpoints := hstart.waiters_initEventWaiters (i := 0) List.drop_zero
    have hcopies := fun t e => @Starting.fails_of_copy _ t w _ hstart fault e
    dsimp only at ht hsince hwaits hgrants herror hlookup hpoints hcopies
    cases hinit : State.initEventWaiters { s with
        waits := Function.update s.waits w (some { events, all, user_timeout_ms })
        waiters := fun x => if x.1 = w then {} else s.waiters x } w 0 events with
    | mk e t =>
      rw [hinit] at ht hsince hwaits hgrants herror hlookup hpoints
      -- a call that fails has taken no signal
      have hfailed : Fails s.p fault events all → ∀ phase,
          ((t.freeWaiters w events.length).setPhase w phase).NoneLost := by
        intro hfails phase
        refine hn.of_failed hnone (fun id ev hev => ?_) hsince hgrants fun w' hne => ?_
        · obtain ⟨ev', hev', rfl⟩ := lookup_freeWaiters hev
          exact ⟨ev', (hlookup (hok rfl hfails) id).symm.trans hev', rfl, rfl⟩
        · unfold State.setPhase
          dsimp only
          rw [Function.update_apply, if_neg hne]
          exact (hwaits w').trans (hother w' hne)
      cases e with
      | some e =>
        exact ⟨ht.inv.returns ht.listed fun h => (nomatch h), hfailed (.inl (herror e rfl)) _⟩
      | none =>
        dsimp only
        cases hcheck : testEventCondition all (t.eventWaiters w events.length) with
        | complete =>
          refine ⟨ht.inv.returns ht.listed fun _ _ => needs_of_check hcheck, ?_⟩
          cases hcopy : copySignaledEventData fault (t.eventWaiters w events.length) with
          | none => exact ht.none_lost.returns ht.listed (.inl rfl)
          | some e => exact hfailed (hcopies t e hinit hcheck hcopy) _
        | fail =>
          -- the waiters have just been given their events
          obtain ⟨waiter, hmem, hevent⟩ := exists_event_eq_none_of_fail hcheck
          obtain ⟨i, hi, rfl⟩ := List.mem_map.1 hmem
          obtain ⟨id, ev, activated, -, -, hwaiter, -⟩ :=
            hpoints rfl i _ (List.getElem?_eq_getElem (List.mem_range.1 hi))
          rw [Nat.zero_add] at hwaiter
          rw [hwaiter] at hevent
          cases hevent
        | timeout =>
          exact foldl_waitlist ht.inv ht.none_lost ht.listed rfl ht.pointed _

end

end State

end Codrive.Events
