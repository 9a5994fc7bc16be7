/-
# The ways to copy

`CopyHostToDevice` and `CopyDeviceToHost` have the effect of waiting for the dependency and then one
`memcpy` (`CopyOk`) with a `memcpy`, with staging buffers where these copy as they should, and in
place if there is a signal to wait for and the user's buffer can be locked, which no empty one can.
A mode that chooses no way to copy at all returns at once, without waiting.  These are all the cases
(`copy_ok_iff`).
-/

import Codrive.UnpinnedCopy.StagingSpec

namespace Codrive.UnpinnedCopy

open Codrive.Basis

variable {e : UnpinnedCopyEngine} {c : Call} {s t : State} {mem : Buffer → ℕ → UInt8}
  {locked : Bool}

/-! ### The purpose -/

/-- What holds all along a copy: it waits for the dependency, it touches nothing past the size, and
when it has returned, the effect is that of one `memcpy` and the user's buffer is locked as it
was. -/
structure CopyState (c : Call) (mem : Buffer → ℕ → UInt8) (locked : Bool) (s : State) : Prop where
  waits : s.resolved = false →
    s.pc ≠ .returned ∧ s.dev.mem = mem ∧ s.dev.running = [] ∧ s.locked = locked
  within : s.dev.extent .src ≤ c.sizeBytes ∧ s.dev.extent .dst ≤ c.sizeBytes
  result : s.pc = .returned → s.dev.running = [] ∧ s.locked = locked ∧
    s.dev.mem .src = mem .src ∧
      ∀ x, s.dev.mem .dst x = if x < c.sizeBytes then mem .src x else mem .dst x

/-- A call has the effect of waiting and one `memcpy`. -/
def CopyOk (e : UnpinnedCopyEngine) (c : Call) (mem : Buffer → ℕ → UInt8) (signal : Signal → ℤ)
    (waiting locked : Bool) : Prop :=
  Completes e c (start c mem signal waiting locked) (CopyState c mem locked)

/-- `CopyHostToDevice`, of a buffer that is locked or not. -/
def hostToDevice (e : UnpinnedCopyEngine) (copyMode : CopyMode) (sizeBytes : ℕ)
    (lockable locked : Bool) : Call where
  path := .hostToDevice
  method := chooseHostToDevice e copyMode locked sizeBytes
  sizeBytes := sizeBytes
  lockable := lockable

/-- `CopyDeviceToHost`, into a buffer that is locked or not. -/
def deviceToHost (e : UnpinnedCopyEngine) (copyMode : CopyMode) (sizeBytes : ℕ)
    (lockable locked : Bool) : Call where
  path := .deviceToHost
  method := chooseDeviceToHost e copyMode locked sizeBytes
  sizeBytes := sizeBytes
  lockable := lockable

/-! ### Waiting -/

/-- Before the dependency is resolved, nothing has happened. -/
def Waits (mem : Buffer → ℕ → UInt8) (locked : Bool) (s : State) : Prop :=
  s.resolved = false → s.pc = .waitFor ∧ (∃ signal, s.dev = idle mem signal) ∧ s.locked = locked

/-- The host only reads the dependency. -/
theorem resolved_of_hostStep (h : hostStep e c s = some t) : t.resolved = s.resolved := by
  unfold hostStep at h
  split at h
  all_goals
    repeat' split at h
    all_goals cases h <;> rfl

/-- **A step** of the host is taken when the dependency is resolved. -/
theorem Waits.step (hs : Waits mem locked s) {who : Who} (h : Step e c s who t) :
    Waits mem locked t := by
  intro hr
  cases h with
  | host h =>
    have hresolved := resolved_of_hostStep h
    obtain ⟨hpc, -⟩ := hs (hresolved ▸ hr)
    rw [hresolved] at hr
    simp [hostStep, hpc, hr] at h
  | device h =>
    obtain ⟨-, ⟨signal, hdev⟩, -⟩ := hs hr
    rw [hdev] at h
    exact absurd rfl h.running_ne_nil
  | dependency h => cases hr

theorem Waits.start (hmethod : c.method ≠ none) (mem : Buffer → ℕ → UInt8) (signal : Signal → ℤ)
    (waiting locked : Bool) : Waits mem locked (start c mem signal waiting locked) := fun _ =>
  ⟨if_neg hmethod, ⟨signal, rfl⟩, rfl⟩

/-- Only the pinning functions lock and unlock. -/
theorem locked_of_step (hlock : s.pc ≠ .lock) (hunlock : s.pc ≠ .unlock) {who : Who}
    (h : Step e c s who t) : t.locked = s.locked := by
  cases h with
  | device h => rfl
  | dependency h => rfl
  | host h =>
    unfold hostStep at h
    split at h
    all_goals
      repeat' split at h
      all_goals cases h <;> first | rfl | contradiction

/-- A copy that has the effect so far, and has its dependency behind it if it has done
something. -/
theorem Waits.copyState (hs : Waits mem locked s)
    (hwithin : s.dev.extent .src ≤ c.sizeBytes ∧ s.dev.extent .dst ≤ c.sizeBytes)
    (hresult : s.pc = .returned → s.dev.running = [] ∧ s.locked = locked ∧
      s.dev.mem .src = mem .src ∧
        ∀ x, s.dev.mem .dst x = if x < c.sizeBytes then mem .src x else mem .dst x) :
    CopyState c mem locked s := by
  refine ⟨fun hr => ?_, hwithin, hresult⟩
  obtain ⟨hpc, ⟨signal, hdev⟩, hlocked⟩ := hs hr
  rw [hdev, hpc]
  exact ⟨nofun, rfl, rfl, hlocked⟩

/-! ### Through staging buffers -/

/-- The staging buffers can be used. -/
def Stageable (bufferSize : ℕ) (numBuffers : ℤ) (path : Path) (sizeBytes : ℕ) : Prop :=
  sizeBytes = 0 ∨ 0 < numBuffers ∧ 0 < bufferSize ∧ Stops path sizeBytes bufferSize

/-- **A staged copy** has the effect exactly if the staging buffers can be used. -/
theorem copyOk_staging_iff (hmethod : c.method = some .staging) (hsize : c.sizeBytes < 2 ^ 63)
    (hbuffer : e.bufferSize < 2 ^ 64) (mem : Buffer → ℕ → UInt8) (signal : Signal → ℤ)
    (waiting locked : Bool) : CopyOk e c mem signal waiting locked ↔
      Stageable e.bufferSize e.numBuffers c.path c.sizeBytes := by
  have hne : c.method ≠ none := by rw [hmethod]; nofun
  constructor
  · intro hok
    obtain ⟨ops, t, hrun, hpc⟩ := hok.exists_returned
    have htracked : Tracked e c t := hrun.inv (fun s who t hs h => hs.step hmethod hsize h)
      (Tracked.start hmethod signal waiting locked)
    exact htracked.stops hsize hbuffer hpc (hok.holds ops t hrun).within.2
  · intro h
    have h0 : Waits mem locked (start c mem signal waiting locked) ∧
        (start c mem signal waiting locked).locked = locked :=
      ⟨Waits.start hne mem signal waiting locked, rfl⟩
    by_cases hzero : c.sizeBytes = 0
    · refine completes_of_nothing hmethod hzero mem signal waiting locked
        (I := fun s => Waits mem locked s ∧ s.locked = locked) h0
        (fun s who t hs hI hst => ⟨hI.1.step hst, ?_⟩) fun s hs hI => ?_
      · refine (locked_of_step ?_ ?_ hst).trans hI.2 <;>
          obtain hp | ⟨hp, -⟩ | hp | ⟨i, hp, -⟩ | hp := hs.place <;> rw [hp] <;> nofun
      · have hstate := hs.stagedState hzero
        refine hI.1.copyState ⟨hstate.within.1, hstate.within.2.1⟩ fun hpc => ?_
        refine ⟨(hstate.copied hpc).1, hI.2, hstate.untouched.1, fun x => ?_⟩
        rw [if_neg (by omega)]
        exact hstate.untouched.2 x (by omega)
    · obtain ⟨hbuffers, hpos, hstops⟩ := h.resolve_left hzero
      obtain ⟨j, hj, rfl⟩ := exists_fits hmethod hsize hbuffer hbuffers hpos hstops mem
      refine completes_of_fits hj signal waiting locked
        (I := fun s => Waits j.mem locked s ∧ s.locked = locked) h0
        (fun s who t hs hI hst => ⟨hI.1.step hst, ?_⟩) fun s hs hI => ?_
      · exact (locked_of_step hs.staged.1 hs.staged.2 hst).trans hI.2
      · have hstate := hs.stagedState hj
        refine hI.1.copyState ⟨hstate.within.1, hstate.within.2.1⟩ fun hpc => ?_
        obtain ⟨hrunning, hcopied⟩ := hstate.copied hpc
        refine ⟨hrunning, hI.2, hstate.untouched.1, fun x => ?_⟩
        split
        · rename_i hx
          exact hcopied x hx
        · rename_i hx
          exact hstate.untouched.2 x (by omega)

/-! ### By the host -/

/-- Both of the user's buffers are touched up to the size. -/
theorem touch_whole (size : ℕ) :
    CopyDevice.touch (CopyDevice.touch (fun _ : Buffer => 0) (.src, 0) size) (.dst, 0) size .src ≤
        size ∧
      CopyDevice.touch (CopyDevice.touch (fun _ : Buffer => 0) (.src, 0) size) (.dst, 0) size .dst ≤
        size := by
  simp [CopyDevice.touch]

/-- **A copy by the host** has the effect. -/
theorem copyOk_memcpy (hmethod : c.method = some .memcpy) (mem : Buffer → ℕ → UInt8)
    (signal : Signal → ℤ) (waiting locked : Bool) : CopyOk e c mem signal waiting locked := by
  have hne : c.method ≠ none := by rw [hmethod]; nofun
  refine Completes.of_inv (I := fun s => Waits mem locked s ∧ s.locked = locked ∧
      ((s.pc = .waitFor ∨ s.pc = .memcpy) ∧ s.dev = idle mem signal ∨
        s.pc = .returned ∧
          s.dev = (idle mem signal).memcpy (.dst, 0) (.src, 0) c.sizeBytes))
    (μ := fun s => (if s.pc = .waitFor then 2 else if s.pc = .memcpy then 1 else 0) +
      if s.resolved then 0 else 1)
    ⟨Waits.start hne mem signal waiting locked, rfl, .inl ⟨.inl (if_neg hne), rfl⟩⟩ ?_ ?_ ?_
  · rintro s who t ⟨hwaits, hlocked, hs⟩ h
    have hwaits' := hwaits.step h
    cases h with
    | device h =>
      obtain ⟨-, hdev⟩ | ⟨-, hdev⟩ := hs <;> rw [hdev] at h <;> exact absurd rfl h.running_ne_nil
    | dependency h => exact ⟨⟨hwaits', hlocked, hs⟩, by simp [h]⟩
    | host h =>
      obtain ⟨hpc | hpc, hdev⟩ | ⟨hpc, hdev⟩ := hs <;> simp only [hostStep, hpc] at h
      · split at h
        · obtain rfl := Option.some.inj h
          have hentry : c.entry = .memcpy := by rw [Call.entry, hmethod]
          refine ⟨⟨hwaits', hlocked, .inl ⟨.inr hentry, ?_⟩⟩, ?_⟩
          · simp only
            exact hdev
          · simp [hpc, hentry]
        · cases h
      · obtain rfl := Option.some.inj h
        refine ⟨⟨hwaits', hlocked, .inr ⟨rfl, ?_⟩⟩, ?_⟩
        · simp only [hdev]
        · simp [hpc]
      · cases h
  · rintro s ⟨-, -, hs⟩ hpc'
    obtain ⟨hpc | hpc, hdev⟩ | ⟨hpc, hdev⟩ := hs
    · cases hr : s.resolved with
      | false => exact ⟨.dependency, _, .dependency hr⟩
      | true => exact exists_step_of_host (by simp [hostStep, hpc, hr])
    · exact exists_step_of_host (by simp [hostStep, hpc])
    · exact absurd hpc hpc'
  · rintro s ⟨hwaits, hlocked, hs⟩
    obtain ⟨hpc, hdev⟩ | ⟨hpc, hdev⟩ := hs
    · refine hwaits.copyState (by rw [hdev]; exact ⟨Nat.zero_le _, Nat.zero_le _⟩) fun hpc' => ?_
      rw [hpc'] at hpc
      obtain hpc | hpc := hpc <;> cases hpc
    · refine hwaits.copyState ?_ fun _ => ?_
      · rw [hdev]
        exact touch_whole c.sizeBytes
      · rw [hdev]
        refine ⟨rfl, hlocked, ?_, fun x => ?_⟩
        · funext x
          simp [CopyDevice.memcpy, idle]
        · simp [CopyDevice.memcpy, idle]

/-! ### In place -/

/-- A copy in place can be made. -/
def Pinnable (numBuffers : ℤ) (lockable : Bool) (sizeBytes : ℕ) : Prop :=
  0 < numBuffers ∧ lockable = true ∧ sizeBytes ≠ 0

/-- Where the host is in a copy in place, and what holds there. -/
inductive PinStage (c : Call) (mem : Buffer → ℕ → UInt8) (s : State) : Prop
  | before (hpc : s.pc = .waitFor ∨ s.pc = .lock) (hdev : ∃ signal, s.dev = idle mem signal)
      (hlocked : s.locked = false)
  | running (todo : Finset ℕ) (hpc : s.pc = .unlock)
      (hrunning : s.dev.running =
        [⟨(.dst, 0), (.src, 0), c.sizeBytes, none, .completion 0, todo⟩])
      (hsignal : s.dev.signal (.completion 0) = 1) (htodo : ∀ i ∈ todo, i < c.sizeBytes)
      (hsrc : s.dev.mem .src = mem .src)
      (hdst : ∀ x, s.dev.mem .dst x =
        if x < c.sizeBytes ∧ x ∉ todo then mem .src x else mem .dst x)
      (hwithin : s.dev.extent .src ≤ c.sizeBytes ∧ s.dev.extent .dst ≤ c.sizeBytes)
  | done (hpc : s.pc = .unlock ∧ s.dev.signal (.completion 0) = 0 ∨
        s.pc = .returned ∧ s.locked = false)
      (hrunning : s.dev.running = []) (hsrc : s.dev.mem .src = mem .src)
      (hdst : ∀ x, s.dev.mem .dst x = if x < c.sizeBytes then mem .src x else mem .dst x)
      (hwithin : s.dev.extent .src ≤ c.sizeBytes ∧ s.dev.extent .dst ≤ c.sizeBytes)

/-- What the place of the host counts for. -/
def Pc.pinWeight (size : ℕ) : Pc → ℕ
  | .waitFor => size + 5
  | .lock => size + 4
  | .unlock => 1
  | _ => 0

theorem eq_of_singleton_eq {α : Type} {a b : α} {front back : List α}
    (h : [a] = front ++ b :: back) : front = [] ∧ b = a ∧ back = [] := by
  cases front with
  | nil =>
    obtain ⟨rfl, rfl⟩ := List.cons.inj h
    exact ⟨rfl, rfl, rfl⟩
  | cons x front =>
    have := congrArg List.length h
    simp at this

/-- **A step** of a copy in place. -/
theorem PinStage.step (hmethod : c.method = some .pinInPlace)
    (hpin : Pinnable e.numBuffers c.lockable c.sizeBytes) (hs : PinStage c mem s) {who : Who}
    (h : Step e c s who t) : PinStage c mem t ∧
      (t.pc.pinWeight c.sizeBytes + t.dev.work) + (if t.resolved then 0 else 1) <
        (s.pc.pinWeight c.sizeBytes + s.dev.work) + if s.resolved then 0 else 1 := by
  obtain ⟨hn, hlockable, hsize⟩ := hpin
  cases h with
  | dependency h =>
    refine ⟨?_, by simp [h]⟩
    cases hs with
    | before hpc hdev hlocked => exact .before hpc hdev hlocked
    | running todo hpc hrunning hsignal htodo hsrc hdst hwithin =>
      exact .running todo hpc hrunning hsignal htodo hsrc hdst hwithin
    | done hpc hrunning hsrc hdst hwithin => exact .done hpc hrunning hsrc hdst hwithin
  | device h =>
    have hwork := h.work_lt
    refine ⟨?_, by simp only; omega⟩
    cases hs with
    | before hpc hdev hlocked =>
      obtain ⟨signal, hdev⟩ := hdev
      rw [hdev] at h
      exact absurd rfl h.running_ne_nil
    | done hpc hrunning hsrc hdst hwithin => exact absurd hrunning h.running_ne_nil
    | running todo hpc hrunning hsignal htodo hsrc hdst hwithin =>
      cases h with
      | start hrunning' hdep hzero =>
        obtain ⟨rfl, rfl, rfl⟩ := eq_of_singleton_eq (hrunning.symm.trans hrunning')
        cases hdep
      | @move front back c' i hrunning' hdep hi =>
        obtain ⟨rfl, rfl, rfl⟩ := eq_of_singleton_eq (hrunning.symm.trans hrunning')
        refine .running (todo.erase i) hpc rfl hsignal
          (fun k hk => htodo k (Finset.mem_of_mem_erase hk)) ?_ (fun x => ?_) hwithin
        · simp only [ne_eq, reduceCtorEq, not_false_eq_true, Function.update_of_ne]
          exact hsrc
        · simp only [Function.update_self, Nat.zero_add, hsrc]
          by_cases hx : x = i
          · subst hx
            rw [Function.update_self, if_pos ⟨htodo x hi, Finset.notMem_erase x todo⟩]
          · rw [Function.update_of_ne hx, hdst]
            simp [hx]
      | finish hrunning' hdep htodo' =>
        obtain ⟨rfl, rfl, rfl⟩ := eq_of_singleton_eq (hrunning.symm.trans hrunning')
        obtain rfl : todo = ∅ := htodo'
        refine .done (.inl ⟨hpc, ?_⟩) rfl hsrc (fun x => ?_) hwithin
        · simp only [Function.update_self, hsignal, Int.sub_self]
        · rw [hdst]
          simp
  | host h =>
    cases hs with
    | before hpc hdev hlocked =>
      obtain ⟨signal, hdev⟩ := hdev
      obtain hpc | hpc := hpc
      · simp only [hostStep, hpc] at h
        split at h
        · obtain rfl := Option.some.inj h
          have hentry : c.entry = .lock := by rw [Call.entry, hmethod]
          refine ⟨.before (.inr hentry) ⟨resetSignals e c.path signal, ?_⟩ hlocked, ?_⟩
          · simp only [hmethod, hdev]
            rfl
          · simp only [hpc, hentry, Pc.pinWeight, hdev]
            simp only [idle, CopyDevice.work]
            omega
        · cases h
      · simp only [hostStep, hpc] at h
        rw [if_pos hn, if_pos ⟨hlockable, hsize⟩] at h
        obtain rfl := Option.some.inj h
        have hgiven := s.dev.given_asyncCopy (.dst, 0) (.src, 0) hsize none (.completion 0)
        refine ⟨.running (Finset.range c.sizeBytes) rfl ?_ ?_ ?_ ?_ ?_ ?_, ?_⟩
        · exact hgiven.running.trans (by rw [hdev]; rfl)
        · exact (congrFun hgiven.signal _).trans (Function.update_self _ _ _)
        · exact fun i hi => Finset.mem_range.1 hi
        · exact (congrFun hgiven.mem _).trans (by rw [hdev]; rfl)
        · intro x
          rw [if_neg fun hx => hx.2 (Finset.mem_range.2 hx.1)]
          exact (congrFun (congrFun hgiven.mem _) x).trans (by rw [hdev]; rfl)
        · have hwhole := touch_whole c.sizeBytes
          have hextent := hgiven.extent
          rw [hdev] at hextent
          simp only [hdev, hextent]
          exact hwhole
        · simp only [hpc, Pc.pinWeight, hgiven.work_eq, AsyncCopy.work, Finset.card_range]
          simp only [Option.isSome_none, Bool.false_eq_true, if_false]
          omega
    | running todo hpc hrunning hsignal =>
      simp only [hostStep, hpc, hsignal] at h
      cases h
    | done hpc hrunning hsrc hdst hwithin =>
      obtain ⟨hpc, hsignal⟩ | ⟨hpc, hlocked⟩ := hpc
      · simp only [hostStep, hpc, hsignal] at h
        obtain rfl := Option.some.inj h
        refine ⟨.done (.inr ⟨rfl, rfl⟩) hrunning hsrc hdst hwithin, ?_⟩
        simp only [hpc, Pc.pinWeight]
        omega
      · simp [hostStep, hpc] at h

/-- **Somebody can take a step** until a copy in place returns. -/
theorem PinStage.exists_step (hpin : Pinnable e.numBuffers c.lockable c.sizeBytes)
    (hs : PinStage c mem s) (hpc : s.pc ≠ .returned) : ∃ who t, Step e c s who t := by
  cases hs with
  | before hpc =>
    obtain hpc | hpc := hpc
    · cases hr : s.resolved with
      | false => exact ⟨.dependency, _, .dependency hr⟩
      | true => exact exists_step_of_host (by simp [hostStep, hpc, hr])
    · refine exists_step_of_host ?_
      simp only [hostStep, hpc]
      rw [if_pos hpin.1, if_pos hpin.2]
      rfl
  | running todo hpc hrunning =>
    have hne : s.dev.running ≠ [] := by rw [hrunning]; exact List.cons_ne_nil _ _
    obtain ⟨d, hd⟩ := CopyDevice.exists_step hne fun c' hc' κ hκ => by
      rw [hrunning, List.mem_singleton] at hc'
      rw [hc'] at hκ
      cases hκ
    exact ⟨.device, _, .device hd⟩
  | done hpc' =>
    obtain ⟨hpc', hsignal⟩ | ⟨hpc', -⟩ := hpc'
    · exact exists_step_of_host (by simp [hostStep, hpc', hsignal])
    · exact absurd hpc' hpc

/-- A copy in place that cannot be made does not come to an end. -/
structure Unpinned (s : State) : Prop where
  running : s.dev.running = []
  place : s.pc = .waitFor ∨ s.pc = .lock ∨ s.pc = .unlock ∧ s.dev.signal (.completion 0) = 1

/-- **A step** of such a copy. -/
theorem Unpinned.step (hmethod : c.method = some .pinInPlace)
    (hpin : ¬Pinnable e.numBuffers c.lockable c.sizeBytes) (hs : Unpinned s) {who : Who}
    (h : Step e c s who t) : Unpinned t := by
  cases h with
  | dependency h => exact ⟨hs.running, hs.place⟩
  | device h => exact absurd hs.running h.running_ne_nil
  | host h =>
    obtain hpc | hpc | ⟨hpc, hsignal⟩ := hs.place <;> simp only [hostStep, hpc] at h
    · split at h
      · obtain rfl := Option.some.inj h
        have hentry : c.entry = .lock := by rw [Call.entry, hmethod]
        exact ⟨hs.running, .inr (.inl hentry)⟩
      · cases h
    · split at h
      · rename_i hn
        rw [if_neg fun hcond => hpin ⟨hn, hcond⟩] at h
        obtain rfl := Option.some.inj h
        exact ⟨hs.running, .inr (.inr ⟨rfl, by simp [CopyDevice.store]⟩)⟩
      · cases h
    · rw [hsignal] at h
      cases h

/-- **A copy in place** has the effect exactly if it can be made. -/
theorem copyOk_pinInPlace_iff (hmethod : c.method = some .pinInPlace)
    (mem : Buffer → ℕ → UInt8) (signal : Signal → ℤ) (waiting : Bool) :
    CopyOk e c mem signal waiting false ↔ Pinnable e.numBuffers c.lockable c.sizeBytes := by
  have hne : c.method ≠ none := by rw [hmethod]; nofun
  have hpc0 : (start c mem signal waiting false).pc = .waitFor := if_neg hne
  constructor
  · intro hok
    by_contra hpin
    obtain ⟨ops, t, hrun, hpc⟩ := hok.exists_returned
    have hunpinned : Unpinned t := hrun.inv (fun s who t hs h => hs.step hmethod hpin h)
      ⟨rfl, .inl hpc0⟩
    obtain hpc' | hpc' | ⟨hpc', -⟩ := hunpinned.place <;> rw [hpc] at hpc' <;> cases hpc'
  · intro hpin
    refine Completes.of_inv (I := fun s => Waits mem false s ∧ PinStage c mem s)
      (μ := fun s => (s.pc.pinWeight c.sizeBytes + s.dev.work) + if s.resolved then 0 else 1)
      ⟨Waits.start hne mem signal waiting false, .before (.inl hpc0) ⟨signal, rfl⟩ rfl⟩
      (fun s who t hs h => ?_) (fun s hs => hs.2.exists_step hpin) fun s hs => ?_
    · obtain ⟨ht, hlt⟩ := hs.2.step hmethod hpin h
      exact ⟨⟨hs.1.step h, ht⟩, hlt⟩
    · obtain ⟨hwaits, hstage⟩ := hs
      cases hstage with
      | before hpc hdev =>
        obtain ⟨signal, hdev⟩ := hdev
        refine hwaits.copyState (by rw [hdev]; exact ⟨Nat.zero_le _, Nat.zero_le _⟩) fun hpc' => ?_
        rw [hpc'] at hpc
        obtain hpc | hpc := hpc <;> cases hpc
      | running todo hpc hrunning hsignal htodo hsrc hdst hwithin =>
        refine hwaits.copyState hwithin fun hpc' => ?_
        rw [hpc'] at hpc
        cases hpc
      | done hpc hrunning hsrc hdst hwithin =>
        refine hwaits.copyState hwithin fun hpc' => ⟨hrunning, ?_, hsrc, hdst⟩
        obtain ⟨hpc, -⟩ | ⟨-, hlocked⟩ := hpc
        · rw [hpc'] at hpc
          cases hpc
        · exact hlocked

/-! ### In no way -/

/-- The effect is there already. -/
def Unneeded (sizeBytes : ℕ) (mem : Buffer → ℕ → UInt8) (waiting : Bool) : Prop :=
  waiting = false ∧ ∀ x < sizeBytes, mem .dst x = mem .src x

/-- **A call that copies in no way** has the effect exactly if it is there already. -/
theorem copyOk_none_iff (hmethod : c.method = none) (mem : Buffer → ℕ → UInt8)
    (signal : Signal → ℤ) (waiting locked : Bool) :
    CopyOk e c mem signal waiting locked ↔ Unneeded c.sizeBytes mem waiting := by
  have hpc0 : (start c mem signal waiting locked).pc = .returned := if_pos hmethod
  constructor
  · intro hok
    have hstate := hok.holds [] _ (.nil _)
    refine ⟨?_, fun x hx => ?_⟩
    · cases waiting with
      | false => rfl
      | true => exact absurd hpc0 (hstate.waits rfl).1
    · exact ((hstate.result hpc0).2.2.2 x).trans (if_pos hx)
  · rintro ⟨rfl, hagree⟩
    refine Completes.of_inv (I := fun s => s = start c mem signal false locked)
      (μ := fun _ => 0) rfl ?_ ?_ ?_
    · rintro s who t rfl h
      cases h with
      | host h => simp [hostStep, hpc0] at h
      | device h => exact absurd rfl h.running_ne_nil
      | dependency h => cases h
    · rintro s rfl hpc
      exact absurd hpc0 hpc
    · rintro s rfl
      refine ⟨fun h => (by cases h), ⟨Nat.zero_le _, Nat.zero_le _⟩, fun _ =>
        ⟨rfl, rfl, rfl, fun x => ?_⟩⟩
      split
      · rename_i hx
        exact hagree x hx
      · rfl

/-! ### The result -/

section Result

variable (bufferSize : ℕ) (numBuffers : ℤ) (isLargeBar : Bool)
  (thresholdH2DDirectStaging thresholdH2DStagingPinInPlace thresholdD2H : ℤ) (copyMode : CopyMode)
  (sizeBytes : ℕ) (lockable : Bool) (mem : Buffer → ℕ → UInt8) (waiting locked : Bool)

/-- When `CopyHostToDevice` has the effect. -/
def HostToDeviceWhen : Prop :=
  match copyMode with
  | .UseMemcpy => True
  | .UseStaging => Stageable bufferSize numBuffers .hostToDevice sizeBytes
  | .UsePinInPlace =>
    if locked then Unneeded sizeBytes mem waiting else Pinnable numBuffers lockable sizeBytes
  | .ChooseBest =>
    if isLargeBar ∧ sizeBytes < sizeOfInt thresholdH2DDirectStaging then True
    else if sizeBytes > sizeOfInt thresholdH2DStagingPinInPlace ∧ !locked then
      Pinnable numBuffers lockable sizeBytes
    else Stageable bufferSize numBuffers .hostToDevice sizeBytes

/-- When `CopyDeviceToHost` has the effect. -/
def DeviceToHostWhen : Prop :=
  match copyMode with
  | .UseMemcpy => Unneeded sizeBytes mem waiting
  | .UseStaging => Stageable bufferSize numBuffers .deviceToHost sizeBytes
  | .UsePinInPlace =>
    if locked then Unneeded sizeBytes mem waiting else Pinnable numBuffers lockable sizeBytes
  | .ChooseBest =>
    if sizeBytes > sizeOfInt thresholdD2H ∧ !locked then Pinnable numBuffers lockable sizeBytes
    else Stageable bufferSize numBuffers .deviceToHost sizeBytes

theorem chooseHostToDevice_best (e : UnpinnedCopyEngine) (locked : Bool) (sizeBytes : ℕ) :
    chooseHostToDevice e .ChooseBest locked sizeBytes =
      if e.isLargeBar ∧ sizeBytes < e.hipH2DTransferThresholdDirectOrStaging then some .memcpy
      else if sizeBytes > e.hipH2DTransferThresholdStagingOrPininplace ∧ !locked then
        some .pinInPlace
      else some .staging := by
  rw [chooseHostToDevice]
  by_cases hdirect : e.isLargeBar ∧ sizeBytes < e.hipH2DTransferThresholdDirectOrStaging
  · simp [hdirect]
  · by_cases hlt : e.hipH2DTransferThresholdStagingOrPininplace < sizeBytes <;>
      cases locked <;> simp [hdirect, hlt]

theorem chooseDeviceToHost_best (e : UnpinnedCopyEngine) (locked : Bool) (sizeBytes : ℕ) :
    chooseDeviceToHost e .ChooseBest locked sizeBytes =
      if sizeBytes > e.hipD2HTransferThreshold ∧ !locked then some .pinInPlace
      else some .staging := by
  rw [chooseDeviceToHost]
  by_cases hlt : e.hipD2HTransferThreshold < sizeBytes <;> cases locked <;> simp [hlt]

theorem stageable_make (path : Path) :
    Stageable bufferSize (UnpinnedCopyEngine.make bufferSize numBuffers isLargeBar
      thresholdH2DDirectStaging thresholdH2DStagingPinInPlace thresholdD2H).numBuffers path
        sizeBytes ↔ Stageable bufferSize numBuffers path sizeBytes := by
  rw [Stageable, Stageable, UnpinnedCopyEngine.numBuffers_pos]

theorem pinnable_make :
    Pinnable (UnpinnedCopyEngine.make bufferSize numBuffers isLargeBar
      thresholdH2DDirectStaging thresholdH2DStagingPinInPlace thresholdD2H).numBuffers lockable
        sizeBytes ↔ Pinnable numBuffers lockable sizeBytes := by
  rw [Pinnable, Pinnable, UnpinnedCopyEngine.numBuffers_pos]

variable {bufferSize sizeBytes}

/-- **`CopyHostToDevice` and `CopyDeviceToHost`** have the effect of waiting for the dependency and
one `memcpy` exactly if the way to copy that the mode leads to has. -/
theorem copy_ok_iff (hbuffer : bufferSize < 2 ^ 64) (hsize : sizeBytes < 2 ^ 63)
    (signal : Signal → ℤ) :
    let e := UnpinnedCopyEngine.make bufferSize numBuffers isLargeBar thresholdH2DDirectStaging
      thresholdH2DStagingPinInPlace thresholdD2H
    (CopyOk e (hostToDevice e copyMode sizeBytes lockable locked) mem signal waiting locked ↔
      HostToDeviceWhen bufferSize numBuffers isLargeBar thresholdH2DDirectStaging
        thresholdH2DStagingPinInPlace copyMode sizeBytes lockable mem waiting locked) ∧
    (CopyOk e (deviceToHost e copyMode sizeBytes lockable locked) mem signal waiting locked ↔
      DeviceToHostWhen bufferSize numBuffers thresholdD2H copyMode sizeBytes lockable mem waiting
        locked) := by
  intro e
  have hstaging : ∀ c : Call, c.method = some .staging → c.sizeBytes = sizeBytes →
      (CopyOk e c mem signal waiting locked ↔
        Stageable bufferSize numBuffers c.path sizeBytes) := fun c hmethod hc => by
    rw [copyOk_staging_iff hmethod (hc ▸ hsize) hbuffer, hc]
    exact stageable_make _ _ _ _ _ _ _ _
  have hpin : ∀ c : Call, c.method = some .pinInPlace → c.sizeBytes = sizeBytes →
      c.lockable = lockable → locked = false →
        (CopyOk e c mem signal waiting locked ↔ Pinnable numBuffers lockable sizeBytes) :=
    fun c hmethod hc hl hlocked => by
      subst hlocked
      rw [copyOk_pinInPlace_iff hmethod, hc, hl]
      exact pinnable_make _ _ _ _ _ _ _ _
  have hnone : ∀ c : Call, c.method = none → c.sizeBytes = sizeBytes →
      (CopyOk e c mem signal waiting locked ↔ Unneeded sizeBytes mem waiting) :=
    fun c hmethod hc => hc ▸ copyOk_none_iff hmethod mem signal waiting locked
  constructor
  · cases copyMode with
    | UseMemcpy => exact iff_of_true (copyOk_memcpy rfl mem signal waiting locked) trivial
    | UseStaging => exact hstaging _ rfl rfl
    | UsePinInPlace =>
      cases locked with
      | false => exact hpin _ rfl rfl rfl rfl
      | true => exact hnone _ rfl rfl
    | ChooseBest =>
      have hchoose : chooseHostToDevice e .ChooseBest locked sizeBytes =
          if isLargeBar ∧ sizeBytes < sizeOfInt thresholdH2DDirectStaging then some .memcpy
          else if sizeBytes > sizeOfInt thresholdH2DStagingPinInPlace ∧ !locked then
            some .pinInPlace
          else some .staging := chooseHostToDevice_best e locked sizeBytes
      rw [HostToDeviceWhen]
      split
      · rename_i hdirect
        exact iff_of_true (copyOk_memcpy (hchoose.trans (if_pos hdirect)) mem signal waiting
          locked) trivial
      · rename_i hdirect
        rw [if_neg hdirect] at hchoose
        split
        · rename_i hplace
          exact hpin _ (hchoose.trans (if_pos hplace)) rfl rfl (by simpa using hplace.2)
        · rename_i hplace
          exact hstaging _ (hchoose.trans (if_neg hplace)) rfl
  · cases copyMode with
    | UseMemcpy => exact hnone _ rfl rfl
    | UseStaging => exact hstaging _ rfl rfl
    | UsePinInPlace =>
      cases locked with
      | false => exact hpin _ rfl rfl rfl rfl
      | true => exact hnone _ rfl rfl
    | ChooseBest =>
      have hchoose := chooseDeviceToHost_best e locked sizeBytes
      rw [DeviceToHostWhen]
      split
      · rename_i hplace
        exact hpin _ (hchoose.trans (if_pos hplace)) rfl rfl (by simpa using hplace.2)
      · rename_i hplace
        exact hstaging _ (hchoose.trans (if_neg hplace)) rfl

/-- A locked buffer is copied through the staging buffers, and one that is not by the host. -/
theorem copy_ok_iff_six :
    (4 < 2 ^ 64 ∧ 6 < 2 ^ 63) ∧
      let e := UnpinnedCopyEngine.make 4 2 true 8 8 8
      let mem : Buffer → ℕ → UInt8 := fun r _ => if r = .src then 1 else 0
      (CopyOk e (hostToDevice e .ChooseBest 6 true false) mem (fun _ => 0) true false ↔
        HostToDeviceWhen 4 2 true 8 8 .ChooseBest 6 true mem true false) ∧
      (CopyOk e (deviceToHost e .ChooseBest 6 true false) mem (fun _ => 0) true false ↔
        DeviceToHostWhen 4 2 8 .ChooseBest 6 true mem true false) :=
  ⟨⟨by decide, by decide⟩,
    copy_ok_iff 2 true 8 8 8 .ChooseBest true _ true false (by decide) (by decide) fun _ => 0⟩

/-- **A pointer that is locked already** is not copied in place, nor in any other way: the call
returns at once, without the byte. -/
theorem locked_in_place_not_copied :
    ¬CopyOk (.make 4 2 true 8 8 8)
      (hostToDevice (.make 4 2 true 8 8 8) .UsePinInPlace 1 true true)
      (fun r _ => if r = .src then 1 else 0) (fun _ => 0) false true := by
  intro hok
  obtain ⟨-, -, -, hdst⟩ := (hok.holds [] _ (.nil _)).result rfl
  exact absurd (hdst 0) (by decide)

end Result

end Codrive.UnpinnedCopy
