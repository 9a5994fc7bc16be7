/-
# What a staged copy does

In every order of the steps of host and device, a staged copy ends, has copied what it should and
nothing else, and fills no buffer that has not been drained (`StagedOk`), if there is a buffer and
the counters stop behind the last chunk.  The unsigned counters of `CopyPeerToPeer` do so only if
the chunks are whole: a last chunk that is not makes them wrap.  These are all the cases
(`staged_ok_iff`).
-/

import Codrive.UnpinnedCopy.StagingRuns

namespace Codrive.UnpinnedCopy

open Codrive.Basis

variable {e : UnpinnedCopyEngine} {c : Call} {s t : State} {mem : Buffer → ℕ → UInt8}

/-! ### The purpose -/

/-- Every run from a state ends with a return, and a property holds all along. -/
structure Completes (e : UnpinnedCopyEngine) (c : Call) (s : State) (P : State → Prop) : Prop where
  bounded : ∃ bound, ∀ ops t, Run (Step e c) s ops t → ops.length ≤ bound
  goes_on : ∀ ops t, Run (Step e c) s ops t → t.pc ≠ .returned → ∃ who u, Step e c t who u
  holds : ∀ ops t, Run (Step e c) s ops t → P t

/-- What holds all along a staged copy: no buffer is filled that has not been drained, nothing is
touched past the size, and when the call has returned, no copy is running and the bytes have been
copied. -/
structure StagedState (e : UnpinnedCopyEngine) (c : Call) (mem : Buffer → ℕ → UInt8) (s : State) :
    Prop where
  drained : ∀ k, fills e c s = some k → s.dev.held (.staging k) = none
  within : s.dev.extent .src ≤ c.sizeBytes ∧ s.dev.extent .dst ≤ c.sizeBytes ∧
    ∀ k, s.dev.extent (.staging k) ≤ e.bufferSize
  untouched : s.dev.mem .src = mem .src ∧ ∀ x, c.sizeBytes ≤ x → s.dev.mem .dst x = mem .dst x
  copied : s.pc = .returned →
    s.dev.running = [] ∧ ∀ x < c.sizeBytes, s.dev.mem .dst x = mem .src x

/-- The last chunk leaves the counters at 0, or below it. -/
def Stops (path : Path) (sizeBytes bufferSize : ℕ) : Prop :=
  match path with
  | .peerToPeer => bufferSize ∣ sizeBytes
  | _ => bufferSize ≤ sizeBytes % bufferSize + 2 ^ 63

instance (path : Path) (sizeBytes bufferSize : ℕ) : Decidable (Stops path sizeBytes bufferSize) :=
  match path with
  | .peerToPeer => inferInstanceAs (Decidable (bufferSize ∣ sizeBytes))
  | .hostToDevice | .deviceToHost =>
    inferInstanceAs (Decidable (bufferSize ≤ sizeBytes % bufferSize + 2 ^ 63))

theorem UnpinnedCopyEngine.numBuffers_pos (bufferSize : ℕ) (numBuffers : ℤ) (isLargeBar : Bool)
    (thresholdH2DDirectStaging thresholdH2DStagingPinInPlace thresholdD2H : ℤ) :
    0 < (UnpinnedCopyEngine.make bufferSize numBuffers isLargeBar thresholdH2DDirectStaging
      thresholdH2DStagingPinInPlace thresholdD2H).numBuffers ↔ 0 < numBuffers := by
  rw [UnpinnedCopyEngine.make, maxBuffers]
  by_cases h : numBuffers > 4
  · rw [if_pos h]
    exact iff_of_true (show (0 : ℤ) < 4 by decide) (by omega)
  · rw [if_neg h]

/-- **An invariant and a measure** show that the runs end with a return. -/
theorem Completes.of_inv {P I : State → Prop} {μ : State → ℕ} (h0 : I s)
    (hstep : ∀ s who t, I s → Step e c s who t → I t ∧ μ t < μ s)
    (hnext : ∀ s, I s → s.pc ≠ .returned → ∃ who t, Step e c s who t) (hP : ∀ s, I s → P s) :
    Completes e c s P := by
  have hinv : ∀ ops t, Run (Step e c) s ops t → I t := fun ops t h =>
    h.inv (fun s who t hs hst => (hstep s who t hs hst).1) h0
  refine ⟨⟨μ s, fun ops t h => ?_⟩, fun ops t h => hnext t (hinv ops t h), fun ops t h =>
    hP t (hinv ops t h)⟩
  have := h.length_le hstep h0
  omega

/-- Such a call returns. -/
theorem Completes.exists_returned {P : State → Prop} (h : Completes e c s P) :
    ∃ ops t, Run (Step e c) s ops t ∧ t.pc = .returned := by
  obtain ⟨bound, hbound⟩ := h.bounded
  exact Run.exists_done hbound h.goes_on

/-! ### Copies of no bytes -/

/-- A copy of no bytes has nothing on its way. -/
structure Nothing (e : UnpinnedCopyEngine) (c : Call) (mem : Buffer → ℕ → UInt8) (s : State) :
    Prop where
  remaining : s.bytesRemaining0 = 0 ∧ s.bytesRemaining1 = 0
  dev : ∃ signal, s.dev = idle mem signal ∧
    (s.pc = .waitFor ∨ (c.path ≠ .deviceToHost →
      ∀ k : ℕ, k < e.numBuffers → signal (drainSignal c.path k) = 0))
  place : s.pc = .waitFor ∨ (s.pc = .fill 0 ∧ c.path = .hostToDevice) ∨ s.pc = .loop ∨
    (∃ i, s.pc = .draining i ∧ c.path ≠ .deviceToHost) ∨ s.pc = .returned

theorem positive_zero (path : Path) : positive path 0 = false := by
  cases path <;> rfl

/-- **A step** of a copy of no bytes. -/
theorem Nothing.step (hmethod : c.method = some .staging) (hs : Nothing e c mem s) {who : Who}
    (h : Step e c s who t) : Nothing e c mem t ∧
      t.pc.weight e.numBuffers.toNat + (if t.resolved then 0 else 1) <
        s.pc.weight e.numBuffers.toNat + if s.resolved then 0 else 1 := by
  obtain ⟨⟨h0, h1⟩, ⟨signal, hdev, hsignal⟩, hplace⟩ := hs
  have hpositive : positive c.path s.bytesRemaining1 = false := by rw [h1, positive_zero]
  cases h with
  | device h =>
    rw [hdev] at h
    exact absurd rfl h.running_ne_nil
  | dependency h => exact ⟨⟨⟨h0, h1⟩, ⟨signal, hdev, hsignal⟩, hplace⟩, by simp [h]⟩
  | host h =>
    obtain hpc | ⟨hpc, hpath⟩ | hpc | ⟨i, hpc, hpath⟩ | hpc := hplace
    · simp only [hostStep, hpc] at h
      split at h
      swap
      · cases h
      obtain rfl := Option.some.inj h
      have hne : ¬some Method.staging = some Method.memcpy := by decide
      have hentry : c.entry = .fill 0 ∧ c.path = .hostToDevice ∨ c.entry = .loop := by
        rw [Call.entry, hmethod]
        by_cases hp : c.path = .hostToDevice
        · exact .inl ⟨if_pos hp, hp⟩
        · exact .inr (if_neg hp)
      refine ⟨⟨⟨h0, h1⟩, ⟨resetSignals e c.path signal, ?_, .inr fun hp k hk => ?_⟩, ?_⟩, ?_⟩
      · simp only [hdev, hmethod, if_neg hne]
        rfl
      · rcases hp' : c.path with _ | _ | _
        · exact if_pos hk
        · exact absurd hp' hp
        · exact if_pos ⟨hk, rfl⟩
      · obtain hentry | hentry := hentry
        · exact .inr (.inl hentry)
        · exact .inr (.inr (.inl hentry))
      · have hlt : c.entry.weight e.numBuffers.toNat < s.pc.weight e.numBuffers.toNat := by
          rw [hpc]
          obtain ⟨hentry, -⟩ | hentry := hentry <;> rw [hentry] <;> simp [Pc.weight]
        simp only
        omega
    · simp only [hostStep, hpc, hpositive, Bool.false_eq_true, if_false] at h
      obtain rfl := Option.some.inj h
      have hd2h : c.path ≠ .deviceToHost := by rw [hpath]; decide
      refine ⟨⟨⟨h0, h1⟩, ⟨signal, hdev, ?_⟩, .inr (.inr (.inr (.inl ⟨0, rfl, hd2h⟩)))⟩, ?_⟩
      · exact .inr (hsignal.resolve_left (by simp [hpc]))
      · simp only [hpc, Pc.weight]
        omega
    · simp only [hostStep, hpc, hpositive, Bool.false_eq_true, if_false] at h
      obtain rfl := Option.some.inj h
      have hreset := hsignal.resolve_left (by simp [hpc])
      by_cases hp : c.path = .peerToPeer
      · have hd2h : c.path ≠ .deviceToHost := by rw [hp]; decide
        rw [if_pos hp]
        refine ⟨⟨⟨h0, h1⟩, ⟨signal, hdev, .inr hreset⟩,
          .inr (.inr (.inr (.inl ⟨0, rfl, hd2h⟩)))⟩, ?_⟩
        simp only [hpc, Pc.weight]
        omega
      · rw [if_neg hp]
        refine ⟨⟨⟨h0, h1⟩, ⟨signal, hdev, .inr hreset⟩, .inr (.inr (.inr (.inr rfl)))⟩, ?_⟩
        simp only [hpc, Pc.weight]
        omega
    · have hreset := hsignal.resolve_left (by simp [hpc])
      simp only [hostStep, hpc] at h
      split at h
      · split at h
        · obtain rfl := Option.some.inj h
          refine ⟨⟨⟨h0, h1⟩, ⟨signal, hdev, .inr hreset⟩,
            .inr (.inr (.inr (.inl ⟨i + 1, rfl, hpath⟩)))⟩, ?_⟩
          simp only [hpc, Pc.weight]
          omega
        · cases h
      · obtain rfl := Option.some.inj h
        refine ⟨⟨⟨h0, h1⟩, ⟨signal, hdev, .inr hreset⟩, .inr (.inr (.inr (.inr rfl)))⟩, ?_⟩
        simp only [hpc, Pc.weight]
        omega
    · simp [hostStep, hpc] at h

/-- **Somebody can take a step** until a copy of no bytes returns. -/
theorem Nothing.exists_step (hs : Nothing e c mem s) (hpc : s.pc ≠ .returned) :
    ∃ who t, Step e c s who t := by
  obtain ⟨⟨h0, h1⟩, ⟨signal, hdev, hsignal⟩, hplace⟩ := hs
  obtain hpc | ⟨hpc, -⟩ | hpc | ⟨i, hpc, hpath⟩ | hpc' := hplace
  · cases hr : s.resolved with
    | false => exact ⟨.dependency, _, .dependency hr⟩
    | true => exact exists_step_of_host (by simp [hostStep, hpc, hr])
  · exact exists_step_of_host (by simp [hostStep, hpc, h1, positive_zero])
  · exact exists_step_of_host (by simp [hostStep, hpc])
  · refine exists_step_of_host ?_
    have hreset := hsignal.resolve_left (by simp [hpc]) hpath i
    simp only [hostStep, hpc]
    split
    · rename_i hi
      have hzero : s.dev.signal (drainSignal c.path i) = 0 := by
        rw [hdev]
        exact hreset hi
      rw [hzero]
      rfl
    · rfl
  · exact absurd hpc' hpc

/-- What holds all along a copy of no bytes. -/
theorem Nothing.stagedState (hs : Nothing e c mem s) (hsize : c.sizeBytes = 0) :
    StagedState e c mem s := by
  obtain ⟨⟨h0, h1⟩, ⟨signal, hdev, -⟩, hplace⟩ := hs
  constructor
  · intro k hk
    rw [hdev]
    rfl
  · rw [hdev]
    exact ⟨Nat.zero_le _, Nat.zero_le _, fun _ => Nat.zero_le _⟩
  · rw [hdev]
    exact ⟨rfl, fun _ _ => rfl⟩
  · intro _
    rw [hdev, hsize]
    exact ⟨rfl, fun x hx => absurd hx (Nat.not_lt_zero x)⟩

/-! ### Where the counter is -/

/-- A counter of remaining bytes, where the loops may have missed the end. -/
inductive Counter (e : UnpinnedCopyEngine) (size bytesRemaining o : ℕ) : Prop
  | before (hdvd : e.bufferSize ∣ o) (hle : o ≤ size) (heq : bytesRemaining = size - o)
  | last (hpos : 0 < e.bufferSize) (ho : o = size) (hndvd : ¬e.bufferSize ∣ size)
      (heq : bytesRemaining = sub64 (size % e.bufferSize) e.bufferSize)
  | past (hlt : size < o)

/-- **The next chunk**, wherever the counter is. -/
theorem Counter.next {size bytesRemaining o : ℕ} (h : Counter e size bytesRemaining o)
    (hsize : size < 2 ^ 63) {path : Path} (hpos : positive path bytesRemaining = true) :
    Counter e size (sub64 bytesRemaining e.bufferSize) (o + theseBytes e bytesRemaining) := by
  have hlt : 0 < bytesRemaining := by
    rcases Nat.eq_zero_or_pos bytesRemaining with h0 | h0
    · rw [h0, positive_zero] at hpos
      cases hpos
    · exact h0
  cases h with
  | before hdvd hle heq =>
    subst heq
    rcases Nat.lt_or_ge (size - o) e.bufferSize with hb | hb
    · have hbytes : theseBytes e (size - o) = size - o := if_neg (by omega)
      obtain ⟨m, rfl⟩ := hdvd
      have hmod : size % e.bufferSize = size - e.bufferSize * m := by
        conv_lhs => rw [← Nat.add_sub_of_le hle]
        rw [Nat.mul_add_mod, Nat.mod_eq_of_lt hb]
      rw [hbytes, ← hmod]
      refine .last (by omega) (by omega) (fun hdvd => ?_) rfl
      have := Nat.mod_eq_zero_of_dvd hdvd
      omega
    · have hbytes : theseBytes e (size - o) = e.bufferSize := by
        rw [theseBytes]
        split <;> omega
      rw [hbytes, sub64_of_le hb (by omega)]
      exact .before (Nat.dvd_add hdvd (Nat.dvd_refl _)) (by omega) (by omega)
  | last hpos ho hndvd heq =>
    refine .past ?_
    rw [theseBytes]
    split <;> omega
  | past hgt => exact .past (by omega)

/-- What every staged copy keeps. -/
structure Tracked (e : UnpinnedCopyEngine) (c : Call) (s : State) : Prop where
  counter : Counter e c.sizeBytes s.bytesRemaining1 s.dstp
  extent : s.dstp ≤ s.dev.extent .dst
  unbuffered : e.numBuffers ≤ 0 → s.bytesRemaining1 = c.sizeBytes
  issued : ∀ k bytes, s.pc = .issue k bytes → 0 < e.numBuffers ∧
    positive c.path s.bytesRemaining1 = true ∧ bytes = theseBytes e s.bytesRemaining1
  ended : (∃ i, s.pc = .draining i) ∨ s.pc = .returned →
    positive c.path s.bytesRemaining1 = false
  staged : s.pc ≠ .memcpy ∧ s.pc ≠ .lock ∧ s.pc ≠ .unlock

/-- **A step** keeps it. -/
theorem Tracked.step (hmethod : c.method = some .staging) (hsize : c.sizeBytes < 2 ^ 63)
    (hs : Tracked e c s) {who : Who} (h : Step e c s who t) : Tracked e c t := by
  cases h with
  | device h =>
    refine { hs with extent := ?_ }
    simp only [h.extent_eq]
    exact hs.extent
  | dependency h => exact { hs with }
  | host h =>
    rcases hpc : s.pc with _ | _ | _ | _ | k | ⟨k, bytes⟩ | _ | i | i | i | _ <;>
      simp only [hostStep, hpc] at h
    · split at h
      swap
      · cases h
      obtain rfl := Option.some.inj h
      have hentry : c.entry = .fill 0 ∨ c.entry = .loop := by
        rw [Call.entry, hmethod]
        by_cases hp : c.path = .hostToDevice
        · exact .inl (if_pos hp)
        · exact .inr (if_neg hp)
      refine { hs with issued := ?_, ended := ?_, staged := ?_ } <;>
        obtain hentry | hentry := hentry <;> simp [hentry]
    · exact absurd hpc hs.staged.1
    · exact absurd hpc hs.staged.2.1
    · exact absurd hpc hs.staged.2.2
    · split at h
      · rename_i hpositive
        split at h
        · rename_i hwait
          obtain rfl := Option.some.inj h
          refine { hs with extent := ?_, issued := ?_, ended := ?_, staged := ?_ }
          · exact hs.extent.trans (CopyDevice.extent_le_memcpy _ _ _ _ _)
          · intro k' bytes heq
            obtain ⟨-, rfl⟩ := Pc.issue.inj heq
            exact ⟨by omega, hpositive, rfl⟩
          · simp
          · simp
        · cases h
      · rename_i hpositive
        obtain rfl := Option.some.inj h
        exact { hs with
          issued := by simp
          ended := fun _ => by simpa using hpositive
          staged := by simp }
    · obtain rfl := Option.some.inj h
      obtain ⟨hn, hpositive, rfl⟩ := hs.issued k bytes hpc
      constructor
      · exact hs.counter.next hsize hpositive
      · exact CopyDevice.add_le_extent_asyncCopy _ (Buffer.dst, s.dstp) _ _ _ _ hs.extent
      · intro hle
        omega
      · simp
      · simp
      · simp
    · obtain rfl := Option.some.inj h
      refine { hs with issued := ?_, ended := ?_, staged := ?_ }
      · intro k bytes
        simp only
        split
        · simp
        · split <;> simp
      · intro hend
        simp only at hend
        split at hend
        · simp at hend
        · rename_i hpositive
          simpa using hpositive
      · simp only
        split
        · simp
        · split <;> simp
    · split at h
      · split at h
        · cases h
        · obtain rfl := Option.some.inj h
          exact { hs with
            extent := hs.extent.trans
              (CopyDevice.extent_le_asyncCopy (s.dev.store (.completion i) 1) _ _ _ _ _ _)
            issued := by simp
            ended := by simp
            staged := by simp }
      · obtain rfl := Option.some.inj h
        exact { hs with
          issued := by simp
          ended := by simp
          staged := by simp }
    · split at h
      · rename_i hmore
        have hnext := hs.counter.next hsize hmore.1
        have hn : e.numBuffers ≤ 0 → sub64 s.bytesRemaining1 e.bufferSize = c.sizeBytes :=
          fun hle => by omega
        split at h
        · obtain rfl := Option.some.inj h
          have hextent := (s.dev.store (.completion2 i) 1).add_le_extent_asyncCopy (.dst, s.dstp)
            (.staging i, 0) (theseBytes e s.bytesRemaining1) (some (.completion i))
            (.completion2 i) hs.extent
          exact ⟨hnext, hextent, hn, by simp, by simp, by simp⟩
        · split at h
          · obtain rfl := Option.some.inj h
            exact ⟨hnext, CopyDevice.add_le_extent_memcpy _ (Buffer.dst, s.dstp) _ _, hn,
              by simp, by simp, by simp⟩
          · cases h
      · obtain rfl := Option.some.inj h
        exact { hs with
          issued := by simp
          ended := by simp
          staged := by simp }
    · split at h
      · split at h
        · obtain rfl := Option.some.inj h
          exact { hs with
            issued := by simp
            ended := fun _ => hs.ended (.inl ⟨i, hpc⟩)
            staged := by simp }
        · cases h
      · obtain rfl := Option.some.inj h
        exact { hs with
          issued := by simp
          ended := fun _ => hs.ended (.inl ⟨i, hpc⟩)
          staged := by simp }
    · cases h

/-- A call that copies through the staging buffers starts so. -/
theorem Tracked.start (hmethod : c.method = some .staging) (signal : Signal → ℤ)
    (waiting locked : Bool) : Tracked e c (start c mem signal waiting locked) := by
  have hpc : (UnpinnedCopy.start c mem signal waiting locked).pc = .waitFor := by
    rw [UnpinnedCopy.start, hmethod]
    rfl
  refine ⟨.before (Nat.dvd_zero _) (Nat.zero_le _) rfl, Nat.zero_le _, fun _ => rfl, ?_, ?_, ?_⟩
  all_goals
    rw [hpc]
    simp

/-- **What a staged copy that returns shows**, if it has touched nothing past the size. -/
theorem Tracked.stops (hs : Tracked e c s) (hsize : c.sizeBytes < 2 ^ 63)
    (hbuffer : e.bufferSize < 2 ^ 64) (hpc : s.pc = .returned)
    (hwithin : s.dev.extent .dst ≤ c.sizeBytes) :
    c.sizeBytes = 0 ∨ 0 < e.numBuffers ∧ 0 < e.bufferSize ∧
      Stops c.path c.sizeBytes e.bufferSize := by
  have hended := hs.ended (.inr hpc)
  have hextent := hs.extent
  rcases Nat.eq_zero_or_pos c.sizeBytes with hzero | hpos
  · exact .inl hzero
  have hn : 0 < e.numBuffers := Int.not_le.1 fun hle => by
    rw [hs.unbuffered hle, positive_of_lt hpos hsize] at hended
    cases hended
  refine .inr ⟨hn, ?_⟩
  cases hs.counter with
  | before hdvd hle heq =>
    have hdone : s.dstp = c.sizeBytes := by
      refine Nat.le_antisymm hle (Nat.not_lt.1 fun hlt => ?_)
      rw [heq, positive_of_lt (by omega) (by omega)] at hended
      cases hended
    rw [hdone] at hdvd
    have hle' := Nat.le_of_dvd hpos hdvd
    refine ⟨Nat.pos_of_dvd_of_pos hdvd hpos, ?_⟩
    rcases hp : c.path with _ | _ | _
    · simp only [Stops]
      omega
    · simp only [Stops]
      omega
    · exact hdvd
  | last hb ho hndvd heq =>
    have hmod := Nat.mod_lt c.sizeBytes hb
    have hsub : sub64 (c.sizeBytes % e.bufferSize) e.bufferSize =
        c.sizeBytes % e.bufferSize + 2 ^ 64 - e.bufferSize := by
      unfold sub64 u64 wrap
      omega
    rw [heq, hsub] at hended
    refine ⟨hb, ?_⟩
    rcases hp : c.path with _ | _ | _
    all_goals
      rw [hp] at hended
      simp only [positive, Bool.and_eq_false_iff, decide_eq_false_iff_not] at hended
      simp only [Stops]
      omega
  | past hlt => omega

/-! ### The result -/

/-- **A copy of no bytes** does nothing, as it should. -/
theorem completes_of_nothing (hmethod : c.method = some .staging) (hsize : c.sizeBytes = 0)
    (mem : Buffer → ℕ → UInt8) (signal : Signal → ℤ) (waiting locked : Bool) {I P : State → Prop}
    (h0 : I (start c mem signal waiting locked))
    (hstep : ∀ s who t, Nothing e c mem s → I s → Step e c s who t → I t)
    (hP : ∀ s, Nothing e c mem s → I s → P s) :
    Completes e c (start c mem signal waiting locked) P := by
  have hpc : (start c mem signal waiting locked).pc = .waitFor := by
    rw [start, hmethod]
    rfl
  refine Completes.of_inv (I := fun s => Nothing e c mem s ∧ I s)
    (μ := fun s => s.pc.weight e.numBuffers.toNat + if s.resolved then 0 else 1) ⟨?_, h0⟩
    (fun s who t hs h => ?_) (fun s hs => hs.1.exists_step) (fun s hs => hP s hs.1 hs.2)
  · exact ⟨⟨hsize, hsize⟩, ⟨signal, rfl, .inl hpc⟩, .inl hpc⟩
  · obtain ⟨ht, hlt⟩ := hs.1.step hmethod h
    exact ⟨⟨ht, hstep s who t hs.1 hs.2 h⟩, hlt⟩

/-- **Runs through the stages** end with a return. -/
theorem completes_of_fits {j : Transfer} (hj : Fits e c j) (signal : Signal → ℤ)
    (waiting locked : Bool) {I P : State → Prop} (h0 : I (start c j.mem signal waiting locked))
    (hstep : ∀ s who t, Stage j s → I s → Step e c s who t → I t)
    (hP : ∀ s, Stage j s → I s → P s) : Completes e c (start c j.mem signal waiting locked) P := by
  refine Completes.of_inv (I := fun s => Stage j s ∧ I s) (μ := j.left)
    ⟨Stage.start hj signal waiting locked, h0⟩ (fun s who t hs h => ?_)
    (fun s hs => hs.1.exists_step hj) (fun s hs => hP s hs.1 hs.2)
  obtain ⟨ht, hlt⟩ := hs.1.step hj h
  exact ⟨⟨ht, hstep s who t hs.1 hs.2 h⟩, hlt⟩

/-- The transfer of a call, if there are buffers. -/
theorem exists_fits (hmethod : c.method = some .staging) (hsize : c.sizeBytes < 2 ^ 63)
    (hbuffer : e.bufferSize < 2 ^ 64) (hn : 0 < e.numBuffers) (hb : 0 < e.bufferSize)
    (hstops : Stops c.path c.sizeBytes e.bufferSize) (mem : Buffer → ℕ → UInt8) :
    ∃ j : Transfer, Fits e c j ∧ j.mem = mem :=
  ⟨⟨c.path, c.sizeBytes, e.bufferSize, e.numBuffers.toNat, mem, hb, by omega⟩,
    ⟨hmethod, rfl, rfl, rfl, by simp only; omega, hsize, hbuffer, hstops⟩, rfl⟩

/-- **What holds all along the stages** is what should hold. -/
theorem Stage.stagedState {j : Transfer} (hj : Fits e c j) (hs : Stage j s) :
    StagedState e c j.mem s := by
  obtain ⟨hwithin, huntouched⟩ := hs.frame
  constructor
  · exact fun k => hs.held_of_fills hj
  · rw [hj.sizeBytes, hj.bufferSize]
    exact hwithin
  · rw [hj.sizeBytes]
    exact huntouched
  · rw [hj.sizeBytes]
    exact hs.result

end Codrive.UnpinnedCopy
