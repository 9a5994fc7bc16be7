/-
# Staged copies, as they run

In every order of the steps of host and device, a staged copy has its chunks on their way
(`Transfer.Pipe`) wherever the host is (`Stage`), and every step leaves less to do.
-/

import Codrive.UnpinnedCopy.Pipeline

namespace Codrive.UnpinnedCopy

open Codrive.Basis

variable {e : UnpinnedCopyEngine} {c : Call} {j : Transfer} {s t : State} {bytesRemaining o : ℕ}

/-- A call that copies through staging buffers, with counters that stop at 0 or below it. -/
structure Fits (e : UnpinnedCopyEngine) (c : Call) (j : Transfer) : Prop where
  method : c.method = some .staging
  path : c.path = j.path
  sizeBytes : c.sizeBytes = j.size
  bufferSize : e.bufferSize = j.bufferSize
  numBuffers : e.numBuffers = j.buffers
  size_lt : j.size < 2 ^ 63
  bufferSize_lt : j.bufferSize < 2 ^ 64
  stops : match j.path with
    | .peerToPeer => j.bufferSize ∣ j.size
    | _ => j.bufferSize ≤ j.size % j.bufferSize + 2 ^ 63

/-- A counter of the bytes from a place on. -/
structure Counts (j : Transfer) (bytesRemaining o : ℕ) : Prop where
  rest : o < j.size → bytesRemaining = j.size - o
  stopped : o = j.size → positive j.path bytesRemaining = false

theorem positive_of_lt {path : Path} {x : ℕ} (h : 0 < x) (hlt : x < 2 ^ 63) :
    positive path x = true := by
  have hboth : (decide (0 < x) && decide (x < 2 ^ 63)) = true := by
    rw [decide_eq_true h, decide_eq_true hlt, Bool.and_self]
  cases path with
  | peerToPeer => exact decide_eq_true h
  | hostToDevice => exact hboth
  | deviceToHost => exact hboth

/-- The loops go on up to the size. -/
theorem Counts.positive_iff (h : Counts j bytesRemaining o) (hj : Fits e c j) (ho : o ≤ j.size) :
    positive c.path bytesRemaining = true ↔ o < j.size := by
  rw [hj.path]
  constructor
  · intro hpos
    refine Nat.lt_of_le_of_ne ho fun heq => ?_
    rw [h.stopped heq] at hpos
    cases hpos
  · intro hlt
    have := hj.size_lt
    rw [h.rest hlt]
    exact positive_of_lt (by omega) (by omega)

theorem Counts.theseBytes_eq (h : Counts j bytesRemaining o) (hj : Fits e c j)
    (ho : o < j.size) : theseBytes e bytesRemaining = j.len o := by
  rw [theseBytes, h.rest ho, hj.bufferSize, Transfer.len]
  split <;> omega

/-- **A counter goes on** to the next chunk, and stops behind the last one. -/
theorem Counts.next (h : Counts j bytesRemaining o) (hj : Fits e c j) (ho : o < j.size)
    (hdvd : j.bufferSize ∣ o) :
    Counts j (sub64 bytesRemaining e.bufferSize) (o + j.len o) := by
  have hsize := hj.size_lt
  rw [h.rest ho, hj.bufferSize]
  constructor
  · intro hlt
    obtain ⟨heq, -⟩ := Transfer.dvd_next hdvd hlt
    rw [heq] at hlt ⊢
    rw [sub64_of_le (by omega) (by omega), Nat.sub_add_eq]
  · intro heq
    rcases Nat.lt_or_ge (j.size - o) j.bufferSize with hb | hb
    · have hmod : j.size % j.bufferSize = j.size - o := by
        obtain ⟨m, rfl⟩ := hdvd
        conv_lhs => rw [← Nat.add_sub_of_le ho.le]
        rw [Nat.mul_add_mod, Nat.mod_eq_of_lt hb]
      have hstops := hj.stops
      have hbuffer := hj.bufferSize_lt
      have hsub : sub64 (j.size - o) j.bufferSize = j.size - o + 2 ^ 64 - j.bufferSize := by
        unfold sub64 u64 wrap
        omega
      have hle : j.path ≠ .peerToPeer → 2 ^ 63 ≤ j.size - o + 2 ^ 64 - j.bufferSize := by
        intro hp
        rcases hp' : j.path with _ | _ | _
        · rw [hp'] at hstops
          simp only at hstops
          omega
        · rw [hp'] at hstops
          simp only at hstops
          omega
        · exact absurd hp' hp
      rcases hp : j.path with _ | _ | _
      · have := hle (by rw [hp]; nofun)
        simp only [positive, hsub, Bool.and_eq_false_iff, decide_eq_false_iff_not]
        omega
      · have := hle (by rw [hp]; nofun)
        simp only [positive, hsub, Bool.and_eq_false_iff, decide_eq_false_iff_not]
        omega
      · rw [hp] at hstops
        have := Nat.mod_eq_zero_of_dvd hstops
        omega
    · have hzero : sub64 (j.size - o) j.bufferSize = 0 := by
        rw [sub64_of_le hb (by omega)]
        rw [Transfer.len] at heq
        omega
      rw [hzero]
      cases j.path <;> rfl

theorem lt_numBuffers (hj : Fits e c j) {k : ℕ} : (k : ℤ) < e.numBuffers ↔ k < j.buffers := by
  rw [hj.numBuffers]
  exact Int.ofNat_lt

namespace Transfer

/-- The next chunk goes through the next buffer. -/
theorem buf_next (j : Transfer) (o : ℕ) : j.buf (o + j.bufferSize) = (j.buf o + 1) % j.buffers := by
  rw [buf, buf, Nat.add_div_right _ j.bufferSize_pos, Nat.mod_add_mod]

/-- The chunks behind one of the first buffer. -/
theorem buf_add_mul (j : Transfer) {o i : ℕ} (h : j.buf o = 0) (hi : i < j.buffers) :
    j.buf (o + i * j.bufferSize) = i := by
  have hdiv : (o + i * j.bufferSize) / j.bufferSize = o / j.bufferSize + i :=
    Nat.add_mul_div_right _ _ j.bufferSize_pos
  rw [buf] at h
  rw [buf, hdiv, Nat.add_mod, h, Nat.zero_add, Nat.mod_mod, Nat.mod_eq_of_lt hi]

/-- No step of the device gives it a copy. -/
theorem completions_of_step {d d' : CopyDevice Buffer Signal} (h : d.Step d') {κ : Signal}
    (hκ : κ ∈ completions d') : κ ∈ completions d := by
  rw [completions] at hκ ⊢
  cases h with
  | start hrunning hdep hzero =>
    rw [hrunning]
    simpa using hκ
  | move hrunning hdep hi =>
    rw [hrunning]
    simpa using hκ
  | @finish front back c hrunning hdep htodo =>
    rw [hrunning]
    exact (((List.sublist_cons_self c back).append_left front).map _).subset hκ

theorem uses_drainSignal (hpath : j.path ≠ .deviceToHost) {k : ℕ} (hk : k < j.buffers) :
    j.Uses (drainSignal j.path k) := by
  rcases hp : j.path with _ | _ | _
  · exact hk
  · exact absurd hp hpath
  · exact ⟨hk, hp⟩

/-- A buffer of which the copy that drains it is not running holds nothing from before. -/
theorem Pipe.le_of_held {F D : ℕ} {d : CopyDevice Buffer Signal} (h : j.Pipe F D d) {k o : ℕ}
    (hsignal : drainSignal j.path k ∉ completions d) (hh : d.held (.staging k) = some o) :
    D ≤ o :=
  Nat.not_lt.1 fun hlt => hsignal (h.owed k o hh hlt)

/-- On the way to the host, no copy drains a buffer. -/
theorem Pipe.drainSignal_not_mem {F D : ℕ} {d : CopyDevice Buffer Signal} (h : j.Pipe F D d)
    (hpath : j.path = .deviceToHost) (k : ℕ) : drainSignal j.path k ∉ completions d := fun hin => by
  obtain ⟨c, hc, heq⟩ := List.mem_map.1 hin
  obtain ⟨o, -, ⟨hco, -⟩ | ⟨-, hp, -⟩⟩ := (h.valid c hc).exists_completion
  · rw [hco, hpath] at heq
    cases heq
  · exact hp hpath

/-- **All chunks have arrived** when no buffer is drained any more. -/
theorem Pipe.running_eq_nil {d : CopyDevice Buffer Signal} (h : j.Pipe j.size j.size d)
    (hsignal : ∀ k < j.buffers, drainSignal j.path k ∉ completions d) : d.running = [] := by
  refine List.eq_nil_iff_forall_not_mem.2 fun c hc => ?_
  obtain ⟨o, hh, -⟩ := (h.valid c hc).exists_completion
  obtain ⟨-, hlt, -⟩ := h.held _ o hh
  exact hsignal _ (j.buf_lt o) (h.owed _ o hh hlt)

end Transfer

/-! ### Where the host is -/

/-- Where the host is, and what holds there. -/
inductive Stage (j : Transfer) (s : State) : Prop
  | waitFor (hpc : s.pc = .waitFor) (hdev : ∃ signal, s.dev = idle j.mem signal)
      (hsrcp : s.srcp = 0) (hdstp : s.dstp = 0) (h0 : s.bytesRemaining0 = j.size)
      (h1 : s.bytesRemaining1 = j.size)
  | fill (k : ℕ) (hpc : s.pc = .fill k) (hpath : j.path = .hostToDevice)
      (hsrcp : s.srcp = s.dstp) (hcounts : Counts j s.bytesRemaining1 s.dstp)
      (hpipe : j.Pipe s.dstp s.dstp s.dev) (hk : s.dstp < j.size → k = j.buf s.dstp)
  | issue (hpc : s.pc = .issue (j.buf s.dstp) (j.len s.dstp)) (hpath : j.path = .hostToDevice)
      (hsrcp : s.srcp = s.dstp) (hcounts : Counts j s.bytesRemaining1 s.dstp)
      (hlt : s.dstp < j.size) (hpipe : j.Pipe (s.dstp + j.len s.dstp) s.dstp s.dev)
  | loop (hpc : s.pc = .loop) (hpath : j.path ≠ .hostToDevice) (hsrcp : s.srcp = s.dstp)
      (hcounts0 : Counts j s.bytesRemaining0 s.srcp) (hcounts1 : Counts j s.bytesRemaining1 s.dstp)
      (hpipe : j.Pipe s.srcp s.dstp s.dev) (hbuf : s.dstp < j.size → j.buf s.dstp = 0)
  | launching (i : ℕ) (hpc : s.pc = .launching i) (hpath : j.path ≠ .hostToDevice)
      (hcounts0 : Counts j s.bytesRemaining0 s.srcp) (hcounts1 : Counts j s.bytesRemaining1 s.dstp)
      (hpipe : j.Pipe s.srcp s.dstp s.dev) (hlt : s.dstp < j.size) (hbuf : j.buf s.dstp = 0)
      (hi : i ≤ j.buffers) (hle : s.srcp ≤ s.dstp + i * j.bufferSize)
      (heq : s.srcp < j.size → s.srcp = s.dstp + i * j.bufferSize)
  | unloading (i : ℕ) (hpc : s.pc = .unloading i) (hpath : j.path ≠ .hostToDevice)
      (hcounts0 : Counts j s.bytesRemaining0 s.srcp) (hcounts1 : Counts j s.bytesRemaining1 s.dstp)
      (hpipe : j.Pipe s.srcp s.dstp s.dev) (hfirst : i = 0 → s.dstp < j.size)
      (hbuf : s.dstp < j.size → j.buf s.dstp = i % j.buffers)
      (hi : i ≤ j.buffers) (hle : s.srcp ≤ s.dstp + (j.buffers - i) * j.bufferSize)
      (heq : s.srcp < j.size → s.srcp = s.dstp + (j.buffers - i) * j.bufferSize)
  | draining (i : ℕ) (hpc : s.pc = .draining i) (hpath : j.path ≠ .deviceToHost)
      (hdstp : s.dstp = j.size) (hsrcp : s.srcp = j.size) (hpipe : j.Pipe j.size j.size s.dev)
      (hdrained : ∀ k < i, k < j.buffers → drainSignal j.path k ∉ Transfer.completions s.dev)
  | returned (hpc : s.pc = .returned) (hpipe : j.Pipe j.size j.size s.dev)
      (hrunning : s.dev.running = [])

/-- What the place of the host counts for. -/
def Pc.weight (buffers : ℕ) : Pc → ℕ
  | .waitFor => buffers + 7
  | .fill _ => buffers + 4
  | .issue _ _ => buffers + 4
  | .loop => buffers + 4
  | .launching _ => buffers + 3
  | .unloading 0 => buffers + 2
  | .unloading (_ + 1) => buffers + 5
  | .draining i => buffers - i + 1
  | _ => 0

/-- The bytes that the buffers have been given. -/
def State.filled (s : State) : ℕ :=
  match s.pc with
  | .issue _ bytes => s.srcp + bytes
  | _ => s.srcp

/-- What is left to do: no step takes more than this pays for. -/
def Transfer.left (j : Transfer) (s : State) : ℕ :=
  8 * ((j.size - s.filled) + (j.size - s.dstp)) + s.pc.weight j.buffers + s.dev.work +
    if s.resolved then 0 else 1

/-- **The host waits**, and starts. -/
theorem step_waitFor (hj : Fits e c j) (hpc : s.pc = .waitFor)
    (hdev : ∃ signal, s.dev = idle j.mem signal) (hsrcp : s.srcp = 0) (hdstp : s.dstp = 0)
    (h0 : s.bytesRemaining0 = j.size) (h1 : s.bytesRemaining1 = j.size)
    (h : hostStep e c s = some t) : Stage j t ∧ j.left t < j.left s := by
  obtain ⟨signal, hdev⟩ := hdev
  simp only [hostStep, hpc] at h
  split at h
  swap
  · cases h
  obtain rfl := Option.some.inj h
  have hcounts : Counts j j.size 0 := by
    refine ⟨fun _ => rfl, fun heq => ?_⟩
    rw [← heq]
    cases j.path <;> rfl
  have hpipe : j.Pipe 0 0 (idle j.mem (resetSignals e c.path signal)) := by
    refine Transfer.Pipe.init j fun κ hκ => ?_
    cases κ with
    | completion k => exact if_pos ((lt_numBuffers hj).2 hκ)
    | completion2 k => exact if_pos ⟨(lt_numBuffers hj).2 hκ.1, hj.path.trans hκ.2⟩
  have hmethod : ¬some Method.staging = some Method.memcpy := nofun
  rw [Call.entry]
  simp only [hj.method, hdev, if_neg hmethod]
  by_cases hpath : j.path = .hostToDevice
  · rw [if_pos (hj.path.trans hpath)]
    refine ⟨.fill 0 rfl hpath (hsrcp.trans hdstp.symm) ?_ ?_ ?_, ?_⟩
    · simp only [h1, hdstp, hcounts]
    · simp only [hdstp]
      exact hpipe
    · simp [hdstp, Transfer.buf]
    · simp only [Transfer.left, State.filled, hpc, Pc.weight, hdev, idle, CopyDevice.work]
      omega
  · rw [if_neg fun heq => hpath (hj.path.symm.trans heq)]
    refine ⟨.loop rfl hpath (hsrcp.trans hdstp.symm) ?_ ?_ ?_ ?_, ?_⟩
    · simp only [h0, hsrcp, hcounts]
    · simp only [h1, hdstp, hcounts]
    · simp only [hsrcp, hdstp]
      exact hpipe
    · simp [hdstp, Transfer.buf]
    · simp only [Transfer.left, State.filled, hpc, Pc.weight, hdev, idle, CopyDevice.work]
      omega

/-- The buffer that the host fills holds nothing. -/
theorem held_of_fill (hpath : j.path = .hostToDevice) (hpipe : j.Pipe s.dstp s.dstp s.dev)
    (hwait : s.dev.signal (.completion (j.buf s.dstp)) < 1) :
    s.dev.held (.staging (j.buf s.dstp)) = none := by
  have hfresh := hpipe.not_mem_completions (j.uses_drainSignal (k := j.buf s.dstp)
    (by rw [hpath]; nofun) (j.buf_lt _)) (by rw [hpath]; exact hwait)
  refine Option.eq_none_iff_forall_not_mem.2 fun o hh => ?_
  have hle := hpipe.le_of_held hfresh hh
  obtain ⟨-, ho, -⟩ := hpipe.held _ o hh
  exact absurd hle (Nat.not_le.2 ho)

/-- The buffer that the device is to fill holds nothing. -/
theorem held_of_launching {i : ℕ} (hpath : j.path ≠ .hostToDevice)
    (hpipe : j.Pipe s.srcp s.dstp s.dev) (hlt : s.dstp < j.size) (hbuf : j.buf s.dstp = 0)
    (hib : i < j.buffers) (heq : s.srcp = s.dstp + i * j.bufferSize)
    (hwait : j.path = .peerToPeer → s.dev.signal (.completion2 i) < 1) :
    j.buf s.srcp = i ∧ s.dev.held (.staging (j.buf s.srcp)) = none := by
  have hi' : j.buf s.srcp = i := by rw [heq, j.buf_add_mul hbuf hib]
  have hfresh : drainSignal j.path i ∉ Transfer.completions s.dev := by
    by_cases hp : j.path = .peerToPeer
    · refine hpipe.not_mem_completions (j.uses_drainSignal (by rw [hp]; nofun) hib) ?_
      rw [hp]
      exact hwait hp
    · refine hpipe.drainSignal_not_mem ?_ i
      rcases hp' : j.path with _ | _ | _
      · exact absurd hp' hpath
      · rfl
      · exact absurd hp' hp
  refine ⟨hi', Option.eq_none_iff_forall_not_mem.2 fun o hh => ?_⟩
  rw [hi'] at hh
  -- the buffers before this one have the chunks from `dstp` on
  have hdstp := hpipe.le_of_held hfresh hh
  obtain ⟨hb, ho, hbo⟩ := hpipe.held _ o hh
  obtain ⟨m, hm⟩ := Nat.dvd_sub hb (hpipe.dvd_drained hlt)
  have ho' : o = s.dstp + m * j.bufferSize := by
    rw [Nat.mul_comm] at hm
    omega
  have hmi : m < i := by
    refine Nat.lt_of_mul_lt_mul_right (a := j.bufferSize) ?_
    omega
  rw [ho', j.buf_add_mul hbuf (by omega)] at hbo
  omega

/-- **The host fills a buffer**, and waits for it to have been drained before. -/
theorem step_fill (hj : Fits e c j) {k : ℕ} (hpc : s.pc = .fill k)
    (hpath : j.path = .hostToDevice) (hsrcp : s.srcp = s.dstp)
    (hcounts : Counts j s.bytesRemaining1 s.dstp) (hpipe : j.Pipe s.dstp s.dstp s.dev)
    (hk : s.dstp < j.size → k = j.buf s.dstp) (h : hostStep e c s = some t) :
    Stage j t ∧ j.left t < j.left s := by
  simp only [hostStep, hpc] at h
  by_cases hlt : s.dstp < j.size
  · obtain rfl := hk hlt
    rw [if_pos ((hcounts.positive_iff hj hpipe.le_size).2 hlt)] at h
    split at h
    swap
    · cases h
    rename_i hwait
    obtain rfl := Option.some.inj h
    have hlen := j.len_pos hlt
    have hend := j.add_len_le hpipe.le_size
    have hnone := held_of_fill hpath hpipe hwait.2
    rw [hcounts.theseBytes_eq hj hlt, hsrcp]
    refine ⟨.issue rfl hpath rfl hcounts hlt (hpipe.fill_memcpy hlt hnone), ?_⟩
    simp only [Transfer.left, State.filled, hpc, Pc.weight, hsrcp]
    have hwork : (s.dev.memcpy (.staging (j.buf s.dstp), 0) (.src, s.dstp) (j.len s.dstp)).work =
      s.dev.work := rfl
    omega
  · have hdone : s.dstp = j.size := Nat.le_antisymm hpipe.le_size (Nat.not_lt.1 hlt)
    rw [if_neg fun hpos => hlt ((hcounts.positive_iff hj hpipe.le_size).1 hpos)] at h
    obtain rfl := Option.some.inj h
    refine ⟨.draining 0 rfl (by rw [hpath]; nofun) hdone (hsrcp.trans hdone) (hdone ▸ hpipe)
      nofun, ?_⟩
    simp only [Transfer.left, State.filled, hpc, Pc.weight]
    omega

/-- **The device is to drain the buffer** that the host has filled. -/
theorem step_issue (hj : Fits e c j) (hpc : s.pc = .issue (j.buf s.dstp) (j.len s.dstp))
    (hpath : j.path = .hostToDevice) (hsrcp : s.srcp = s.dstp)
    (hcounts : Counts j s.bytesRemaining1 s.dstp) (hlt : s.dstp < j.size)
    (hpipe : j.Pipe (s.dstp + j.len s.dstp) s.dstp s.dev) (h : hostStep e c s = some t) :
    Stage j t ∧ j.left t < j.left s := by
  simp only [hostStep, hpc] at h
  obtain rfl := Option.some.inj h
  have hlen := j.len_pos hlt
  have hend := j.add_len_le hlt.le
  have hdvd := hpipe.dvd_drained hlt
  have hgiven := s.dev.given_asyncCopy (.dst, s.dstp) (.staging (j.buf s.dstp), 0) hlen.ne' none
    (.completion (j.buf s.dstp))
  have hdrain : (⟨(.dst, s.dstp), (.staging (j.buf s.dstp), 0), j.len s.dstp, none,
      .completion (j.buf s.dstp), Finset.range (j.len s.dstp)⟩ : AsyncCopy Buffer Signal) =
        j.drainCopy s.dstp none (Finset.range (j.len s.dstp)) := by
    rw [Transfer.drainCopy, hpath]
    rfl
  have hwork := hgiven.work_eq
  rw [hdrain] at hgiven
  have hnext := hpipe.drain_async (by rw [hpath]; decide) (Nat.lt_add_of_pos_right hlen)
    (.inl ⟨hpath, rfl⟩) hgiven
  rw [hsrcp]
  refine ⟨.fill _ rfl hpath rfl (hcounts.next hj hlt hdvd) hnext fun hlt' => ?_, ?_⟩
  · obtain ⟨heq, -⟩ := Transfer.dvd_next hdvd hlt'
    have hbuf := j.buf_lt s.dstp
    simp only [heq, j.buf_next, hj.numBuffers]
    split
    · have hround : j.buf s.dstp + 1 = j.buffers := by omega
      rw [hround, Nat.mod_self]
    · exact (Nat.mod_eq_of_lt (by omega)).symm
  · simp only [Transfer.left, State.filled, hpc, Pc.weight, hsrcp, hwork, AsyncCopy.work,
      Finset.card_range]
    simp only [Option.isSome_none, Bool.false_eq_true, if_false]
    omega

/-- **The host tests** whether all chunks have been taken from the buffers. -/
theorem step_loop (hj : Fits e c j) (hpc : s.pc = .loop) (hpath : j.path ≠ .hostToDevice)
    (hsrcp : s.srcp = s.dstp) (hcounts0 : Counts j s.bytesRemaining0 s.srcp)
    (hcounts1 : Counts j s.bytesRemaining1 s.dstp) (hpipe : j.Pipe s.srcp s.dstp s.dev)
    (hbuf : s.dstp < j.size → j.buf s.dstp = 0) (h : hostStep e c s = some t) :
    Stage j t ∧ j.left t < j.left s := by
  have hsize := hpipe.le.trans hpipe.le_size
  simp only [hostStep, hpc] at h
  obtain rfl := Option.some.inj h
  by_cases hlt : s.dstp < j.size
  · rw [if_pos ((hcounts1.positive_iff hj hsize).2 hlt)]
    refine ⟨.launching 0 rfl hpath hcounts0 hcounts1 hpipe hlt (hbuf hlt) (Nat.zero_le _) ?_ ?_,
      ?_⟩
    · exact hsrcp.le.trans (Nat.le_add_right _ _)
    · simp [hsrcp]
    · simp only [Transfer.left, State.filled, hpc, Pc.weight]
      omega
  · have hdone : s.dstp = j.size := Nat.le_antisymm hsize (Nat.not_lt.1 hlt)
    have hpipe' : j.Pipe j.size j.size s.dev := by
      rw [hsrcp, hdone] at hpipe
      exact hpipe
    rw [if_neg fun hpos => hlt ((hcounts1.positive_iff hj hsize).1 hpos), hj.path]
    by_cases hp : j.path = .peerToPeer
    · rw [if_pos hp]
      refine ⟨.draining 0 rfl (by rw [hp]; nofun) hdone (hsrcp.trans hdone) hpipe' nofun, ?_⟩
      simp only [Transfer.left, State.filled, hpc, Pc.weight]
      omega
    · rw [if_neg hp]
      have hhost : j.path = .deviceToHost := by
        rcases hp' : j.path with _ | _ | _
        · exact absurd hp' hpath
        · rfl
        · exact absurd hp' hp
      refine ⟨.returned rfl hpipe' (hpipe'.running_eq_nil fun k _ =>
        hpipe'.drainSignal_not_mem hhost k), ?_⟩
      simp only [Transfer.left, State.filled, hpc, Pc.weight]
      omega

/-- **The device is to fill the buffers**, those of them that have been drained. -/
theorem step_launching (hj : Fits e c j) {i : ℕ} (hpc : s.pc = .launching i)
    (hpath : j.path ≠ .hostToDevice) (hcounts0 : Counts j s.bytesRemaining0 s.srcp)
    (hcounts1 : Counts j s.bytesRemaining1 s.dstp) (hpipe : j.Pipe s.srcp s.dstp s.dev)
    (hlt : s.dstp < j.size) (hbuf : j.buf s.dstp = 0) (hi : i ≤ j.buffers)
    (hle : s.srcp ≤ s.dstp + i * j.bufferSize)
    (heq : s.srcp < j.size → s.srcp = s.dstp + i * j.bufferSize) (h : hostStep e c s = some t) :
    Stage j t ∧ j.left t < j.left s := by
  have hpositive := hcounts0.positive_iff hj hpipe.le_size
  simp only [hostStep, hpc, lt_numBuffers hj] at h
  by_cases hmore : s.srcp < j.size ∧ i < j.buffers
  · rw [if_pos ⟨hpositive.2 hmore.1, hmore.2⟩, hj.path] at h
    split at h
    · cases h
    rename_i hwait
    obtain rfl := Option.some.inj h
    obtain ⟨hsrcp, hib⟩ := hmore
    have hlen := j.len_pos hsrcp
    have hend := j.add_len_le hsrcp.le
    obtain ⟨hi', hnone⟩ := held_of_launching hpath hpipe hlt hbuf hib (heq hsrcp) fun hp =>
      not_not.1 fun hn => hwait ⟨hp, hn⟩
    have hsucc : (i + 1) * j.bufferSize = i * j.bufferSize + j.bufferSize := Nat.succ_mul _ _
    have hgiven := s.dev.given_asyncCopy (.staging (j.buf s.srcp), 0) (.src, s.srcp) hlen.ne' none
      (.completion (j.buf s.srcp))
    have hwork := hgiven.work_eq
    have hnext := hpipe.fill_async hpath hsrcp hnone hgiven
    rw [hcounts0.theseBytes_eq hj hsrcp]
    rw [hi'] at hwork hnext
    refine ⟨.launching (i + 1) rfl hpath (hcounts0.next hj hsrcp (hpipe.dvd_filled hsrcp))
      hcounts1 hnext hlt hbuf hib ?_ ?_, ?_⟩
    · have := j.len_le s.srcp
      simp only [hsucc]
      omega
    · intro hlt'
      obtain ⟨hadd, -⟩ := Transfer.dvd_next (hpipe.dvd_filled hsrcp) hlt'
      have := heq hsrcp
      simp only [hsucc]
      omega
    · simp only [Transfer.left, State.filled, hpc, Pc.weight, hwork, AsyncCopy.work,
        Finset.card_range, Option.isSome_none, Bool.false_eq_true, if_false]
      omega
  · rw [if_neg fun hif => hmore ⟨hpositive.1 hif.1, hif.2⟩] at h
    obtain rfl := Option.some.inj h
    have hend : s.srcp < j.size → i = j.buffers := fun hsrcp =>
      Nat.le_antisymm hi (Nat.not_lt.1 fun hib => hmore ⟨hsrcp, hib⟩)
    refine ⟨.unloading 0 rfl hpath hcounts0 hcounts1 hpipe (fun _ => hlt) ?_ (Nat.zero_le _) ?_ ?_,
      ?_⟩
    · exact fun _ => hbuf.trans (Nat.zero_mod _).symm
    · refine hle.trans (Nat.add_le_add_left (Nat.mul_le_mul_right _ ?_) _)
      exact hi
    · intro hsrcp
      have := heq hsrcp
      rw [hend hsrcp] at this
      exact this
    · simp only [Transfer.left, State.filled, hpc, Pc.weight]
      omega

/-- **The buffers are drained**, by the host or by the device. -/
theorem step_unloading (hj : Fits e c j) {i : ℕ} (hpc : s.pc = .unloading i)
    (hpath : j.path ≠ .hostToDevice) (hcounts0 : Counts j s.bytesRemaining0 s.srcp)
    (hcounts1 : Counts j s.bytesRemaining1 s.dstp) (hpipe : j.Pipe s.srcp s.dstp s.dev)
    (hfirst : i = 0 → s.dstp < j.size) (hbuf : s.dstp < j.size → j.buf s.dstp = i % j.buffers)
    (hi : i ≤ j.buffers) (hle : s.srcp ≤ s.dstp + (j.buffers - i) * j.bufferSize)
    (heq : s.srcp < j.size → s.srcp = s.dstp + (j.buffers - i) * j.bufferSize)
    (h : hostStep e c s = some t) : Stage j t ∧ j.left t < j.left s := by
  have hsize := hpipe.le.trans hpipe.le_size
  have hpositive := hcounts1.positive_iff hj hsize
  simp only [hostStep, hpc, lt_numBuffers hj] at h
  by_cases hmore : s.dstp < j.size ∧ i < j.buffers
  · rw [if_pos ⟨hpositive.2 hmore.1, hmore.2⟩, hj.path] at h
    obtain ⟨hdstp, hib⟩ := hmore
    have hlen := j.len_pos hdstp
    have hend := j.add_len_le hdstp.le
    have hdvd := hpipe.dvd_drained hdstp
    have hi' : j.buf s.dstp = i := (hbuf hdstp).trans (Nat.mod_eq_of_lt hib)
    have hsucc : (j.buffers - i) * j.bufferSize =
        (j.buffers - (i + 1)) * j.bufferSize + j.bufferSize := by
      rw [← Nat.succ_mul]
      congr 1
      omega
    have hlt : s.dstp < s.srcp := by
      rcases Nat.lt_or_ge s.srcp j.size with hsrcp | hsrcp
      · have := heq hsrcp
        have := j.bufferSize_pos
        omega
      · omega
    -- what the next stage says, whoever drains the buffer
    have hstage : ∀ d', j.Pipe s.srcp (s.dstp + j.len s.dstp) d' →
        d'.work ≤ s.dev.work + j.len s.dstp + 2 →
        Stage j { s with
          dev := d', pc := .unloading (i + 1), dstp := s.dstp + j.len s.dstp
          bytesRemaining1 := sub64 s.bytesRemaining1 e.bufferSize } ∧
        j.left { s with
          dev := d', pc := .unloading (i + 1), dstp := s.dstp + j.len s.dstp
          bytesRemaining1 := sub64 s.bytesRemaining1 e.bufferSize } < j.left s := by
      intro d' hpipe' hwork
      refine ⟨.unloading (i + 1) rfl hpath hcounts0 (hcounts1.next hj hdstp hdvd) hpipe'
        (by simp) ?_
        hib ?_ ?_, ?_⟩
      · intro hlt'
        obtain ⟨hadd, -⟩ := Transfer.dvd_next hdvd hlt'
        simp only [hadd, j.buf_next, hi']
      · rcases Nat.lt_or_ge s.srcp j.size with hsrcp | hsrcp
        · have hadd : j.len s.dstp = j.bufferSize := by
            have := Transfer.add_len_le_of_lt hdvd hpipe.dvd_filled hlt hpipe.le_size
            obtain ⟨hadd, -⟩ := Transfer.dvd_next hdvd (Nat.lt_of_le_of_lt this hsrcp)
            omega
          have := heq hsrcp
          simp only
          omega
        · have := hpipe.le_size
          simp only [Transfer.len]
          omega
      · intro hsrcp
        have hadd : j.len s.dstp = j.bufferSize := by
          have := Transfer.add_len_le_of_lt hdvd hpipe.dvd_filled hlt hpipe.le_size
          obtain ⟨hadd, -⟩ := Transfer.dvd_next hdvd (Nat.lt_of_le_of_lt this hsrcp)
          omega
        have := heq hsrcp
        simp only
        omega
      · have hweight : s.pc.weight j.buffers ≥ j.buffers + 2 := by
          rw [hpc]
          cases i <;> simp [Pc.weight]
        have hfilled : s.filled = s.srcp := by rw [State.filled, hpc]
        have hnext : Pc.weight j.buffers (.unloading (i + 1)) = j.buffers + 5 := rfl
        simp only [Transfer.left, hfilled, hnext]
        simp only [State.filled]
        omega
    rw [hcounts1.theseBytes_eq hj hdstp] at h
    split at h
    · rename_i hp
      obtain rfl := Option.some.inj h
      have hgiven := s.dev.given_asyncCopy (.dst, s.dstp) (.staging (j.buf s.dstp), 0) hlen.ne'
        (some (.completion (j.buf s.dstp))) (.completion2 (j.buf s.dstp))
      have hwork := hgiven.work_eq
      have hdrain : (⟨(.dst, s.dstp), (.staging (j.buf s.dstp), 0), j.len s.dstp,
          some (.completion (j.buf s.dstp)), .completion2 (j.buf s.dstp),
          Finset.range (j.len s.dstp)⟩ : AsyncCopy Buffer Signal) =
            j.drainCopy s.dstp (some (.completion (j.buf s.dstp)))
              (Finset.range (j.len s.dstp)) := by
        rw [Transfer.drainCopy, hp]
        rfl
      rw [hdrain] at hgiven
      have hnext := hpipe.drain_async (by rw [hp]; decide) hlt (.inr ⟨hp, rfl⟩) hgiven
      rw [hi'] at hwork hnext
      refine hstage _ hnext ?_
      rw [hwork]
      simp only [AsyncCopy.work, Finset.card_range, Option.isSome_some, if_true]
      omega
    · rename_i hp
      split at h
      · rename_i hwait
        obtain rfl := Option.some.inj h
        have hhost : j.path = .deviceToHost := by
          rcases hp' : j.path with _ | _ | _
          · exact absurd hp' hpath
          · rfl
          · exact absurd hp' hp
        have huses : j.Uses (.completion (j.buf s.dstp)) := j.buf_lt s.dstp
        have hfill : ¬j.Filling s.dev (j.buf s.dstp) := fun hf =>
          hpipe.not_mem_completions huses (by rw [hi']; exact hwait) hf.2
        have hnext := hpipe.drain_memcpy hhost hlt hfill
        rw [hi'] at hnext
        refine hstage _ hnext ?_
        have hwork : (s.dev.memcpy (.dst, s.dstp) (.staging i, 0) (j.len s.dstp)).work =
          s.dev.work := rfl
        omega
      · cases h
  · rw [if_neg fun hif => hmore ⟨hpositive.1 hif.1, hif.2⟩] at h
    obtain rfl := Option.some.inj h
    have hpos := j.buffers_pos
    have hi0 : i ≠ 0 := fun h0 => hmore ⟨hfirst h0, by omega⟩
    have hlast : s.dstp < j.size → i = j.buffers := fun hdstp =>
      Nat.le_antisymm hi (Nat.not_lt.1 fun hib => hmore ⟨hdstp, hib⟩)
    have hsrcp : s.srcp = s.dstp := by
      rcases Nat.lt_or_ge s.dstp j.size with hdstp | hdstp
      · rw [hlast hdstp, Nat.sub_self, Nat.zero_mul] at hle
        exact Nat.le_antisymm hle hpipe.le
      · exact Nat.le_antisymm (hpipe.le_size.trans hdstp) hpipe.le
    refine ⟨.loop rfl hpath hsrcp hcounts0 hcounts1 hpipe fun hdstp => ?_, ?_⟩
    · have := hbuf hdstp
      rw [hlast hdstp, Nat.mod_self] at this
      exact this
    · obtain ⟨i, rfl⟩ := Nat.exists_eq_succ_of_ne_zero hi0
      simp only [Transfer.left, State.filled, hpc, Pc.weight]
      omega

/-- **The host waits** for the last chunks. -/
theorem step_draining (hj : Fits e c j) {i : ℕ} (hpc : s.pc = .draining i)
    (hpath : j.path ≠ .deviceToHost) (hdstp : s.dstp = j.size) (hsrcp : s.srcp = j.size)
    (hpipe : j.Pipe j.size j.size s.dev)
    (hdrained : ∀ k < i, k < j.buffers → drainSignal j.path k ∉ Transfer.completions s.dev)
    (h : hostStep e c s = some t) : Stage j t ∧ j.left t < j.left s := by
  simp only [hostStep, hpc, hj.path, lt_numBuffers hj] at h
  by_cases hi : i < j.buffers
  · rw [if_pos hi] at h
    split at h
    · rename_i hwait
      obtain rfl := Option.some.inj h
      refine ⟨.draining (i + 1) rfl hpath hdstp hsrcp hpipe fun k hk hkb => ?_, ?_⟩
      · rcases Nat.lt_or_ge k i with hki | hki
        · exact hdrained k hki hkb
        · obtain rfl : k = i := by omega
          exact hpipe.not_mem_completions (j.uses_drainSignal hpath hi) hwait
      · simp only [Transfer.left, State.filled, hpc, Pc.weight]
        omega
    · cases h
  · rw [if_neg hi] at h
    obtain rfl := Option.some.inj h
    refine ⟨.returned rfl hpipe (hpipe.running_eq_nil fun k hk => hdrained k (by omega) hk), ?_⟩
    simp only [Transfer.left, State.filled, hpc, Pc.weight]
    omega

/-- **Every step** of host, device and dependency leads to the next stage, and leaves less to
do. -/
theorem Stage.step (hj : Fits e c j) (hs : Stage j s) {who : Who} (h : Step e c s who t) :
    Stage j t ∧ j.left t < j.left s := by
  cases h with
  | host h =>
    cases hs with
    | waitFor hpc hdev hsrcp hdstp h0 h1 => exact step_waitFor hj hpc hdev hsrcp hdstp h0 h1 h
    | fill k hpc hpath hsrcp hcounts hpipe hk =>
      exact step_fill hj hpc hpath hsrcp hcounts hpipe hk h
    | issue hpc hpath hsrcp hcounts hlt hpipe =>
      exact step_issue hj hpc hpath hsrcp hcounts hlt hpipe h
    | loop hpc hpath hsrcp hcounts0 hcounts1 hpipe hbuf =>
      exact step_loop hj hpc hpath hsrcp hcounts0 hcounts1 hpipe hbuf h
    | launching i hpc hpath hcounts0 hcounts1 hpipe hlt hbuf hi hle heq =>
      exact step_launching hj hpc hpath hcounts0 hcounts1 hpipe hlt hbuf hi hle heq h
    | unloading i hpc hpath hcounts0 hcounts1 hpipe hfirst hbuf hi hle heq =>
      exact step_unloading hj hpc hpath hcounts0 hcounts1 hpipe hfirst hbuf hi hle heq h
    | draining i hpc hpath hdstp hsrcp hpipe hdrained =>
      exact step_draining hj hpc hpath hdstp hsrcp hpipe hdrained h
    | returned hpc => simp [hostStep, hpc] at h
  | device h =>
    have hwork := h.work_lt
    refine ⟨?_, ?_⟩
    · cases hs with
      | waitFor hpc hdev hsrcp hdstp h0 h1 =>
        obtain ⟨signal, hdev⟩ := hdev
        rw [hdev] at hwork
        exact absurd hwork (Nat.not_lt_zero _)
      | fill k hpc hpath hsrcp hcounts hpipe hk =>
        exact .fill k hpc hpath hsrcp hcounts (hpipe.step h) hk
      | issue hpc hpath hsrcp hcounts hlt hpipe =>
        exact .issue hpc hpath hsrcp hcounts hlt (hpipe.step h)
      | loop hpc hpath hsrcp hcounts0 hcounts1 hpipe hbuf =>
        exact .loop hpc hpath hsrcp hcounts0 hcounts1 (hpipe.step h) hbuf
      | launching i hpc hpath hcounts0 hcounts1 hpipe hlt hbuf hi hle heq =>
        exact .launching i hpc hpath hcounts0 hcounts1 (hpipe.step h) hlt hbuf hi hle heq
      | unloading i hpc hpath hcounts0 hcounts1 hpipe hfirst hbuf hi hle heq =>
        exact .unloading i hpc hpath hcounts0 hcounts1 (hpipe.step h) hfirst hbuf hi hle heq
      | draining i hpc hpath hdstp hsrcp hpipe hdrained =>
        exact .draining i hpc hpath hdstp hsrcp (hpipe.step h) fun k hk hkb hin =>
          hdrained k hk hkb (Transfer.completions_of_step h hin)
      | returned hpc hpipe hrunning =>
        simp [CopyDevice.work, hrunning] at hwork
    · simp only [Transfer.left, State.filled]
      omega
  | dependency h =>
    refine ⟨?_, ?_⟩
    · cases hs with
      | waitFor hpc hdev hsrcp hdstp h0 h1 => exact .waitFor hpc hdev hsrcp hdstp h0 h1
      | fill k hpc hpath hsrcp hcounts hpipe hk => exact .fill k hpc hpath hsrcp hcounts hpipe hk
      | issue hpc hpath hsrcp hcounts hlt hpipe => exact .issue hpc hpath hsrcp hcounts hlt hpipe
      | loop hpc hpath hsrcp hcounts0 hcounts1 hpipe hbuf =>
        exact .loop hpc hpath hsrcp hcounts0 hcounts1 hpipe hbuf
      | launching i hpc hpath hcounts0 hcounts1 hpipe hlt hbuf hi hle heq =>
        exact .launching i hpc hpath hcounts0 hcounts1 hpipe hlt hbuf hi hle heq
      | unloading i hpc hpath hcounts0 hcounts1 hpipe hfirst hbuf hi hle heq =>
        exact .unloading i hpc hpath hcounts0 hcounts1 hpipe hfirst hbuf hi hle heq
      | draining i hpc hpath hdstp hsrcp hpipe hdrained =>
        exact .draining i hpc hpath hdstp hsrcp hpipe hdrained
      | returned hpc hpipe hrunning => exact .returned hpc hpipe hrunning
    · simp only [Transfer.left, State.filled, h]
      simp

/-! ### What the stages say -/

/-- A call starts with nothing on its way. -/
theorem Stage.start (hj : Fits e c j) (signal : Signal → ℤ) (waiting locked : Bool) :
    Stage j (start c j.mem signal waiting locked) := by
  refine .waitFor ?_ ⟨signal, rfl⟩ rfl rfl hj.sizeBytes hj.sizeBytes
  rw [UnpinnedCopy.start, hj.method]
  rfl

theorem exists_step_of_host (h : (hostStep e c s).isSome = true) : ∃ who t, Step e c s who t := by
  obtain ⟨t, ht⟩ := Option.isSome_iff_exists.1 h
  exact ⟨.host, t, .host ht⟩

/-- **Somebody can take a step** until the call returns. -/
theorem Stage.exists_step (hj : Fits e c j) (hs : Stage j s) (hpc : s.pc ≠ .returned) :
    ∃ who t, Step e c s who t := by
  have hdevice : ∀ {F D : ℕ}, j.Pipe F D s.dev → s.dev.running ≠ [] → ∃ who t, Step e c s who t :=
    fun hpipe hne => by
      obtain ⟨d, hd⟩ := hpipe.exists_step hne
      exact ⟨.device, _, .device hd⟩
  cases hs with
  | waitFor hpc hdev hsrcp hdstp h0 h1 =>
    cases hr : s.resolved with
    | false => exact ⟨.dependency, _, .dependency hr⟩
    | true => exact exists_step_of_host (by simp [hostStep, hpc, hr])
  | fill k hpc hpath hsrcp hcounts hpipe hk =>
    have hpositive := hcounts.positive_iff hj hpipe.le_size
    by_cases hlt : s.dstp < j.size
    · obtain rfl := hk hlt
      have hkb := (lt_numBuffers hj).2 (j.buf_lt s.dstp)
      have huses : j.Uses (.completion (j.buf s.dstp)) := j.buf_lt s.dstp
      by_cases hwait : s.dev.signal (.completion (j.buf s.dstp)) < 1
      · exact exists_step_of_host (by simp [hostStep, hpc, hpositive, hlt, hkb, hwait])
      · exact hdevice hpipe (hpipe.running_ne_nil huses hwait)
    · exact exists_step_of_host (by simp [hostStep, hpc, hpositive, hlt])
  | issue hpc => exact exists_step_of_host (by simp [hostStep, hpc])
  | loop hpc => exact exists_step_of_host (by simp [hostStep, hpc])
  | launching i hpc hpath hcounts0 hcounts1 hpipe =>
    by_cases hwait : i < j.buffers ∧ c.path = .peerToPeer ∧
        ¬s.dev.signal (.completion2 i) < 1
    · obtain ⟨hib, hp, hwait⟩ := hwait
      have huses : j.Uses (.completion2 i) := ⟨hib, hj.path ▸ hp⟩
      exact hdevice hpipe (hpipe.running_ne_nil huses hwait)
    · refine exists_step_of_host ?_
      simp only [hostStep, hpc, lt_numBuffers hj]
      split
      · rename_i hmore
        rw [if_neg fun hp => hwait ⟨hmore.2, hp⟩]
        rfl
      · rfl
  | unloading i hpc hpath hcounts0 hcounts1 hpipe =>
    by_cases hwait : i < j.buffers ∧ ¬s.dev.signal (.completion i) < 1
    · obtain ⟨hib, hwait⟩ := hwait
      have huses : j.Uses (.completion i) := hib
      exact hdevice hpipe (hpipe.running_ne_nil huses hwait)
    · refine exists_step_of_host ?_
      simp only [hostStep, hpc, lt_numBuffers hj]
      split
      · rename_i hmore
        split
        · rfl
        · rw [if_pos (not_not.1 fun hn => hwait ⟨hmore.2, hn⟩)]
          rfl
      · rfl
  | draining i hpc hpath hdstp hsrcp hpipe =>
    by_cases hwait : i < j.buffers ∧ ¬s.dev.signal (drainSignal j.path i) < 1
    · exact hdevice hpipe (hpipe.running_ne_nil (j.uses_drainSignal hpath hwait.1) hwait.2)
    · refine exists_step_of_host ?_
      simp only [hostStep, hpc, lt_numBuffers hj, hj.path]
      split
      · rename_i hib
        rw [if_pos (not_not.1 fun hn => hwait ⟨hib, hn⟩)]
        rfl
      · rfl
  | returned hpc' => exact absurd hpc' hpc

/-- **A buffer is filled** only when it holds nothing. -/
theorem Stage.held_of_fills (hj : Fits e c j) (hs : Stage j s) {k : ℕ}
    (h : fills e c s = some k) : s.dev.held (.staging k) = none := by
  rw [fills] at h
  split at h
  · cases h
  rename_i hstep
  cases hs with
  | fill k' hpc hpath hsrcp hcounts hpipe hk =>
    simp only [hpc] at h
    split at h
    · rename_i hpos
      obtain rfl := Option.some.inj h
      have hlt := (hcounts.positive_iff hj hpipe.le_size).1 hpos
      obtain rfl := hk hlt
      refine held_of_fill hpath hpipe (not_not.1 fun hwait => hstep ?_)
      simp [hostStep, hpc, hpos, hwait]
    · cases h
  | launching i hpc hpath hcounts0 hcounts1 hpipe hlt hbuf hi hle heq =>
    simp only [hpc] at h
    split at h
    · rename_i hmore
      obtain rfl := Option.some.inj h
      have hsrcp := (hcounts0.positive_iff hj hpipe.le_size).1 hmore.1
      have hib := (lt_numBuffers hj).1 hmore.2
      obtain ⟨hbuf', hnone⟩ := held_of_launching hpath hpipe hlt hbuf hib (heq hsrcp) fun hp =>
        not_not.1 fun hwait => hstep (by
          simp only [hostStep, hpc]
          rw [if_pos hmore, if_pos ⟨hj.path.trans hp, hwait⟩]
          rfl)
      rw [hbuf'] at hnone
      exact hnone
    · cases h
  | waitFor hpc | issue hpc | loop hpc | unloading i hpc | draining i hpc | returned hpc =>
    simp [hpc] at h

/-- **Nothing but the bytes of the copy** is touched. -/
theorem Stage.frame (hs : Stage j s) : (s.dev.extent .src ≤ j.size ∧ s.dev.extent .dst ≤ j.size ∧
    ∀ k, s.dev.extent (.staging k) ≤ j.bufferSize) ∧
      s.dev.mem .src = j.mem .src ∧ ∀ x, j.size ≤ x → s.dev.mem .dst x = j.mem .dst x := by
  have hpipe : ∀ {F D : ℕ}, j.Pipe F D s.dev → (s.dev.extent .src ≤ j.size ∧
      s.dev.extent .dst ≤ j.size ∧ ∀ k, s.dev.extent (.staging k) ≤ j.bufferSize) ∧
        s.dev.mem .src = j.mem .src ∧ ∀ x, j.size ≤ x → s.dev.mem .dst x = j.mem .dst x := fun h =>
    ⟨⟨h.extent_src, h.extent_dst, h.extent_staging⟩, h.src, fun x hx =>
      h.ahead x (h.le.trans (h.le_size.trans hx))⟩
  cases hs with
  | waitFor hpc hdev =>
    obtain ⟨signal, hdev⟩ := hdev
    rw [hdev]
    exact ⟨⟨Nat.zero_le _, Nat.zero_le _, fun _ => Nat.zero_le _⟩, rfl, fun _ _ => rfl⟩
  | fill k hpc hpath hsrcp hcounts h => exact hpipe h
  | issue hpc hpath hsrcp hcounts hlt h => exact hpipe h
  | loop hpc hpath hsrcp hcounts0 hcounts1 h => exact hpipe h
  | launching i hpc hpath hcounts0 hcounts1 h => exact hpipe h
  | unloading i hpc hpath hcounts0 hcounts1 h => exact hpipe h
  | draining i hpc hpath hdstp hsrcp h => exact hpipe h
  | returned hpc h => exact hpipe h

/-- **What has been copied** when the call has returned. -/
theorem Stage.result (hs : Stage j s) (hpc : s.pc = .returned) :
    s.dev.running = [] ∧ ∀ x < j.size, s.dev.mem .dst x = j.mem .src x := by
  cases hs with
  | returned hpc' hpipe hrunning =>
    refine ⟨hrunning, fun x hx => hpipe.copied x hx fun c hc => ?_⟩
    rw [hrunning] at hc
    cases hc
  | waitFor hpc' | fill k hpc' | issue hpc' | loop hpc' | launching i hpc' | unloading i hpc'
  | draining i hpc' =>
    rw [hpc'] at hpc
    cases hpc

/-- The pinned functions' places are not among the stages. -/
theorem Stage.staged (hs : Stage j s) : s.pc ≠ .lock ∧ s.pc ≠ .unlock := by
  cases hs with
  | waitFor hpc | fill k hpc | issue hpc | loop hpc | launching i hpc | unloading i hpc
  | draining i hpc | returned hpc =>
    rw [hpc]
    exact ⟨nofun, nofun⟩

end Codrive.UnpinnedCopy
