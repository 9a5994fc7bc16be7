/-
# Runs of a kernel queue

Packets are acquired, written, submitted and rolled back while the device reads what was submitted.
Behind the positions in the ring stand counters of dwords that only a rollback takes back: what the
device has read, what was submitted and what was handed out, in this order and less than a round
apart.  Every position the code computes is the slot of its counter, so that the room it hands out
lies ahead of everything the device still has to read.
-/

import Codrive.Basis.Run
import Codrive.Kq.Ring

namespace Codrive.Kq

open Codrive.Basis

/-- A kernel queue, its device and its users. -/
structure State where
  kq : KernelQueue
  /-- The number of dwords the device has read. -/
  read : ℕ := 0
  /-- The buffers handed out since the last submission or rollback, with their sizes. -/
  buffers : List (ℕ × ℕ) := []
  /-- The pending pointers at the last submission, in both widths. -/
  submitted : ℕ × ℕ := (0, 0)
  /-- The number of dwords that were handed out and taken back by a rollback. -/
  takenBack : ℕ := 0

/-- A call of the driver, a dword written into a buffer, or the device going on. -/
inductive Op where
  | acquire (packet_size_in_dwords : ℕ)
  | write (i value : ℕ)
  | submit
  | rollback
  | advance (count : ℕ)

/-- What a call of `kq_acquire_packet_buffer` leaves. -/
def State.acquired (s : State) (packet_size_in_dwords : ℕ) : Int × Option ℕ × KernelQueue → State
  | (_, some buffer, kq) =>
    { s with kq := kq, buffers := (buffer, packet_size_in_dwords) :: s.buffers }
  | (_, none, kq) => { s with kq := kq }

/-- What happens in a step.  A caller writes into the buffers it was handed; the device reads no
further than the published pointer. -/
def State.Step (s : State) (op : Op) (t : State) : Prop :=
  match op with
  | .acquire packet_size_in_dwords =>
    t = s.acquired packet_size_in_dwords (kqAcquirePacketBuffer s.kq packet_size_in_dwords)
  | .write i value =>
    (∃ b ∈ s.buffers, b.1 ≤ i ∧ i < b.1 + b.2) ∧
      t = { s with kq := { s.kq with pq := Function.update s.kq.pq i value } }
  | .submit =>
    t = { s with
      kq := kqSubmitPacket s.kq
      buffers := []
      submitted := (s.kq.pending_wptr, s.kq.pending_wptr64) }
  | .rollback =>
    t = { s with
      kq := kqRollbackPacket s.kq
      buffers := []
      takenBack := s.takenBack + ringDist s.kq.dwords s.submitted.1 s.kq.pending_wptr }
  | .advance count =>
    count ≤ ringDist s.kq.dwords s.kq.rptr s.kq.published ∧
      t = { s with
        kq := { s.kq with rptr := (s.kq.rptr + count) % s.kq.dwords }
        read := s.read + count }

/-- The queue fits its words: a power of two of dwords, and positions inside the ring. -/
structure KernelQueue.Fits (kq : KernelQueue) : Prop where
  size : ∃ k, k < 30 ∧ kq.queue_size = 2 ^ (k + 2)
  rptr_lt : kq.rptr < kq.dwords
  wptr_lt : kq.pending_wptr < kq.dwords
  wptr64_lt : kq.pending_wptr64 < 2 ^ 64

theorem dwords_of_size {kq : KernelQueue} {k : ℕ} (h : kq.queue_size = 2 ^ (k + 2)) :
    kq.dwords = 2 ^ k := by
  rw [KernelQueue.dwords, h, Nat.pow_add, Nat.mul_div_cancel _ (by decide)]

theorem KernelQueue.Fits.dwords_dvd {kq : KernelQueue} (h : kq.Fits) : kq.dwords ∣ 2 ^ 30 := by
  obtain ⟨k, hk, hsize⟩ := h.size
  rw [dwords_of_size hsize]
  exact Nat.pow_dvd_pow 2 (Nat.le_of_lt hk)

theorem KernelQueue.Fits.dwords_le {kq : KernelQueue} (h : kq.Fits) : kq.dwords ≤ 2 ^ 30 :=
  Nat.le_of_dvd (by decide) h.dwords_dvd

/-- **What an acquisition computes**, without the wrap-around. -/
theorem kqAcquirePacketBuffer_eq {kq : KernelQueue} (h : kq.Fits) (packet : ℕ) :
    kqAcquirePacketBuffer kq packet =
      if kq.dwords - 1 - kq.ahead < packet then (ENOMEM, none, kq)
      else if kq.dwords ≤ kq.pending_wptr + packet then
        if kq.rptr ≤ packet then (ENOMEM, none, kq)
        else (0, some 0, { kq with
          pq := fun i => if kq.pending_wptr ≤ i ∧ i < kq.dwords then kq.nop_packet else kq.pq i
          pending_wptr := packet
          pending_wptr64 := u64 (kq.pending_wptr64 + (kq.dwords - kq.pending_wptr) + packet) })
      else (0, some kq.pending_wptr, { kq with
        pending_wptr := kq.pending_wptr + packet
        pending_wptr64 := u64 (kq.pending_wptr64 + packet) }) := by
  have hle := h.dwords_le
  have hr := h.rptr_lt
  have hw := h.wptr_lt
  have hfree : sub64 (sub64 (u64 (kq.rptr + kq.dwords)) 1) kq.pending_wptr % kq.dwords =
      kq.dwords - 1 - kq.ahead := by
    have hone : sub64 (kq.rptr + kq.dwords) 1 = kq.rptr + kq.dwords - 1 :=
      sub64_of_le (by omega) (by omega)
    rw [u64_of_lt (by omega), hone, sub64_of_le (by omega) (by omega), free_eq hr hw,
      KernelQueue.ahead]
  unfold kqAcquirePacketBuffer
  simp only [hfree]
  by_cases hroom : kq.dwords - 1 - kq.ahead < packet
  · rw [if_pos hroom, if_pos hroom]
  rw [if_neg hroom, if_neg hroom]
  have hsum : u64 (kq.pending_wptr + packet) = kq.pending_wptr + packet := u64_of_lt (by omega)
  rw [hsum]
  by_cases hend : kq.dwords ≤ kq.pending_wptr + packet
  · rw [if_pos hend, if_pos hend]
    by_cases hrptr : kq.rptr ≤ packet
    · rw [if_pos hrptr, if_pos hrptr]
    · have hpos : 0 < kq.pending_wptr := by omega
      have hfill : fillNops kq.nop_packet kq.dwords (kq.dwords + 1)
          ⟨kq.pq, kq.pending_wptr, kq.pending_wptr64⟩ =
          ⟨fun i => if kq.pending_wptr ≤ i ∧ i < kq.dwords then kq.nop_packet else kq.pq i, 0,
            u64 (kq.pending_wptr64 + (kq.dwords - kq.pending_wptr))⟩ := by
        rw [← fillNops_eq (kq.dwords + 1) (by omega) (Nat.le_of_lt hw) hpos (by omega) h.wptr64_lt,
          Nat.mod_eq_of_lt hw]
      have h64 : u64 (u64 (kq.pending_wptr64 + (kq.dwords - kq.pending_wptr)) + packet) =
          u64 (kq.pending_wptr64 + (kq.dwords - kq.pending_wptr) + packet) := by
        unfold u64 wrap
        omega
      have h32 : wrap 32 (0 + packet) = packet := by
        rw [Nat.zero_add, wrap_of_lt (by omega)]
      rw [if_neg hrptr, if_neg hrptr, hfill, h64, h32]
  · have h32 : wrap 32 (kq.pending_wptr + packet) = kq.pending_wptr + packet :=
      wrap_of_lt (by omega)
    rw [if_neg hend, if_neg hend, h32]

/-- The dwords by which the 64-bit pending pointer has run away from the 32-bit one. -/
def State.skew (s : State) : ℕ := if s.kq.doorbell_size = 8 then 0 else s.takenBack

/-- The counters behind the positions: the device has read `s.read` dwords, `sub` are submitted and
`pend` handed out. -/
structure State.Counts (s : State) (sub pend : ℕ) : Prop where
  size : ∃ k, k < 30 ∧ s.kq.queue_size = 2 ^ (k + 2)
  read_le : s.read ≤ sub
  sub_le : sub ≤ pend
  pend_lt : pend < s.read + s.kq.dwords
  rptr : s.kq.rptr = s.read % s.kq.dwords
  pending : s.kq.pending_wptr = pend % s.kq.dwords
  pending64 : s.kq.pending_wptr64 = u64 (pend + s.skew)
  submitted : s.submitted.1 = sub % s.kq.dwords
  wide : s.kq.doorbell_size = 8 → s.kq.wptr_mem = u64 sub ∧ s.submitted.2 = u64 sub
  narrow : s.kq.doorbell_size ≠ 8 → s.kq.wptr = sub % s.kq.dwords
  /-- A buffer handed out lies between what is submitted and what is pending. -/
  buffers : ∀ b ∈ s.buffers, ∃ x, sub ≤ x ∧ x + b.2 ≤ pend ∧ b.1 = x % s.kq.dwords ∧
    b.1 + b.2 < s.kq.dwords

section Counts

variable {s : State} {sub pend : ℕ}

theorem State.Counts.dwords_pos (h : s.Counts sub pend) : 0 < s.kq.dwords := by
  obtain ⟨k, -, hsize⟩ := h.size
  rw [dwords_of_size hsize]
  exact Nat.two_pow_pos k

theorem State.Counts.fits (h : s.Counts sub pend) : s.kq.Fits where
  size := h.size
  rptr_lt := by
    rw [h.rptr]
    exact Nat.mod_lt _ h.dwords_pos
  wptr_lt := by
    rw [h.pending]
    exact Nat.mod_lt _ h.dwords_pos
  wptr64_lt := by
    rw [h.pending64]
    exact u64_lt _

/-- A power-of-two ring does not see where a word wraps. -/
theorem State.Counts.wrap_mod (h : s.Counts sub pend) {w : ℕ} (hw : 30 ≤ w) (x : ℕ) :
    wrap w x % s.kq.dwords = x % s.kq.dwords :=
  Nat.mod_mod_of_dvd x (Nat.dvd_trans h.fits.dwords_dvd (Nat.pow_dvd_pow 2 hw))

theorem State.Counts.ahead_eq (h : s.Counts sub pend) : s.kq.ahead = pend - s.read := by
  rw [KernelQueue.ahead, h.rptr, h.pending]
  exact ringDist_mod (Nat.le_trans h.read_le h.sub_le) h.pend_lt

theorem State.Counts.published_eq (h : s.Counts sub pend) :
    s.kq.published = sub % s.kq.dwords := by
  rw [KernelQueue.published]
  split
  · next h8 =>
    rw [(h.wide h8).1]
    exact h.wrap_mod (by decide) sub
  · next h8 => exact h.narrow h8

/-- What the device still has to read is what is handed out and not read. -/
theorem State.Counts.unread_iff (h : s.Counts sub pend) {x : ℕ} (hle : s.read ≤ x)
    (hlt : x < s.read + s.kq.dwords) : s.kq.Unread (x % s.kq.dwords) ↔ x < pend := by
  have hread := h.read_le
  have hsub := h.sub_le
  rw [KernelQueue.Unread, h.ahead_eq, h.rptr, ringDist_mod hle hlt]
  have := Nat.mod_lt x h.dwords_pos
  omega

/-- **An acquired buffer** starts at the slot of a counter that is pending or behind the padding,
reaches no further than a dword short of the read pointer, and the padding covers nothing the device
still has to read. -/
theorem State.Counts.acquired (h : s.Counts sub pend) {packet : ℕ} {r : Int} {b : ℕ}
    {kq' : KernelQueue} (hacq : kqAcquirePacketBuffer s.kq packet = (r, some b, kq')) :
    ∃ x, pend ≤ x ∧ x + packet < s.read + s.kq.dwords ∧ b = x % s.kq.dwords ∧
      b + packet < s.kq.dwords ∧
      ∃ pq, (∀ i, s.kq.Unread i → pq i = s.kq.pq i) ∧
        kq' = { s.kq with
          pq := pq
          pending_wptr := (x + packet) % s.kq.dwords
          pending_wptr64 := u64 (x + packet + s.skew) } := by
  have hread := h.read_le
  have hsub := h.sub_le
  have hround := h.pend_lt
  have hahead := h.ahead_eq
  have hw := h.fits.wptr_lt
  have hr := h.fits.rptr_lt
  have hpend := h.pending
  rw [kqAcquirePacketBuffer_eq h.fits] at hacq
  by_cases hroom : s.kq.dwords - 1 - s.kq.ahead < packet
  · rw [if_pos hroom] at hacq
    cases hacq
  rw [if_neg hroom] at hacq
  by_cases hend : s.kq.dwords ≤ s.kq.pending_wptr + packet
  · rw [if_pos hend] at hacq
    by_cases hrptr : s.kq.rptr ≤ packet
    · rw [if_pos hrptr] at hacq
      cases hacq
    rw [if_neg hrptr] at hacq
    -- The room reaches over the end of the ring only where the read pointer is behind.
    have hbehind : s.kq.ahead = s.kq.pending_wptr - s.kq.rptr ∧ s.kq.rptr ≤ s.kq.pending_wptr := by
      have hdist := ringDist_of_lt hr hw
      rw [← KernelQueue.ahead] at hdist
      split_ifs at hdist <;> omega
    have hzero : (pend + (s.kq.dwords - s.kq.pending_wptr)) % s.kq.dwords = 0 := by
      rw [hpend]
      exact mod_add_round h.dwords_pos pend
    have hpacket : packet < s.kq.dwords := by omega
    refine ⟨pend + (s.kq.dwords - s.kq.pending_wptr), Nat.le_add_right .., by omega, ?_, ?_,
      fun i => if s.kq.pending_wptr ≤ i ∧ i < s.kq.dwords then s.kq.nop_packet else s.kq.pq i,
      ?_, ?_⟩
    · cases hacq
      exact hzero.symm
    · cases hacq
      omega
    · intro i hi
      have hnot : ¬(s.kq.pending_wptr ≤ i ∧ i < s.kq.dwords) := by
        rintro ⟨hge, hlt⟩
        have hslot : (pend + (i - s.kq.pending_wptr)) % s.kq.dwords = i := by
          rw [mod_add_of_lt (by omega)]
          omega
        rw [← hslot, h.unread_iff (by omega) (by omega)] at hi
        omega
      simp only [hnot, if_false]
    · have h32 : (pend + (s.kq.dwords - s.kq.pending_wptr) + packet) % s.kq.dwords = packet := by
        rw [mod_add_of_lt (by omega), hzero, Nat.zero_add]
      have h64 : u64 (s.kq.pending_wptr64 + (s.kq.dwords - s.kq.pending_wptr) + packet) =
          u64 (pend + (s.kq.dwords - s.kq.pending_wptr) + packet + s.skew) := by
        rw [h.pending64]
        unfold u64 wrap
        omega
      rw [h32, ← h64]
      cases hacq
      rfl
  · rw [if_neg hend] at hacq
    have hlt : pend % s.kq.dwords + packet < s.kq.dwords := by omega
    refine ⟨pend, Nat.le_refl _, by omega, ?_, ?_, s.kq.pq, fun _ _ => rfl, ?_⟩
    · cases hacq
      exact hpend
    · cases hacq
      omega
    · have h32 : (pend + packet) % s.kq.dwords = s.kq.pending_wptr + packet := by
        rw [mod_add_of_lt hlt, ← hpend]
      have h64 : u64 (s.kq.pending_wptr64 + packet) = u64 (pend + packet + s.skew) := by
        rw [h.pending64]
        unfold u64 wrap
        omega
      rw [h32, ← h64]
      cases hacq
      rfl

/-- An acquisition that fails leaves everything as it was. -/
theorem kqAcquirePacketBuffer_failed {kq kq' : KernelQueue} {packet : ℕ} {r : Int}
    (h : kqAcquirePacketBuffer kq packet = (r, none, kq')) : r = ENOMEM ∧ kq' = kq := by
  unfold kqAcquirePacketBuffer at h
  dsimp only at h
  split_ifs at h
  · cases h
    exact ⟨rfl, rfl⟩
  · cases h
    exact ⟨rfl, rfl⟩
  · cases h
  · cases h

/-- An acquisition moves the pending counter and adds a buffer. -/
theorem State.Counts.acquire (h : s.Counts sub pend) {packet : ℕ} {r : Int} {b : ℕ}
    {kq' : KernelQueue} (hacq : kqAcquirePacketBuffer s.kq packet = (r, some b, kq')) :
    ∃ pend', { s with kq := kq', buffers := (b, packet) :: s.buffers }.Counts sub pend' := by
  obtain ⟨x, hle, hlt, hb, hsmall, pq, -, rfl⟩ := h.acquired hacq
  have hsub := h.sub_le
  refine ⟨x + packet, ⟨h.size, h.read_le, by omega, hlt, h.rptr, rfl, rfl, h.submitted, h.wide,
    h.narrow, ?_⟩⟩
  intro c hc
  rcases List.mem_cons.1 hc with rfl | hc
  · exact ⟨x, by omega, Nat.le_refl _, hb, hsmall⟩
  · obtain ⟨y, hy, hyp, hc⟩ := h.buffers c hc
    exact ⟨y, hy, by omega, hc⟩

/-- A submission publishes everything that is pending. -/
theorem State.Counts.submit (h : s.Counts sub pend) {t : State} (hstep : s.Step .submit t) :
    t.Counts pend pend := by
  obtain rfl := hstep
  have hw := h.fits.wptr_lt
  have hn := h.fits.dwords_le
  have h64 := h.pending64
  have hread : s.read ≤ pend := Nat.le_trans h.read_le h.sub_le
  by_cases h8 : s.kq.doorbell_size = 8
  · rw [State.skew, if_pos h8, Nat.add_zero] at h64
    have hsubmit : kqSubmitPacket s.kq =
        { s.kq with wptr_mem := s.kq.pending_wptr64, doorbell := s.kq.pending_wptr64 } := by
      rw [kqSubmitPacket, if_pos h8]
    simp only [hsubmit]
    exact ⟨h.size, hread, Nat.le_refl _, h.pend_lt, h.rptr, h.pending, h.pending64, h.pending,
      fun _ => ⟨h64, h64⟩, fun hne => absurd h8 hne, fun b hb => absurd hb List.not_mem_nil⟩
  · have hsubmit : kqSubmitPacket s.kq =
        { s.kq.setWptr s.kq.pending_wptr with doorbell := s.kq.pending_wptr } := by
      rw [kqSubmitPacket, if_neg h8]
    have hwptr : (s.kq.setWptr s.kq.pending_wptr).wptr = s.kq.pending_wptr := by
      unfold KernelQueue.wptr KernelQueue.setWptr wrap
      dsimp only
      omega
    simp only [hsubmit]
    exact ⟨h.size, hread, Nat.le_refl _, h.pend_lt, h.rptr, h.pending, h.pending64, h.pending,
      fun h' => absurd h' h8, fun _ => hwptr.trans h.pending,
      fun b hb => absurd hb List.not_mem_nil⟩

/-- **A rollback goes back to what is submitted**: the 32-bit pointer always, the 64-bit pointer
with 8-byte doorbells. -/
theorem State.Counts.rollback_eq (h : s.Counts sub pend) :
    kqRollbackPacket s.kq = { s.kq with
      pending_wptr := sub % s.kq.dwords
      pending_wptr64 := if s.kq.doorbell_size = 8 then u64 sub else s.kq.pending_wptr64 } := by
  rw [kqRollbackPacket]
  by_cases h8 : s.kq.doorbell_size = 8
  · have hwptr : s.kq.wptr % s.kq.dwords = sub % s.kq.dwords := by
      rw [KernelQueue.wptr, (h.wide h8).1, h.wrap_mod (by decide)]
      exact h.wrap_mod (by decide) sub
    rw [if_pos h8, if_pos h8, hwptr, ← (h.wide h8).1]
  · rw [if_neg h8, if_neg h8, h.narrow h8]

theorem State.Counts.rollback (h : s.Counts sub pend) {t : State} (hstep : s.Step .rollback t) :
    t.Counts sub sub := by
  obtain rfl := hstep
  have hread := h.read_le
  have hsub := h.sub_le
  have hlt := h.pend_lt
  have hdist : ringDist s.kq.dwords s.submitted.1 s.kq.pending_wptr = pend - sub := by
    rw [h.submitted, h.pending]
    exact ringDist_mod hsub (by omega)
  simp only [h.rollback_eq, hdist]
  refine ⟨h.size, hread, Nat.le_refl _, by change sub < s.read + s.kq.dwords; omega, h.rptr, rfl,
    ?_, h.submitted, h.wide, h.narrow, fun b hb => absurd hb List.not_mem_nil⟩
  have h64 := h.pending64
  unfold State.skew at h64 ⊢
  dsimp only
  split_ifs at h64 ⊢ with h8
  · rfl
  · rw [h64]
    congr 1
    omega

/-- The device reads on. -/
theorem State.Counts.advance (h : s.Counts sub pend) {t : State} {count : ℕ}
    (hstep : s.Step (.advance count) t) : t.Counts sub pend := by
  obtain ⟨hcount, rfl⟩ := hstep
  have hread := h.read_le
  have hsub := h.sub_le
  have hlt := h.pend_lt
  rw [h.rptr, h.published_eq, ringDist_mod hread (by omega)] at hcount
  refine ⟨h.size, by change s.read + count ≤ sub; omega, hsub,
    by change pend < s.read + count + s.kq.dwords; omega, ?_, h.pending, h.pending64, h.submitted,
    h.wide, h.narrow, h.buffers⟩
  change (s.kq.rptr + count) % s.kq.dwords = (s.read + count) % s.kq.dwords
  rw [h.rptr, Nat.mod_add_mod]

/-- **Every step keeps the counters**, and takes back nothing that is submitted or read. -/
theorem State.Counts.step_grows (h : s.Counts sub pend) {op : Op} {t : State}
    (hstep : s.Step op t) : ∃ sub' pend', t.Counts sub' pend' ∧ sub ≤ sub' ∧ s.read ≤ t.read ∧
      t.kq.dwords = s.kq.dwords := by
  have hsub := h.sub_le
  cases op with
  | acquire packet =>
    obtain rfl := hstep
    rcases hacq : kqAcquirePacketBuffer s.kq packet with ⟨r, _ | b, kq'⟩
    · obtain ⟨-, rfl⟩ := kqAcquirePacketBuffer_failed hacq
      exact ⟨sub, pend, h, Nat.le_refl _, Nat.le_refl _, rfl⟩
    · obtain ⟨pend', hacquired⟩ := h.acquire hacq
      obtain ⟨_, _, _, _, _, pq, -, rfl⟩ := h.acquired hacq
      exact ⟨sub, pend', hacquired, Nat.le_refl _, Nat.le_refl _, rfl⟩
  | write i value =>
    obtain ⟨-, rfl⟩ := hstep
    exact ⟨sub, pend, ⟨h.size, h.read_le, hsub, h.pend_lt, h.rptr, h.pending, h.pending64,
      h.submitted, h.wide, h.narrow, h.buffers⟩, Nat.le_refl _, Nat.le_refl _, rfl⟩
  | submit =>
    refine ⟨pend, pend, h.submit hstep, hsub, ?_⟩
    obtain rfl := hstep
    simp only [kqSubmitPacket]
    split <;> exact ⟨Nat.le_refl _, rfl⟩
  | rollback =>
    refine ⟨sub, sub, h.rollback hstep, Nat.le_refl _, ?_⟩
    obtain rfl := hstep
    simp only [h.rollback_eq]
    exact ⟨Nat.le_refl _, rfl⟩
  | advance count =>
    refine ⟨sub, pend, h.advance hstep, Nat.le_refl _, ?_⟩
    obtain ⟨-, rfl⟩ := hstep
    exact ⟨Nat.le_add_right .., rfl⟩

theorem State.Counts.step (h : s.Counts sub pend) {op : Op} {t : State} (hstep : s.Step op t) :
    ∃ sub' pend', t.Counts sub' pend' := by
  obtain ⟨sub', pend', ht, -⟩ := h.step_grows hstep
  exact ⟨sub', pend', ht⟩

/-- A submitted dword stays as it is until the device has read it. -/
theorem State.Counts.keeps_submitted (h : s.Counts sub pend) {op : Op} {t : State}
    (hstep : s.Step op t) {x : ℕ} (hxr : s.read ≤ x) (hxs : x < sub) :
    t.kq.pq (x % s.kq.dwords) = s.kq.pq (x % s.kq.dwords) := by
  have hpend := h.sub_le
  have hlt := h.pend_lt
  cases op with
  | acquire packet =>
    obtain rfl := hstep
    rcases hacq : kqAcquirePacketBuffer s.kq packet with ⟨r, _ | b, kq'⟩
    · obtain ⟨-, rfl⟩ := kqAcquirePacketBuffer_failed hacq
      rfl
    · obtain ⟨_, _, _, _, _, pq, hpq, rfl⟩ := h.acquired hacq
      exact hpq _ ((h.unread_iff hxr (by omega)).2 (by omega))
  | write i value =>
    obtain ⟨⟨b, hb, hle, hi⟩, rfl⟩ := hstep
    obtain ⟨y, hy, hyp, hby, hend⟩ := h.buffers b hb
    -- The dword that is written is handed out, but not submitted.
    have hslot : (y + (i - b.1)) % s.kq.dwords = i := by
      rw [mod_add_of_lt (by omega)]
      omega
    refine Function.update_of_ne (fun heq => ?_) ..
    have hx := ringDist_mod hxr (n := s.kq.dwords) (by omega)
    rw [heq, ← hslot, ringDist_mod (by omega) (by omega)] at hx
    omega
  | submit =>
    obtain rfl := hstep
    change (kqSubmitPacket s.kq).pq _ = _
    rw [kqSubmitPacket]
    split <;> rfl
  | rollback =>
    obtain rfl := hstep
    change (kqRollbackPacket s.kq).pq _ = _
    rw [h.rollback_eq]
  | advance count =>
    obtain ⟨-, rfl⟩ := hstep
    rfl

end Counts

/-- What a kernel queue keeps to. -/
structure State.Contract (s : State) : Prop where
  /-- A buffer handed out lies in the ring, apart from what the device still has to read; nothing of
  that is overwritten, and the pending pointer does not lap the read pointer. -/
  acquired : ∀ packet r b kq', kqAcquirePacketBuffer s.kq packet = (r, some b, kq') →
    b + packet ≤ s.kq.dwords ∧ (∀ i, b ≤ i → i < b + packet → ¬s.kq.Unread i) ∧
      (∀ i, s.kq.Unread i → kq'.pq i = s.kq.pq i) ∧ s.kq.ahead + packet ≤ kq'.ahead
  failed : ∀ packet r kq', kqAcquirePacketBuffer s.kq packet = (r, none, kq') →
    r = ENOMEM ∧ kq' = s.kq
  rolledBack : (kqRollbackPacket s.kq).pending_wptr = s.submitted.1
  rolledBack64 : s.kq.doorbell_size = 8 → (kqRollbackPacket s.kq).pending_wptr64 = s.submitted.2
  congruent : s.kq.doorbell_size = 8 ∨ s.takenBack = 0 →
    s.kq.pending_wptr64 % s.kq.dwords = s.kq.pending_wptr
  /-- The 64-bit pending pointer is less than a ring ahead of the dwords that are read. -/
  behind : s.kq.doorbell_size = 8 ∨ s.takenBack = 0 →
    sub64 s.kq.pending_wptr64 (u64 s.read) < s.kq.dwords

theorem State.Counts.contract {s : State} {sub pend : ℕ} (h : s.Counts sub pend) :
    s.Contract := by
  have hread := h.read_le
  have hsub := h.sub_le
  have hlt := h.pend_lt
  have hskew : s.kq.doorbell_size = 8 ∨ s.takenBack = 0 → s.kq.pending_wptr64 = u64 pend := by
    rintro (h8 | hnone)
    · rw [h.pending64, State.skew, if_pos h8, Nat.add_zero]
    · rw [h.pending64, State.skew, hnone, ite_self, Nat.add_zero]
  refine ⟨?_, fun _ _ _ hacq => kqAcquirePacketBuffer_failed hacq, ?_, ?_, ?_, ?_⟩
  · intro packet r b kq' hacq
    obtain ⟨x, hle, hxlt, hb, hend, pq, hpq, rfl⟩ := h.acquired hacq
    refine ⟨Nat.le_of_lt hend, ?_, hpq, ?_⟩
    · intro i hbi hi
      have hslot : (x + (i - b)) % s.kq.dwords = i := by
        rw [mod_add_of_lt (by omega)]
        omega
      rw [← hslot, h.unread_iff (by omega) (by omega)]
      omega
    · change s.kq.ahead + packet ≤ ringDist s.kq.dwords s.kq.rptr ((x + packet) % s.kq.dwords)
      rw [h.ahead_eq, h.rptr, ringDist_mod (by omega) hxlt]
      omega
  · rw [h.rollback_eq, h.submitted]
  · intro h8
    rw [h.rollback_eq]
    simp only [h8, if_true]
    exact (h.wide h8).2.symm
  · intro hcond
    rw [hskew hcond, h.pending]
    exact h.wrap_mod (by decide) pend
  · intro hcond
    have hdiff : sub64 (u64 pend) (u64 s.read) = pend - s.read := by
      have := h.fits.dwords_le
      unfold sub64 u64 wrap
      omega
    rw [hskew hcond, hdiff]
    omega

theorem kqInitialize_counts {k : ℕ} (hk : k < 30) (doorbell_size nop_packet : ℕ) :
    ({ kq := kqInitialize (2 ^ (k + 2)) doorbell_size nop_packet } : State).Counts 0 0 := by
  have hdwords : (kqInitialize (2 ^ (k + 2)) doorbell_size nop_packet).dwords = 2 ^ k :=
    dwords_of_size rfl
  refine ⟨⟨k, hk, rfl⟩, Nat.le_refl _, Nat.le_refl _, ?_, (Nat.zero_mod _).symm,
    (Nat.zero_mod _).symm, ?_, (Nat.zero_mod _).symm, fun _ => ⟨rfl, rfl⟩,
    fun _ => (Nat.zero_mod _).symm, fun b hb => absurd hb List.not_mem_nil⟩
  · change 0 < 0 + (kqInitialize (2 ^ (k + 2)) doorbell_size nop_packet).dwords
    rw [hdwords, Nat.zero_add]
    exact Nat.two_pow_pos k
  · rw [State.skew, ite_self]
    rfl

/-- **The device reads what was submitted**: in every run, from the moment a dword is submitted
until the device has read it, whatever is acquired, written, submitted and rolled back meanwhile
leaves it in its slot. -/
theorem submitted_kept_of_run {k : ℕ} (hk : k < 30) {doorbell_size nop_packet : ℕ}
    {ops ops' : List Op} {s t : State} (h : Run State.Step
      { kq := kqInitialize (2 ^ (k + 2)) doorbell_size nop_packet } ops s)
    (h' : Run State.Step s ops' t) {x : ℕ} (hread : t.read ≤ x)
    (hx : x < s.read + ringDist s.kq.dwords s.kq.rptr s.kq.published) :
    t.kq.pq (x % s.kq.dwords) = s.kq.pq (x % s.kq.dwords) := by
  obtain ⟨sub, pend, hs⟩ := h.inv (I := fun s => ∃ sub pend, s.Counts sub pend)
    (fun s op t ⟨_, _, hs⟩ hstep => hs.step hstep)
    ⟨0, 0, kqInitialize_counts hk doorbell_size nop_packet⟩
  have hle := hs.read_le
  have hpend := hs.sub_le
  have hlt := hs.pend_lt
  rw [hs.published_eq, hs.rptr, ringDist_mod hle (by omega)] at hx
  -- The slot keeps its dword as long as the counter of what is submitted is beyond it.
  have hkept := h'.inv (I := fun u => u.kq.dwords = s.kq.dwords ∧ ∃ sub pend, u.Counts sub pend ∧
      x < sub ∧ (u.read ≤ x → u.kq.pq (x % s.kq.dwords) = s.kq.pq (x % s.kq.dwords)))
    (by
      rintro u op v ⟨hdwords, sub, pend, hu, hxs, hpq⟩ hstep
      obtain ⟨sub', pend', hv, hsub, hgrows, hsame⟩ := hu.step_grows hstep
      refine ⟨hsame.trans hdwords, sub', pend', hv, Nat.lt_of_lt_of_le hxs hsub, fun hxr => ?_⟩
      have hxu := Nat.le_trans hgrows hxr
      rw [← hpq hxu, ← hdwords]
      exact hu.keeps_submitted hstep hxu hxs)
    ⟨rfl, sub, pend, hs, by omega, fun _ => rfl⟩
  obtain ⟨-, _, _, -, -, hpq⟩ := hkept
  exact hpq hread

/-- A packet of 3 dwords is submitted, the device reads the first one, and another packet is
acquired and rolled back: the last dword of the first packet is still there. -/
theorem submitted_kept_of_run_eight : ∃ s t, Run State.Step
    { kq := kqInitialize (2 ^ (3 + 2)) 8 0 } [.acquire 3, .write 2 7, .submit] s ∧
      Run State.Step s [.advance 1, .acquire 4, .rollback] t ∧ t.kq.pq (2 % s.kq.dwords) = 7 := by
  obtain ⟨s, t, hs, ht, hread, hx, hpq⟩ : ∃ s t, Run State.Step
      { kq := kqInitialize (2 ^ (3 + 2)) 8 0 } [.acquire 3, .write 2 7, .submit] s ∧
      Run State.Step s [.advance 1, .acquire 4, .rollback] t ∧ t.read ≤ 2 ∧
      2 < s.read + ringDist s.kq.dwords s.kq.rptr s.kq.published ∧
      s.kq.pq (2 % s.kq.dwords) = 7 := by
    refine ⟨_, _, .cons rfl (.cons ⟨⟨(0, 3), ?_, ?_⟩, rfl⟩ (.cons rfl (.nil _))),
      .cons ⟨?_, rfl⟩ (.cons rfl (.cons rfl (.nil _))), ?_, ?_, ?_⟩ <;> decide +kernel
  exact ⟨s, t, hs, ht, (submitted_kept_of_run (by decide) hs ht hread hx).trans hpq⟩

end Codrive.Kq
