/-
# The ring of a kernel queue

`src/cmdio/linux/opu_kernel_queue.c`, lines 107-141 and 228-321, and `opu_kernel_queue.h`: packets
are written into a ring of dwords that the device reads.  `kq_acquire_packet_buffer` hands out the
room for a packet and moves the pending write pointer behind it, filling the end of the ring with
NOPs where the packet has to start over at position 0; `kq_submit_packet` publishes the pending
pointer to the device, and `kq_rollback_packet` takes it back to the published one.  The write
pointer has two widths: the position in the ring, and a 64-bit count of dwords.

`wptr_kernel` and `wptr64_kernel` are a union of pointers to one memory; on the little-endian hosts
the driver runs on, the first is the low half of the second.
-/

import Codrive.Basis.Machine
import Codrive.Basis.Circular

namespace Codrive.Kq

open Codrive.Basis

/-- `struct kernel_queue`, with what it points to: the ring, the read and the write pointer the
device shares, and the doorbell. -/
structure KernelQueue where
  /-- `queue->properties.queue_size`, in bytes. -/
  queue_size : ℕ
  /-- `dev->device_info->doorbell_size`. -/
  doorbell_size : ℕ
  nop_packet : ℕ
  pending_wptr64 : ℕ := 0
  pending_wptr : ℕ := 0
  /-- `*rptr_kernel`. -/
  rptr : ℕ := 0
  /-- `*wptr64_kernel`; its low half is `*wptr_kernel`. -/
  wptr_mem : ℕ := 0
  /-- What was written to `queue->properties.doorbell_ptr` last. -/
  doorbell : ℕ := 0
  /-- `pq_kernel_addr`, dword by dword. -/
  pq : ℕ → ℕ := fun _ => 0

/-- `*kq->wptr_kernel`. -/
def KernelQueue.wptr (kq : KernelQueue) : ℕ := wrap 32 kq.wptr_mem

/-- `*kq->wptr_kernel = value`. -/
def KernelQueue.setWptr (kq : KernelQueue) (value : ℕ) : KernelQueue :=
  { kq with wptr_mem := kq.wptr_mem / 2 ^ 32 * 2 ^ 32 + wrap 32 value }

/-- `queue_size_dwords`. -/
def KernelQueue.dwords (kq : KernelQueue) : ℕ := kq.queue_size / 4

/-- What the loop that fills the end of the ring changes. -/
structure Fill where
  queue_address : ℕ → ℕ
  wptr : ℕ
  wptr64 : ℕ

/-- `while (wptr > 0)` of `kq_acquire_packet_buffer`, for at most `turns` turns. -/
def fillNops (nop_packet queue_size_dwords : ℕ) : ℕ → Fill → Fill
  | 0, s => s
  | turns + 1, s =>
    if 0 < s.wptr then
      fillNops nop_packet queue_size_dwords turns
        ⟨Function.update s.queue_address s.wptr nop_packet,
          wrap 32 (s.wptr + 1) % queue_size_dwords, u64 (s.wptr64 + 1)⟩
    else s

/-- `-ENOMEM`. -/
def ENOMEM : Int := -12

/-- `kq_acquire_packet_buffer`: the return value, the position `*buffer_ptr` points to, and the
queue. -/
def kqAcquirePacketBuffer (kq : KernelQueue) (packet_size_in_dwords : ℕ) :
    Int × Option ℕ × KernelQueue :=
  let queue_size_dwords := kq.dwords
  let available_size :=
    sub64 (sub64 (u64 (kq.rptr + queue_size_dwords)) 1) kq.pending_wptr % queue_size_dwords
  let acquired (s : Fill) : Int × Option ℕ × KernelQueue :=
    (0, some s.wptr, { kq with
      pq := s.queue_address
      pending_wptr := wrap 32 (s.wptr + packet_size_in_dwords)
      pending_wptr64 := u64 (s.wptr64 + packet_size_in_dwords) })
  if available_size < packet_size_in_dwords then (ENOMEM, none, kq)
  else if queue_size_dwords ≤ u64 (kq.pending_wptr + packet_size_in_dwords) then
    -- The packet would reach the end of the ring: it starts over at position 0.
    if kq.rptr ≤ packet_size_in_dwords then (ENOMEM, none, kq)
    else acquired (fillNops kq.nop_packet queue_size_dwords (queue_size_dwords + 1)
      ⟨kq.pq, kq.pending_wptr, kq.pending_wptr64⟩)
  else acquired ⟨kq.pq, kq.pending_wptr, kq.pending_wptr64⟩

/-- `kq_submit_packet`. -/
def kqSubmitPacket (kq : KernelQueue) : KernelQueue :=
  if kq.doorbell_size = 8 then
    { kq with wptr_mem := kq.pending_wptr64, doorbell := kq.pending_wptr64 }
  else { kq.setWptr kq.pending_wptr with doorbell := kq.pending_wptr }

/-- `kq_rollback_packet`. -/
def kqRollbackPacket (kq : KernelQueue) : KernelQueue :=
  if kq.doorbell_size = 8 then
    { kq with pending_wptr64 := kq.wptr_mem, pending_wptr := kq.wptr % kq.dwords }
  else { kq with pending_wptr := kq.wptr }

/-- What `kq_initialize` makes of the pointers and the ring: all zero. -/
def kqInitialize (queue_size doorbell_size nop_packet : ℕ) : KernelQueue :=
  { queue_size := queue_size, doorbell_size := doorbell_size, nop_packet := nop_packet }

/-- The position the device reads up to. -/
def KernelQueue.published (kq : KernelQueue) : ℕ :=
  if kq.doorbell_size = 8 then kq.wptr_mem % kq.dwords else kq.wptr

/-- The dwords that were handed out and that the device has not read. -/
def KernelQueue.ahead (kq : KernelQueue) : ℕ := ringDist kq.dwords kq.rptr kq.pending_wptr

/-- The device still has to read position `i`. -/
def KernelQueue.Unread (kq : KernelQueue) (i : ℕ) : Prop :=
  i < kq.dwords ∧ ringDist kq.dwords kq.rptr i < kq.ahead

/-- **The end of the ring is filled** with NOPs, and the position goes back to 0. -/
theorem fillNops_eq {nop_packet n : ℕ} {pq : ℕ → ℕ} {wptr wptr64 : ℕ} (turns : ℕ)
    (hn : n < 2 ^ 32) (hwptr : wptr ≤ n) (hpos : 0 < wptr) (hturns : n - wptr ≤ turns)
    (h64 : wptr64 < 2 ^ 64) :
    fillNops nop_packet n turns ⟨pq, wptr % n, wptr64⟩ =
      ⟨fun i => if wptr ≤ i ∧ i < n then nop_packet else pq i, 0, u64 (wptr64 + (n - wptr))⟩ := by
  induction turns generalizing pq wptr wptr64 with
  | zero =>
    obtain rfl : wptr = n := by omega
    have hnone : ∀ i, ¬(wptr ≤ i ∧ i < wptr) := fun i => by omega
    simp [fillNops, hnone, u64_of_lt h64]
  | succ turns ih =>
    rcases Nat.eq_or_lt_of_le hwptr with rfl | hlt
    · have hnone : ∀ i, ¬(wptr ≤ i ∧ i < wptr) := fun i => by omega
      simp [fillNops, hnone, u64_of_lt h64]
    · have hsum : u64 (u64 (wptr64 + 1) + (n - (wptr + 1))) = u64 (wptr64 + (n - wptr)) := by
        unfold u64 wrap
        omega
      have hwrap : wrap 32 (wptr + 1) = wptr + 1 := wrap_of_lt (by omega)
      rw [Nat.mod_eq_of_lt hlt, fillNops, if_pos hpos, hwrap,
        ih hlt (Nat.succ_pos wptr) (by omega) (u64_lt _), hsum]
      congr 1
      funext i
      by_cases hi : i = wptr
      · subst hi
        simp [hlt]
      · have : wptr + 1 ≤ i ∧ i < n ↔ wptr ≤ i ∧ i < n := by omega
        simp only [this, Function.update_of_ne hi]

end Codrive.Kq
