/-
# The ring of the copy engine, over every run

`Inv` orders the indices: those below the read index are written, those in the ring are below the
read index plus the size, those up to the doorbell are written, and a call that has returned is
below one or the other.  `submissions_of_run` puts the claim together for the runs in which the
doorbell is written in order.

Nothing in the code makes it so: a thread may write the doorbell while another one with a lower
index has not written its packet, and the device executes what is in its slot
(`unwritten_slot_executed`).
-/

import Codrive.Dma.BlitCpDma
import Mathlib.Data.List.Basic

namespace Codrive.Dma.Blit

open Codrive.Basis

/-! ### Slots -/

section Slots

variable {b k k' r v : ℕ}

/-- The slot of an index. -/
theorem and_queue_bitmask (hb : b < 32) (k : ℕ) : k &&& queue_bitmask_ b = k % 2 ^ b := by
  have hle : 2 ^ b ≤ 2 ^ 32 := Nat.pow_le_pow_right (by decide) (by omega)
  have hpos : 0 < 2 ^ b := Nat.two_pow_pos b
  unfold queue_bitmask_
  rw [wrap_of_lt (by omega), Nat.and_two_pow_sub_one_eq_mod]

/-- Indices that are in the ring together have different slots. -/
theorem eq_of_slot_eq {n : ℕ} (hk : r ≤ k) (hk' : k < r + n) (hj : r ≤ k') (hj' : k' < r + n)
    (hslot : k % n = k' % n) : k = k' := by
  rcases Nat.le_total k k' with hle | hle
  · have hzero := Nat.sub_mod_eq_zero_of_mod_eq hslot.symm
    rw [Nat.mod_eq_of_lt (by omega)] at hzero
    omega
  · have hzero := Nat.sub_mod_eq_zero_of_mod_eq hslot
    rw [Nat.mod_eq_of_lt (by omega)] at hzero
    omega

/-- The loop ends when there is room. -/
theorem lt_of_room (hk : k + 1 < 2 ^ 64) (hv : v ≤ k) (h : ¬noRoom b k 1 v) : k < v + 2 ^ b := by
  unfold noRoom at h
  rw [u64_of_lt hk, sub64_of_le (by omega) hk] at h
  omega

end Slots

/-! ### The invariant -/

/-- **The invariant.** -/
structure Inv (b : ℕ) (s : State) : Prop where
  length : s.write_index = s.submitted.length
  lt : s.write_index < 2 ^ 64
  own : ∀ i j k, (s.pc i).index = some k → (s.pc j).index = some k → i = j
  bound : ∀ i k, (s.pc i).index = some k → k < s.submitted.length
  index : ∀ i k c, s.pc i = .acquiring k c ∨ s.pc i = .populating k c → s.submitted[k]? = some c
  room : ∀ k < s.submitted.length, (∀ i c, s.pc i ≠ .acquiring k c) → k < s.read_index + 2 ^ b
  read : ∀ k < s.read_index, s.Written k
  bell : ∀ d, s.doorbell = some d → ∀ k ≤ d, s.Written k
  kept : ∀ k c, s.Written k → s.read_index ≤ k → s.submitted[k]? = some c →
    s.queue_buffer (k % 2 ^ b) = some c.packet
  executed : s.executed = (s.submitted.take s.read_index).map fun c => some c.packet
  returned : ∀ k, s.Returned k → k < s.read_index ∨ ∃ d, s.doorbell = some d ∧ k ≤ d

section

variable {b i k : ℕ} {c : Copy} {s t : State} {pc : Pc}

theorem index_of_unwritten (h : pc.unwritten = some k) : pc.index = some k := by
  cases pc with
  | idle => exact nomatch h
  | acquiring k' c => exact h
  | populating k' c => exact h
  | releasing k' => exact nomatch h

/-- The place of a thread that went on, and those of the others. -/
theorem pc_update_cases (s : State) (i : ℕ) (pc : Pc) (j : ℕ) :
    j = i ∧ Function.update s.pc i pc j = pc ∨
      j ≠ i ∧ Function.update s.pc i pc j = s.pc j := by
  by_cases hj : j = i
  · rw [hj, Function.update_self]
    exact .inl ⟨rfl, rfl⟩
  · rw [Function.update_of_ne hj]
    exact .inr ⟨hj, rfl⟩

/-- A thread that goes on with its index: the indices are as before. -/
theorem index_update (s : State) (i : ℕ) (pc : Pc) (hindex : pc.index = (s.pc i).index) (j : ℕ) :
    (Function.update s.pc i pc j).index = (s.pc j).index := by
  rcases pc_update_cases s i pc j with ⟨rfl, hj⟩ | ⟨-, hj⟩ <;> rw [hj]
  exact hindex

/-- A thread that does not write its packet: what is not written is as before. -/
theorem unwritten_update (s : State) (i : ℕ) (pc : Pc)
    (hunwritten : pc.unwritten = (s.pc i).unwritten) (j : ℕ) :
    (Function.update s.pc i pc j).unwritten = (s.pc j).unwritten := by
  rcases pc_update_cases s i pc j with ⟨rfl, hj⟩ | ⟨-, hj⟩ <;> rw [hj]
  exact hunwritten

theorem written_congr (hsubmitted : t.submitted = s.submitted)
    (hpc : ∀ j, (t.pc j).unwritten = (s.pc j).unwritten) : t.Written k ↔ s.Written k := by
  unfold State.Written
  simp only [hsubmitted, hpc]

theorem returned_congr (hsubmitted : t.submitted = s.submitted)
    (hpc : ∀ j, (t.pc j).index = (s.pc j).index) : t.Returned k ↔ s.Returned k := by
  unfold State.Returned
  simp only [hsubmitted, hpc]

namespace Inv

theorem read_le (h : Inv b s) : s.read_index ≤ s.submitted.length := by
  by_contra hlt
  have hread := (h.read (s.read_index - 1) (by omega)).1
  omega

/-- A thread that has not written its packet is not behind the device. -/
theorem read_le_of_unwritten (h : Inv b s) (hi : (s.pc i).unwritten = some k) :
    s.read_index ≤ k := by
  by_contra hlt
  exact (h.read k (Nat.not_le.1 hlt)).2 i hi

/-- **A call begins.** -/
theorem submit (h : Inv b s) (hidle : s.pc i = .idle) (hlt : s.write_index + 1 < 2 ^ 64) :
    Inv b (addWriteIndexAcqRel s i 1 c) := by
  have hlength := h.length
  have hindex k : (s.pc i).index ≠ some k := by
    rw [hidle]
    exact nofun
  have hunwritten k : (s.pc i).unwritten ≠ some k := by
    rw [hidle]
    exact nofun
  have hget k (hk : k < s.submitted.length) : (s.submitted ++ [c])[k]? = s.submitted[k]? :=
    List.getElem?_append_left hk
  have hsum : u64 (s.write_index + 1) = s.write_index + 1 := u64_of_lt hlt
  -- The new index is that of the new submission.
  have hwritten k : (addWriteIndexAcqRel s i 1 c).Written k ↔ s.Written k := by
    unfold State.Written addWriteIndexAcqRel
    dsimp only
    rw [List.length_append, List.length_singleton]
    constructor
    · rintro ⟨hk, hall⟩
      have hi := hall i
      rw [Function.update_self] at hi
      have hne : k ≠ s.write_index := fun heq => hi (congrArg some heq.symm)
      refine ⟨by omega, fun j => ?_⟩
      by_cases hj : j = i
      · rw [hj]
        exact hunwritten k
      · have hj' := hall j
        rwa [Function.update_of_ne hj] at hj'
    · rintro ⟨hk, hall⟩
      refine ⟨by omega, fun j => ?_⟩
      rcases pc_update_cases s i (.acquiring s.write_index c) j with ⟨-, hj⟩ | ⟨-, hj⟩ <;> rw [hj]
      · intro heq
        have := Option.some.inj heq
        omega
      · exact hall j
  have hreturned k (hk : (addWriteIndexAcqRel s i 1 c).Returned k) : s.Returned k := by
    unfold State.Returned addWriteIndexAcqRel at hk
    dsimp only at hk
    rw [List.length_append, List.length_singleton] at hk
    obtain ⟨hk, hall⟩ := hk
    have hi := hall i
    rw [Function.update_self] at hi
    have hne : k ≠ s.write_index := fun heq => hi (congrArg some heq.symm)
    refine ⟨by omega, fun j => ?_⟩
    by_cases hj : j = i
    · rw [hj]
      exact hindex k
    · have hj' := hall j
      rwa [Function.update_of_ne hj] at hj'
  refine ⟨?_, ?_, fun j j' k hj hj' => ?_, fun j k hj => ?_, fun j k c' hj => ?_,
    fun k hk hall => ?_, fun k hk => (hwritten k).2 (h.read k hk),
    fun d hd k hk => (hwritten k).2 (h.bell d hd k hk), fun k c' hk hread hc' => ?_, ?_,
    fun k hk => h.returned k (hreturned k hk)⟩
  · change u64 (s.write_index + 1) = (s.submitted ++ [c]).length
    rw [hsum, List.length_append, List.length_singleton, hlength]
  · exact u64_lt _
  · change (Function.update s.pc i _ j).index = some k at hj
    change (Function.update s.pc i _ j').index = some k at hj'
    rcases pc_update_cases s i (.acquiring s.write_index c) j with ⟨hji, hpc⟩ | ⟨-, hpc⟩ <;>
    rcases pc_update_cases s i (.acquiring s.write_index c) j' with ⟨hji', hpc'⟩ | ⟨-, hpc'⟩ <;>
    rw [hpc] at hj <;> rw [hpc'] at hj'
    · exact hji.trans hji'.symm
    · have := h.bound j' k hj'
      have := Option.some.inj hj
      omega
    · have := h.bound j k hj
      have := Option.some.inj hj'
      omega
    · exact h.own j j' k hj hj'
  · change (Function.update s.pc i _ j).index = some k at hj
    change k < (s.submitted ++ [c]).length
    rw [List.length_append, List.length_singleton]
    rcases pc_update_cases s i (.acquiring s.write_index c) j with ⟨rfl, hpc⟩ | ⟨-, hpc⟩ <;>
    rw [hpc] at hj
    · have := Option.some.inj hj
      omega
    · have := h.bound j k hj
      omega
  · change Function.update s.pc i _ j = _ ∨ Function.update s.pc i _ j = _ at hj
    change (s.submitted ++ [c])[k]? = some c'
    rcases pc_update_cases s i (.acquiring s.write_index c) j with ⟨rfl, hpc⟩ | ⟨-, hpc⟩ <;>
    rw [hpc] at hj
    · obtain ⟨rfl, rfl⟩ : s.write_index = k ∧ c = c' := by simpa using hj
      rw [hlength]
      exact List.getElem?_concat_length
    · have hc' := h.index j k c' hj
      rw [hget k (List.getElem?_eq_some_iff.1 hc').1]
      exact hc'
  · change k < (s.submitted ++ [c]).length at hk
    rw [List.length_append, List.length_singleton] at hk
    have hi : Function.update s.pc i (.acquiring s.write_index c) i ≠ .acquiring k c := hall i c
    rw [Function.update_self] at hi
    have hne : k ≠ s.write_index := fun heq => hi (by rw [heq])
    refine h.room k (by omega) fun j c' hj => ?_
    have hji : j ≠ i := by
      rintro rfl
      rw [hidle] at hj
      exact nomatch hj
    have hj' : Function.update s.pc i (.acquiring s.write_index c) j ≠ .acquiring k c' := hall j c'
    rw [Function.update_of_ne hji] at hj'
    exact hj' hj
  · have hk := (hwritten k).1 hk
    exact h.kept k c' hk hread ((hget k hk.1).symm.trans hc')
  · change s.executed = ((s.submitted ++ [c]).take s.read_index).map fun c => some c.packet
    rw [List.take_append_of_le_length h.read_le]
    exact h.executed

/-- **A load of the read index** lets a thread go on or not. -/
theorem load (h : Inv b s) {v : ℕ} (hv : v ≤ s.read_index) (hi : s.pc i = .acquiring k c) :
    Inv b (if noRoom b k 1 v then s else s.goto i (.populating k c)) := by
  by_cases hroom : noRoom b k 1 v
  · rw [if_pos hroom]
    exact h
  rw [if_neg hroom]
  have hbound := h.bound i k (by rw [hi]; rfl)
  have hread := h.read_le_of_unwritten (i := i) (k := k) (by rw [hi]; rfl)
  have hlength := h.length
  have hlt := h.lt
  have hindex := index_update s i (.populating k c) (by rw [hi]; rfl)
  have hunwritten := unwritten_update s i (.populating k c) (by rw [hi]; rfl)
  have hwritten {k'} : (s.goto i (.populating k c)).Written k' ↔ s.Written k' :=
    written_congr rfl hunwritten
  have hreturned {k'} : (s.goto i (.populating k c)).Returned k' ↔ s.Returned k' :=
    returned_congr rfl hindex
  refine ⟨hlength, hlt, fun j j' k' hj hj' => ?_, fun j k' hj => ?_, fun j k' c' hj => ?_,
    fun k' hk' hall => ?_, fun k' hk' => hwritten.2 (h.read k' hk'),
    fun d hd k' hk' => hwritten.2 (h.bell d hd k' hk'),
    fun k' c' hk' => h.kept k' c' (hwritten.1 hk'), h.executed, fun k' hk' =>
      h.returned k' (hreturned.1 hk')⟩
  · exact h.own j j' k' ((hindex j).symm.trans hj) ((hindex j').symm.trans hj')
  · exact h.bound j k' ((hindex j).symm.trans hj)
  · change Function.update s.pc i _ j = _ ∨ Function.update s.pc i _ j = _ at hj
    rcases pc_update_cases s i (.populating k c) j with ⟨rfl, hpc⟩ | ⟨-, hpc⟩ <;> rw [hpc] at hj
    · obtain ⟨rfl, rfl⟩ : k = k' ∧ c = c' := by simpa using hj
      exact h.index j k c (.inl hi)
    · exact h.index j k' c' hj
  · by_cases hkk : k' = k
    · rw [hkk]
      exact Nat.lt_of_lt_of_le (lt_of_room (by omega) (Nat.le_trans hv hread) hroom)
        (Nat.add_le_add_right hv _)
    · refine h.room k' hk' fun j c' hj => ?_
      have hji : j ≠ i := by
        rintro rfl
        rw [hi] at hj
        exact hkk (by cases hj; rfl)
      refine hall j c' ?_
      change Function.update s.pc i _ j = _
      rw [Function.update_of_ne hji]
      exact hj

/-- **A packet is written**, into a slot that no packet needs any more. -/
theorem populate (hb : b < 32) (h : Inv b s) (hi : s.pc i = .populating k c) :
    Inv b ((populateQueue b s k c).goto i (.releasing k)) := by
  have hbound := h.bound i k (by rw [hi]; rfl)
  have hread := h.read_le_of_unwritten (i := i) (k := k) (by rw [hi]; rfl)
  have hroom : k < s.read_index + 2 ^ b := by
    refine h.room k hbound fun j c' hj => ?_
    obtain rfl := h.own i j k (by rw [hi]; rfl) (by rw [hj]; rfl)
    rw [hi] at hj
    exact nomatch hj
  have hindex := index_update s i (.releasing k) (by rw [hi]; rfl)
  have hreturned {k'} : ((populateQueue b s k c).goto i (.releasing k)).Returned k' ↔
      s.Returned k' := returned_congr rfl hindex
  have hwritten {k'} : ((populateQueue b s k c).goto i (.releasing k)).Written k' ↔
      s.Written k' ∨ k' = k := by
    change (_ ∧ ∀ j, (Function.update s.pc i _ j).unwritten ≠ _) ↔ _
    constructor
    · rintro ⟨hk', hall⟩
      by_cases hkk : k' = k
      · exact .inr hkk
      · refine .inl ⟨hk', fun j => ?_⟩
        rcases pc_update_cases s i (.releasing k) j with ⟨rfl, -⟩ | ⟨-, hpc⟩
        · rw [hi]
          exact fun heq => hkk (Option.some.inj heq).symm
        · have hj := hall j
          rwa [hpc] at hj
    · rintro (⟨hk', hall⟩ | rfl)
      · refine ⟨hk', fun j => ?_⟩
        rcases pc_update_cases s i (.releasing k) j with ⟨-, hpc⟩ | ⟨-, hpc⟩ <;> rw [hpc]
        · exact nofun
        · exact hall j
      · refine ⟨hbound, fun j hj => ?_⟩
        rcases pc_update_cases s i (.releasing k') j with ⟨-, hpc⟩ | ⟨hji, hpc⟩ <;> rw [hpc] at hj
        · exact nomatch hj
        · exact hji (h.own j i k' (index_of_unwritten hj) (by rw [hi]; rfl))
  refine ⟨h.length, h.lt, fun j j' k' hj hj' => ?_, fun j k' hj => ?_, fun j k' c' hj => ?_,
    fun k' hk' hall => ?_, fun k' hk' => hwritten.2 (.inl (h.read k' hk')),
    fun d hd k' hk' => hwritten.2 (.inl (h.bell d hd k' hk')), fun k' c' hk' hread' hc' => ?_,
    h.executed, fun k' hk' => h.returned k' (hreturned.1 hk')⟩
  · exact h.own j j' k' ((hindex j).symm.trans hj) ((hindex j').symm.trans hj')
  · exact h.bound j k' ((hindex j).symm.trans hj)
  · change Function.update s.pc i _ j = _ ∨ Function.update s.pc i _ j = _ at hj
    rcases pc_update_cases s i (.releasing k) j with ⟨-, hpc⟩ | ⟨-, hpc⟩ <;> rw [hpc] at hj
    · exact hj.elim nofun nofun
    · exact h.index j k' c' hj
  · refine h.room k' hk' fun j c' hj => hall j c' ?_
    have hji : j ≠ i := by
      rintro rfl
      rw [hi] at hj
      exact nomatch hj
    change Function.update s.pc i _ j = _
    rw [Function.update_of_ne hji]
    exact hj
  · change Function.update s.queue_buffer (k &&& queue_bitmask_ b) _ (k' % 2 ^ b) = _
    rw [and_queue_bitmask hb]
    by_cases hkk : k' = k
    · rw [hkk, Function.update_self]
      rw [hkk] at hc'
      rw [Option.some.inj ((h.index i k c (.inr hi)).symm.trans hc')]
    · have hk' := (hwritten.1 hk').resolve_right hkk
      have hroom' : k' < s.read_index + 2 ^ b := by
        refine h.room k' hk'.1 fun j c'' hj => hk'.2 j ?_
        rw [hj]
        rfl
      rw [Function.update_of_ne fun heq => hkk (eq_of_slot_eq hread' hroom' hread hroom heq)]
      exact h.kept k' c' hk' hread' hc'

/-- **The doorbell is written**, in order. -/
theorem release (h : Inv b s) (hi : s.pc i = .releasing k)
    (horder : ∀ j k', (s.pc j).unwritten = some k' → k < k')
    (hbell : ∀ d, s.doorbell = some d → d < k ∨ d < s.read_index) :
    Inv b ((releaseWriteIndex s k 1).goto i .idle) := by
  have hbound := h.bound i k (by rw [hi]; rfl)
  have hlength := h.length
  have hlt := h.lt
  have hdoorbell : u64 (k + 1 + 2 ^ 64 - 1) = k := by
    unfold u64 wrap
    omega
  have hunwritten := unwritten_update s i .idle (by rw [hi]; rfl)
  have hwritten {k'} : ((releaseWriteIndex s k 1).goto i .idle).Written k' ↔ s.Written k' :=
    written_congr rfl hunwritten
  have hpcs {j k'} (hj : (Function.update s.pc i .idle j).index = some k') :
      (s.pc j).index = some k' := by
    rcases pc_update_cases s i .idle j with ⟨-, hpc⟩ | ⟨-, hpc⟩ <;> rw [hpc] at hj
    · exact nomatch hj
    · exact hj
  refine ⟨hlength, hlt, fun j j' k' hj hj' => h.own j j' k' (hpcs hj) (hpcs hj'),
    fun j k' hj => h.bound j k' (hpcs hj), fun j k' c' hj => ?_, fun k' hk' hall => ?_,
    fun k' hk' => hwritten.2 (h.read k' hk'), fun d hd k' hk' => hwritten.2 ?_,
    fun k' c' hk' => h.kept k' c' (hwritten.1 hk'), h.executed, fun k' hk' => ?_⟩
  · change Function.update s.pc i _ j = _ ∨ Function.update s.pc i _ j = _ at hj
    rcases pc_update_cases s i .idle j with ⟨-, hpc⟩ | ⟨-, hpc⟩ <;> rw [hpc] at hj
    · exact hj.elim nofun nofun
    · exact h.index j k' c' hj
  · refine h.room k' hk' fun j c' hj => hall j c' ?_
    have hji : j ≠ i := by
      rintro rfl
      rw [hi] at hj
      exact nomatch hj
    change Function.update s.pc i _ j = _
    rw [Function.update_of_ne hji]
    exact hj
  · obtain rfl := Option.some.inj hd
    rw [hdoorbell] at hk'
    refine ⟨by omega, fun j hj => ?_⟩
    have := horder j k' hj
    omega
  · change k' < s.read_index ∨ ∃ d, some (u64 (k + 1 + 2 ^ 64 - 1)) = some d ∧ k' ≤ d
    rw [hdoorbell]
    by_cases hkk : k' = k
    · exact .inr ⟨k, rfl, Nat.le_of_eq hkk⟩
    have hreturned : s.Returned k' := by
      refine ⟨hk'.1, fun j => ?_⟩
      have hj : (Function.update s.pc i .idle j).index ≠ some k' := hk'.2 j
      rcases pc_update_cases s i .idle j with ⟨rfl, -⟩ | ⟨-, hpc⟩
      · rw [hi]
        exact fun heq => hkk (Option.some.inj heq).symm
      · rwa [hpc] at hj
    rcases h.returned k' hreturned with hread | ⟨d, hd, hle⟩
    · exact .inl hread
    · rcases hbell d hd with hlt' | hlt'
      · exact .inr ⟨k, rfl, by omega⟩
      · exact .inl (Nat.lt_of_le_of_lt hle hlt')

/-- **The device executes** the next submission. -/
theorem execute (hb : b < 32) (h : Inv b s) {d : ℕ} (hd : s.doorbell = some d)
    (hread : s.read_index ≤ d) : Inv b (s.execute b) := by
  have hwritten := h.bell d hd s.read_index hread
  have hlength := h.length
  have hlt := h.lt
  have hsum : u64 (s.read_index + 1) = s.read_index + 1 := u64_of_lt (by have := hwritten.1; omega)
  have hget := List.getElem?_eq_getElem hwritten.1
  have hslot := h.kept _ _ hwritten (Nat.le_refl _) hget
  refine ⟨hlength, hlt, h.own, h.bound, h.index, fun k hk hall => ?_, fun k hk => ?_, h.bell,
    fun k c hk hread' hc => ?_, ?_, fun k hk => ?_⟩
  · have hroom := h.room k hk hall
    change k < u64 (s.read_index + 1) + 2 ^ b
    omega
  · change k < u64 (s.read_index + 1) at hk
    by_cases hkr : k = s.read_index
    · rw [hkr]
      exact hwritten
    · exact h.read k (by omega)
  · change u64 (s.read_index + 1) ≤ k at hread'
    exact h.kept k c hk (by omega) hc
  · change s.executed ++ [s.queue_buffer (s.read_index &&& queue_bitmask_ b)] =
      (s.submitted.take (u64 (s.read_index + 1))).map fun c => some c.packet
    rw [hsum, and_queue_bitmask hb, hslot, List.take_add_one, hget, List.map_append, h.executed]
    rfl
  · change k < u64 (s.read_index + 1) ∨ _
    rcases h.returned k hk with hk | hk
    · exact .inl (by omega)
    · exact .inr hk

/-- **A step keeps the invariant**, if the doorbell is written in order. -/
theorem step {op : Op} (hb : b < 32) (h : Inv b s) (horder : Ordered s op) (hstep : Step b s op t) :
    Inv b t := by
  cases op with
  | submit i c =>
    obtain ⟨hidle, rfl⟩ := hstep
    exact h.submit hidle horder
  | load i v =>
    obtain ⟨hv, k, c, hi, rfl⟩ := hstep
    exact h.load hv hi
  | populate i =>
    obtain ⟨k, c, hi, rfl⟩ := hstep
    exact h.populate hb hi
  | release i =>
    obtain ⟨k, hi, rfl⟩ := hstep
    obtain ⟨hbefore, hbell⟩ := horder k hi
    exact h.release hi hbefore hbell
  | execute =>
    obtain ⟨⟨d, hd, hread⟩, rfl⟩ := hstep
    exact h.execute hb hd hread

theorem init : Inv b {} where
  length := rfl
  lt := Nat.two_pow_pos 64
  own := nofun
  bound := nofun
  index _ _ _ h := h.elim nofun nofun
  room := nofun
  read := nofun
  bell := nofun
  kept _ _ h := nomatch h.1
  executed := rfl
  returned _ h := nomatch h.1

/-- **The device comes to the doorbell**, by induction on how far it is from it. -/
theorem drains (hb : b < 32) (h : Inv b s) :
    ∃ n t, Run (Step b) s (List.replicate n .execute) t ∧ ∀ u, ¬Step b t .execute u := by
  rcases hd : s.doorbell with _ | d
  · exact ⟨0, s, .nil s, fun u hstep => by
      obtain ⟨⟨d, hd', -⟩, -⟩ := hstep
      exact nomatch hd.symm.trans hd'⟩
  generalize hm : d + 1 - s.read_index = m
  induction m generalizing s with
  | zero =>
    refine ⟨0, s, .nil s, fun u hstep => ?_⟩
    obtain ⟨⟨d', hd', hread⟩, -⟩ := hstep
    obtain rfl := Option.some.inj (hd.symm.trans hd')
    omega
  | succ m ih =>
    have hread : s.read_index ≤ d := by omega
    have hlt := (h.bell d hd s.read_index hread).1
    have hsum : (s.execute b).read_index = s.read_index + 1 :=
      u64_of_lt (by have := h.lt; have := h.length; omega)
    obtain ⟨n, t, hrun, hend⟩ := ih (h.execute hb hd hread) hd (by omega)
    exact ⟨n + 1, t, .cons ⟨⟨d, hd, hread⟩, rfl⟩ hrun, hend⟩

/-- **What the invariant says.** -/
theorem sound (hb : b < 32) (h : Inv b s) : Sound b s where
  own := h.own
  index := h.index
  kept := h.kept
  executed := h.executed
  complete := by
    intro hend k hk
    rcases h.returned k hk with hread | ⟨d, hd, hle⟩
    · exact hread
    · by_contra hlt
      exact hend _ ⟨⟨d, hd, by omega⟩, rfl⟩
  drains := h.drains hb

end Inv

end

/-- **Every submission is executed once**, in every run in which the doorbell is written in order:
each has an index of its own, no packet is overwritten before it is executed, the device executes
the packets of the submissions in the order of their indices, and when it has nothing more to
execute, all submissions whose call has returned have been executed.  The ring has fewer than
`2 ^ 32` slots. -/
theorem submissions_of_run {b : ℕ} {t : State} {ops : List Op} (hb : b < 32)
    (h : Run (Guarded Ordered (Step b)) {} ops t) : Sound b t := by
  have hinv : Inv b t := h.inv (I := Inv b) (fun _ _ _ hinv hstep => hinv.step hb hstep.1 hstep.2)
    .init
  exact hinv.sound hb

/-! ### Two threads -/

section Two

/-- Two submissions to a ring of two slots, each executed. -/
theorem submissions_of_run_two : ∃ t, t.executed.length = 2 ∧ Sound 1 t := by
  refine ⟨_, ?_, submissions_of_run (by decide) (show Run (Guarded Ordered (Step 1)) {}
      [.submit 0 ⟨1, 2, 3, 4⟩, .submit 1 ⟨5, 6, 7, 8⟩, .load 1 0, .load 0 0, .populate 0,
        .release 0, .populate 1, .release 1, .execute, .execute] _ from
    .cons ⟨(by decide : 0 + 1 < 2 ^ 64), rfl, rfl⟩
    (.cons ⟨(by decide : u64 (0 + 1) + 1 < 2 ^ 64), rfl, rfl⟩
    (.cons ⟨trivial, Nat.le_refl _, 1, ⟨5, 6, 7, 8⟩, rfl, rfl⟩
    (.cons ⟨trivial, Nat.le_refl _, 0, ⟨1, 2, 3, 4⟩, rfl, rfl⟩
    (.cons ⟨trivial, 0, ⟨1, 2, 3, 4⟩, rfl, rfl⟩
    (.cons ⟨?_, 0, rfl, rfl⟩
    (.cons ⟨trivial, 1, ⟨5, 6, 7, 8⟩, rfl, rfl⟩
    (.cons ⟨?_, 1, rfl, rfl⟩
    (.cons ⟨trivial, ⟨1, rfl, by decide⟩, rfl⟩
    (.cons ⟨trivial, ⟨1, rfl, by decide⟩, rfl⟩ (.nil _)))))))))))⟩
  · rfl
  · intro w hw
    obtain rfl : 0 = w := Pc.releasing.inj hw
    refine ⟨fun j k hj => ?_, nofun⟩
    rcases j with _ | _ | j
    · exact nomatch (show none = some k from hj)
    · obtain rfl : 1 = k := Option.some.inj hj
      decide
    · exact nomatch (show none = some k from hj)
  · intro w hw
    obtain rfl : 1 = w := Pc.releasing.inj hw
    refine ⟨fun j k hj => ?_, fun d hd => ?_⟩
    · rcases j with _ | _ | j <;> exact nomatch (show none = some k from hj)
    · obtain rfl : 0 = d := Option.some.inj hd
      exact .inl (by decide)

/-- The second of two threads overtakes the first one: it writes the doorbell, and the device
executes the slot of the first one, which holds no packet. -/
theorem unwritten_slot_executed : ∃ t, Run (Step 1) {}
    [.submit 0 ⟨1, 2, 3, 4⟩, .submit 1 ⟨5, 6, 7, 8⟩, .load 1 0, .populate 1, .release 1,
      .execute] t ∧ t.executed = [none] ∧ ¬Sound 1 t := by
  refine ⟨_, .cons ⟨rfl, rfl⟩ (.cons ⟨rfl, rfl⟩
    (.cons ⟨Nat.le_refl _, 1, ⟨5, 6, 7, 8⟩, rfl, rfl⟩ (.cons ⟨1, ⟨5, 6, 7, 8⟩, rfl, rfl⟩
    (.cons ⟨1, rfl, rfl⟩ (.cons ⟨⟨1, rfl, by decide⟩, rfl⟩ (.nil _)))))), rfl, fun h => ?_⟩
  have hexecuted : [none] = [some (Copy.packet ⟨1, 2, 3, 4⟩)] := h.executed
  exact nomatch (List.cons.inj hexecuted).1

end Two

end Codrive.Dma.Blit
