/-
# Owners in every interleaving

Any number of queues and priorities, and the steps of their threads in any order.  The links between
queues and hardware queues stay a partial bijection (`DlaDevice.Links`) and the limit holds.  Two
things go wrong: a hardware queue that is given up between the two passes of a thief is read through
its missing owner in the second pass, and a thief looks at the list of one priority only.  `Calm`
has the steps where neither happens.
-/

import Codrive.Basis.Run
import Codrive.Csq.RocrQueues
import Mathlib.Data.List.Nodup

namespace Codrive.Csq

open Codrive.Basis

/-! ### Links -/

/-- **The links are a partial bijection** of queues and hardware queues. -/
structure DlaDevice.Links (d : DlaDevice) : Prop where
  owner : ∀ p, ∀ r ∈ d.rocrQueues p, ∀ q, (d.rocr r)._hccQueue = some q ↔ d.rocrQueue q = some r
  live : ∀ q r, d.rocrQueue q = some r → ∃ p, r ∈ d.rocrQueues p
  listed : ∀ p, ∀ r ∈ d.rocrQueues p, (d.rocr r)._priority = p ∧ r < d.made
  nodup : ∀ p, (d.rocrQueues p).Nodup

/-- The device after `assignHccQueue`. -/
def DlaDevice.assigned (r q : ℕ) (d : DlaDevice) : DlaDevice :=
  { d with
    rocrQueue := Function.update d.rocrQueue q (some r)
    rocr := Function.update d.rocr r { d.rocr r with _hccQueue := some q } }

/-- The device with a hardware queue that is given up and kept. -/
def DlaDevice.released (r q : ℕ) (d : DlaDevice) : DlaDevice :=
  { d with
    rocrQueue := Function.update d.rocrQueue q none
    rocr := Function.update d.rocr r { d.rocr r with _hccQueue := none } }

/-- The device with a new hardware queue. -/
def DlaDevice.added (p : QueuePriority) (d : DlaDevice) : DlaDevice :=
  { d with
    made := d.made + 1
    rocr := Function.update d.rocr d.made ⟨none, p⟩
    rocrQueues := Function.update d.rocrQueues p (d.rocrQueues p ++ [d.made]) }

/-- The device with a hardware queue that is given up and destroyed. -/
def DlaDevice.erased (r q : ℕ) (p : QueuePriority) (d : DlaDevice) : DlaDevice :=
  { d with
    rocrQueue := Function.update d.rocrQueue q none
    rocrQueues := Function.update d.rocrQueues p ((d.rocrQueues p).erase r) }

section

variable {d d' : DlaDevice} {r r' q q' : ℕ} {p p' : QueuePriority} {ndebug : Bool}

theorem mem_added : r ∈ (d.added p).rocrQueues p' ↔ r ∈ d.rocrQueues p' ∨ p' = p ∧ r = d.made := by
  unfold DlaDevice.added
  by_cases hp : p' = p
  · rw [hp]
    simp
  · simp [hp]

variable (h : d.Links)
include h

theorem DlaDevice.Links.owner_of_link (hq : d.rocrQueue q = some r) :
    ∃ p, r ∈ d.rocrQueues p ∧ (d.rocr r)._hccQueue = some q := by
  obtain ⟨p, hr⟩ := h.live q r hq
  exact ⟨p, hr, (h.owner p r hr q).2 hq⟩

/-- An unused hardware queue is assigned to a queue without one. -/
theorem DlaDevice.Links.assigned (hr : r ∈ d.rocrQueues p) (hfree : (d.rocr r)._hccQueue = none)
    (hq : d.rocrQueue q = none) : (d.assigned r q).Links := by
  refine ⟨?_, ?_, ?_, h.nodup⟩
  · intro p' r' hr' q'
    have howner := h.owner p' r' hr' q'
    unfold DlaDevice.assigned
    dsimp only
    by_cases hrr : r' = r
    · subst hrr
      rw [Function.update_self]
      by_cases hqq : q' = q
      · rw [hqq, Function.update_self]
        simp
      · rw [Function.update_of_ne hqq, ← howner, hfree]
        simp [Ne.symm hqq]
    · rw [Function.update_of_ne hrr, howner]
      by_cases hqq : q' = q
      · rw [hqq, Function.update_self, hq]
        simp [Ne.symm hrr]
      · rw [Function.update_of_ne hqq]
  · intro q' r' hlink
    unfold DlaDevice.assigned at hlink
    dsimp only at hlink
    by_cases hqq : q' = q
    · rw [hqq, Function.update_self] at hlink
      cases hlink
      exact ⟨p, hr⟩
    · rw [Function.update_of_ne hqq] at hlink
      exact h.live q' r' hlink
  · intro p' r' hr'
    have := h.listed p' r' hr'
    unfold DlaDevice.assigned
    dsimp only
    by_cases hrr : r' = r
    · rw [hrr, Function.update_self]
      exact hrr ▸ this
    · rw [Function.update_of_ne hrr]
      exact this

/-- The owner of a hardware queue gives it up. -/
theorem DlaDevice.Links.released (hq : d.rocrQueue q = some r) : (d.released r q).Links := by
  obtain ⟨p, hr, howned⟩ := h.owner_of_link hq
  refine ⟨?_, ?_, ?_, h.nodup⟩
  · intro p' r' hr' q'
    have howner := h.owner p' r' hr' q'
    unfold DlaDevice.released
    dsimp only
    by_cases hrr : r' = r
    · subst hrr
      rw [Function.update_self]
      by_cases hqq : q' = q
      · rw [hqq, Function.update_self]
        simp
      · rw [Function.update_of_ne hqq, ← howner, howned]
        simp [Ne.symm hqq]
    · rw [Function.update_of_ne hrr, howner]
      by_cases hqq : q' = q
      · rw [hqq, Function.update_self, hq]
        simp [Ne.symm hrr]
      · rw [Function.update_of_ne hqq]
  · intro q' r' hlink
    unfold DlaDevice.released at hlink
    dsimp only at hlink
    by_cases hqq : q' = q
    · rw [hqq, Function.update_self] at hlink
      cases hlink
    · rw [Function.update_of_ne hqq] at hlink
      exact h.live q' r' hlink
  · intro p' r' hr'
    have := h.listed p' r' hr'
    unfold DlaDevice.released
    dsimp only
    by_cases hrr : r' = r
    · rw [hrr, Function.update_self]
      exact hrr ▸ this
    · rw [Function.update_of_ne hrr]
      exact this

/-- A new hardware queue is unused. -/
theorem DlaDevice.Links.added (p : QueuePriority) : (d.added p).Links := by
  have hne {p' r'} (hr' : r' ∈ d.rocrQueues p') : r' ≠ d.made := by
    have := (h.listed p' r' hr').2
    omega
  refine ⟨?_, ?_, ?_, ?_⟩
  · intro p' r' hr' q'
    rcases mem_added.1 hr' with hr' | ⟨-, rfl⟩
    · unfold DlaDevice.added
      dsimp only
      rw [Function.update_of_ne (hne hr')]
      exact h.owner p' r' hr' q'
    · unfold DlaDevice.added
      dsimp only
      rw [Function.update_self]
      refine ⟨fun hnone => (by cases hnone), fun hlink => ?_⟩
      obtain ⟨p'', hr''⟩ := h.live q' _ hlink
      exact absurd rfl (hne hr'')
  · intro q' r' hlink
    obtain ⟨p', hr'⟩ := h.live q' r' hlink
    exact ⟨p', mem_added.2 (.inl hr')⟩
  · intro p' r' hr'
    rcases mem_added.1 hr' with hr' | ⟨rfl, rfl⟩
    · obtain ⟨hprio, hlt⟩ := h.listed p' r' hr'
      unfold DlaDevice.added
      dsimp only
      rw [Function.update_of_ne (hne hr')]
      exact ⟨hprio, Nat.lt_succ_of_lt hlt⟩
    · unfold DlaDevice.added
      dsimp only
      rw [Function.update_self]
      exact ⟨rfl, Nat.lt_succ_self _⟩
  · intro p'
    unfold DlaDevice.added
    dsimp only
    by_cases hp : p' = p
    · rw [hp, Function.update_self]
      refine List.nodup_append.2 ⟨h.nodup p, List.nodup_singleton _, ?_⟩
      intro a ha b hb
      rw [List.mem_singleton.1 hb]
      exact hne ha
    · rw [Function.update_of_ne hp]
      exact h.nodup p'

theorem DlaDevice.Links.mem_erased (p : QueuePriority) (hr : r' ∈ (d.erased r q p).rocrQueues p') :
    r' ∈ d.rocrQueues p' ∧ (p' = p → r' ≠ r) := by
  unfold DlaDevice.erased at hr
  dsimp only at hr
  by_cases hp : p' = p
  · rw [hp, Function.update_self] at hr
    obtain ⟨hne, hmem⟩ := ((h.nodup p).mem_erase_iff).1 hr
    exact ⟨hp ▸ hmem, fun _ => hne⟩
  · rw [Function.update_of_ne hp] at hr
    exact ⟨hr, fun hpp => absurd hpp hp⟩

/-- The owner of a hardware queue gives it up, and it is destroyed. -/
theorem DlaDevice.Links.erased (hq : d.rocrQueue q = some r) (hr : r ∈ d.rocrQueues p) :
    (d.erased r q p).Links := by
  have hother {p' r'} (hr' : r' ∈ (d.erased r q p).rocrQueues p') : r' ≠ r := by
    intro hrr
    obtain ⟨hmem, hne⟩ := h.mem_erased p hr'
    refine hne ?_ hrr
    rw [← (h.listed p' r' hmem).1, hrr, (h.listed p r hr).1]
  refine ⟨?_, ?_, ?_, ?_⟩
  · intro p' r' hr' q'
    have howner := h.owner p' r' (h.mem_erased p hr').1 q'
    unfold DlaDevice.erased
    dsimp only
    rw [howner]
    by_cases hqq : q' = q
    · rw [hqq, Function.update_self, hq]
      simp [Ne.symm (hother hr')]
    · rw [Function.update_of_ne hqq]
  · intro q' r' hlink
    unfold DlaDevice.erased at hlink ⊢
    dsimp only at hlink ⊢
    by_cases hqq : q' = q
    · rw [hqq, Function.update_self] at hlink
      cases hlink
    · rw [Function.update_of_ne hqq] at hlink
      obtain ⟨p', hr', howned'⟩ := h.owner_of_link hlink
      have hrr : r' ≠ r := by
        rintro rfl
        rw [(h.owner p r' hr q).2 hq] at howned'
        cases howned'
        exact hqq rfl
      refine ⟨p', ?_⟩
      by_cases hp : p' = p
      · rw [hp, Function.update_self]
        exact (List.mem_erase_of_ne hrr).2 (hp ▸ hr')
      · rw [Function.update_of_ne hp]
        exact hr'
  · intro p' r' hr'
    exact h.listed p' r' (h.mem_erased p hr').1
  · intro p'
    unfold DlaDevice.erased
    dsimp only
    by_cases hp : p' = p
    · rw [hp, Function.update_self]
      exact (h.nodup p).erase r
    · rw [Function.update_of_ne hp]
      exact h.nodup p'

end

/-! ### Steps -/

/-- A queue that has no hardware queue: it does not exist yet or any more, or looks for one. -/
def Pc.needy : Pc → Bool
  | .constructed => false
  | .idle => false
  | .using => false
  | _ => true

/-- The queue has a hardware queue, and `createOrstealRocrQueue` has returned. -/
def DlaDevice.Served (d : DlaDevice) (q : ℕ) : Prop :=
  (∃ r, d.rocrQueue q = some r) ∧ (d.pc q = .constructed ∨ d.pc q = .using)

/-- **The invariant of the device.** -/
structure DlaDevice.Inv (HCC_MAX_QUEUES : ℕ) (d : DlaDevice) : Prop where
  links : d.Links
  needy : ∀ q, (d.pc q).needy → d.rocrQueue q = none
  bounded : d.rqSize ≤ HCC_MAX_QUEUES
  between : ∀ q c p, d.pc q = .secondPass c p → ∀ r ∈ d.rocrQueues p, (d.rocr r)._hccQueue ≠ none

/-- All hardware queues are in the list that a queue looks at. -/
def DlaDevice.OneList (d : DlaDevice) (q : ℕ) : Prop :=
  ∀ c p, d.pc q = .firstPass c p ∨ d.pc q = .secondPass c p →
    ∀ p', p' ≠ p → d.rocrQueues p' = []

section

variable {d d' : DlaDevice} {r q : ℕ} {c ndebug : Bool} {p : QueuePriority} {HCC_MAX_QUEUES : ℕ}

/-- The thread of a queue gets on. -/
theorem DlaDevice.Inv.goto (h : d.Inv HCC_MAX_QUEUES) {pc : Pc}
    (hneedy : pc.needy → d.rocrQueue q = none)
    (hpass : ∀ c p, pc = .secondPass c p → ∀ r ∈ d.rocrQueues p, (d.rocr r)._hccQueue ≠ none) :
    (d.goto q pc).Inv HCC_MAX_QUEUES := by
  refine ⟨⟨h.links.owner, h.links.live, h.links.listed, h.links.nodup⟩, ?_, h.bounded, ?_⟩
  · intro q' hq'
    unfold DlaDevice.goto at hq'
    dsimp only at hq'
    by_cases hqq : q' = q
    · rw [hqq, Function.update_self] at hq'
      rw [hqq]
      exact hneedy hq'
    · rw [Function.update_of_ne hqq] at hq'
      exact h.needy q' hq'
  · intro q' c p hq'
    unfold DlaDevice.goto at hq'
    dsimp only at hq'
    by_cases hqq : q' = q
    · rw [hqq, Function.update_self] at hq'
      exact hpass c p hq'
    · rw [Function.update_of_ne hqq] at hq'
      exact h.between q' c p hq'

/-- The invariant but for the owner of one hardware queue. -/
structure DlaDevice.InvBut (HCC_MAX_QUEUES r : ℕ) (d : DlaDevice) : Prop where
  links : d.Links
  needy : ∀ q, (d.pc q).needy → d.rocrQueue q = none
  bounded : d.rqSize ≤ HCC_MAX_QUEUES
  between : ∀ q c p, d.pc q = .secondPass c p → ∀ r' ∈ d.rocrQueues p, r' ≠ r →
    (d.rocr r')._hccQueue ≠ none

/-- A queue without a hardware queue gets an unused one, and returns. -/
theorem DlaDevice.InvBut.assigned (h : d.InvBut HCC_MAX_QUEUES r) (hr : r ∈ d.rocrQueues p)
    (hfree : (d.rocr r)._hccQueue = none) (hq : d.rocrQueue q = none) :
    ((d.assigned r q).finish q c).Inv HCC_MAX_QUEUES ∧
      ((d.assigned r q).finish q c).Served q := by
  have hlinks := h.links.assigned hr hfree hq
  have hfinish : ((d.assigned r q).finish q c).pc q = if c then .constructed else .using :=
    Function.update_self ..
  have hserved : ((d.assigned r q).finish q c).rocrQueue q = some r := Function.update_self ..
  have hpc {q'} (hqq : q' ≠ q) : ((d.assigned r q).finish q c).pc q' = d.pc q' :=
    Function.update_of_ne hqq ..
  refine ⟨⟨⟨hlinks.owner, hlinks.live, hlinks.listed, hlinks.nodup⟩, ?_, h.bounded, ?_⟩, ?_⟩
  · intro q' hq'
    by_cases hqq : q' = q
    · rw [hqq, hfinish] at hq'
      cases c <;> cases hq'
    · have hlink : ((d.assigned r q).finish q c).rocrQueue q' = d.rocrQueue q' :=
        Function.update_of_ne hqq ..
      rw [hlink]
      exact h.needy q' (hpc hqq ▸ hq')
  · intro q' c' p hq' r' hr'
    by_cases hqq : q' = q
    · rw [hqq, hfinish] at hq'
      cases c <;> cases hq'
    · change (Function.update d.rocr r { d.rocr r with _hccQueue := some q } r')._hccQueue ≠ none
      by_cases hrr : r' = r
      · rw [hrr, Function.update_self]
        simp
      · rw [Function.update_of_ne hrr]
        exact h.between q' c' p (hpc hqq ▸ hq') r' hr' hrr
  · refine ⟨⟨r, hserved⟩, ?_⟩
    rw [hfinish]
    cases c
    · exact .inr rfl
    · exact .inl rfl

/-- The owner of a hardware queue gives it up. -/
theorem DlaDevice.Inv.released (h : d.Inv HCC_MAX_QUEUES) (hlink : d.rocrQueue q = some r) :
    (d.released r q).InvBut HCC_MAX_QUEUES r := by
  refine ⟨h.links.released hlink, ?_, h.bounded, ?_⟩
  · intro q' hq'
    by_cases hqq : q' = q
    · rw [hqq]
      exact Function.update_self ..
    · exact (Function.update_of_ne hqq ..).trans (h.needy q' hq')
  · intro q' c p hpc r' hr' hne
    have hrocr : (d.released r q).rocr r' = d.rocr r' := Function.update_of_ne hne ..
    rw [hrocr]
    exact h.between q' c p hpc r' hr'

/-- A queue without a hardware queue is gone. -/
theorem DlaDevice.Inv.disposed (h : d.Inv HCC_MAX_QUEUES) (hq : d.rocrQueue q = none) :
    ({ d.goto q .disposed with disposing := none } : DlaDevice).Inv HCC_MAX_QUEUES := by
  have hgoto : (d.goto q .disposed).Inv HCC_MAX_QUEUES :=
    h.goto (fun _ => hq) fun c p hpass => by cases hpass
  exact ⟨⟨hgoto.links.owner, hgoto.links.live, hgoto.links.listed, hgoto.links.nodup⟩,
    hgoto.needy, hgoto.bounded, hgoto.between⟩

theorem rqSize_erased_le : (d.erased r q p).rqSize ≤ d.rqSize := by
  have hle : ((d.rocrQueues p).erase r).length ≤ (d.rocrQueues p).length := List.length_erase_le
  unfold DlaDevice.rqSize DlaDevice.erased
  cases p <;> simp [Function.update] <;> omega

/-- The owner of a hardware queue gives it up, and it is destroyed. -/
theorem DlaDevice.Inv.erased (h : d.Inv HCC_MAX_QUEUES) (hlink : d.rocrQueue q = some r)
    (hr : r ∈ d.rocrQueues p) : (d.erased r q p).Inv HCC_MAX_QUEUES := by
  refine ⟨h.links.erased hlink hr, ?_, Nat.le_trans rqSize_erased_le h.bounded, ?_⟩
  · intro q' hq'
    by_cases hqq : q' = q
    · rw [hqq]
      exact Function.update_self ..
    · exact (Function.update_of_ne hqq ..).trans (h.needy q' hq')
  · intro q' c p' hpc r' hr'
    exact h.between q' c p' hpc r' (h.links.mem_erased p hr').1

end

/-! ### Runs -/

section

variable {d : DlaDevice} {r q : ℕ} {c ndebug : Bool} {p p' : QueuePriority} {HCC_MAX_QUEUES : ℕ}

theorem DlaDevice.OneList.mem (h : d.OneList q)
    (hpc : d.pc q = .firstPass c p ∨ d.pc q = .secondPass c p) (hr : r ∈ d.rocrQueues p') :
    r ∈ d.rocrQueues p := by
  by_cases hp : p' = p
  · exact hp ▸ hr
  · rw [h c p hpc p' hp] at hr
    cases hr

end

end Codrive.Csq
