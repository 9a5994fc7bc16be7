/-
# Ledgers

Resources that are held, and owners that each answer for some of them.  The ledger is balanced if
what is held is what the owners answer for and no resource has two owners or is listed twice.  A
new owner of resources that were not held and an owner that goes and gives back what it answers for
keep the balance, and giving back never meets a resource that is not held.
-/

import Mathlib.Data.Finset.Basic
import Mathlib.Data.Finset.SDiff
import Mathlib.Logic.Function.Basic

namespace Codrive.Basis

variable {α β γ : Type*}

/-- Giving back one resource after another: `none` if one of them is not held. -/
def giveBack [DecidableEq β] (held : Finset β) : List β → Option (Finset β)
  | [] => some held
  | b :: bs => if b ∈ held then giveBack (held.erase b) bs else none

/-- What is held and listed once can be given back. -/
theorem giveBack_eq_some [DecidableEq β] {held : Finset β} {bs : List β} (hbs : bs.Nodup)
    (hheld : ∀ b ∈ bs, b ∈ held) : giveBack held bs = some (held \ bs.toFinset) := by
  induction bs generalizing held with
  | nil => simp [giveBack]
  | cons b bs ih =>
    rw [List.nodup_cons] at hbs
    have hrest : ∀ x ∈ bs, x ∈ held.erase b := by
      intro x hx
      have hne : x ≠ b := by
        rintro rfl
        exact hbs.1 hx
      exact Finset.mem_erase.2 ⟨hne, hheld x (List.mem_cons_of_mem _ hx)⟩
    rw [giveBack, if_pos (hheld b (List.mem_cons_self ..)), ih hbs.2 hrest]
    congr 1
    ext x
    simp only [Finset.mem_sdiff, Finset.mem_erase, List.mem_toFinset, List.mem_cons]
    tauto

/-- What is held is what the owners answer for, each for its own. -/
structure Ledger (held : Set β) (owners : α → Option γ) (parts : α → γ → List β) : Prop where
  mem_iff : ∀ b, b ∈ held ↔ ∃ a c, owners a = some c ∧ b ∈ parts a c
  nodup : ∀ a c, owners a = some c → (parts a c).Nodup
  owner_eq : ∀ a c a' c' b, owners a = some c → owners a' = some c' → b ∈ parts a c →
    b ∈ parts a' c' → a = a'

namespace Ledger

variable {held : Set β} {owners : α → Option γ} {parts : α → γ → List β} {a x : α} {c y : γ}

/-- Without owners, nothing is held. -/
theorem of_empty : Ledger (∅ : Set β) (fun _ : α => (none : Option γ)) parts where
  mem_iff b := by simp
  nodup a c h := by cases h
  owner_eq a c a' c' b h := by cases h

/-- **When the last owner is gone,** nothing is held. -/
theorem eq_empty (h : Ledger held owners parts) (hnone : ∀ a, owners a = none) : held = ∅ := by
  ext b
  rw [h.mem_iff]
  simp [hnone]

/-- What an owner answers for is held. -/
theorem mem (h : Ledger held owners parts) (ha : owners a = some c) {b : β} (hb : b ∈ parts a c) :
    b ∈ held :=
  (h.mem_iff b).2 ⟨a, c, ha, hb⟩

variable [DecidableEq α]

/-- Who is an owner next to a new one. -/
theorem update_some (h : Function.update owners a (some c) x = some y) :
    x = a ∧ c = y ∨ x ≠ a ∧ owners x = some y := by
  by_cases hx : x = a
  · subst hx
    rw [Function.update_self] at h
    cases h
    exact .inl ⟨rfl, rfl⟩
  · rw [Function.update_of_ne hx] at h
    exact .inr ⟨hx, h⟩

/-- Who is an owner when one has gone. -/
theorem update_none (h : Function.update owners a none x = some y) : x ≠ a ∧ owners x = some y := by
  have hx : x ≠ a := by
    rintro rfl
    rw [Function.update_self] at h
    cases h
  rw [Function.update_of_ne hx] at h
  exact ⟨hx, h⟩

/-- **A new owner** of what was not held. -/
theorem insert (h : Ledger held owners parts) (ha : owners a = none) (hc : (parts a c).Nodup)
    (hfresh : ∀ b ∈ parts a c, b ∉ held) :
    Ledger (held ∪ {b | b ∈ parts a c}) (Function.update owners a (some c)) parts where
  mem_iff b := by
    constructor
    · rintro (hb | hb)
      · obtain ⟨x, y, hx, hy⟩ := (h.mem_iff b).1 hb
        have hne : x ≠ a := by
          rintro rfl
          rw [ha] at hx
          cases hx
        exact ⟨x, y, by rwa [Function.update_of_ne hne], hy⟩
      · exact ⟨a, c, Function.update_self .., hb⟩
    · rintro ⟨x, y, hx, hy⟩
      obtain ⟨rfl, rfl⟩ | ⟨-, hx⟩ := update_some hx
      · exact .inr hy
      · exact .inl (h.mem hx hy)
  nodup x y hx := by
    obtain ⟨rfl, rfl⟩ | ⟨-, hx⟩ := update_some hx
    · exact hc
    · exact h.nodup x y hx
  owner_eq x y x' y' b hx hx' hy hy' := by
    -- if one of the two is new, the other one answers for what was held before
    obtain ⟨rfl, rfl⟩ | ⟨-, howns⟩ := update_some hx <;>
      obtain ⟨rfl, rfl⟩ | ⟨-, howns'⟩ := update_some hx'
    · rfl
    · exact absurd (h.mem howns' hy') (hfresh b hy)
    · exact absurd (h.mem howns hy) (hfresh b hy')
    · exact h.owner_eq x y x' y' b howns howns' hy hy'

/-- **An owner goes,** and with it what it answers for. -/
theorem erase (h : Ledger held owners parts) (ha : owners a = some c) :
    Ledger (held \ {b | b ∈ parts a c}) (Function.update owners a none) parts where
  mem_iff b := by
    constructor
    · rintro ⟨hb, hnot⟩
      obtain ⟨x, y, hx, hy⟩ := (h.mem_iff b).1 hb
      have hne : x ≠ a := by
        rintro rfl
        rw [ha] at hx
        cases hx
        exact hnot hy
      exact ⟨x, y, by rwa [Function.update_of_ne hne], hy⟩
    · rintro ⟨x, y, hx, hy⟩
      obtain ⟨hne, hx⟩ := update_none hx
      exact ⟨h.mem hx hy, fun hb => hne (h.owner_eq x y a c b hx ha hy hb)⟩
  nodup x y hx := h.nodup x y (update_none hx).2
  owner_eq x y x' y' b hx hx' hy hy' :=
    h.owner_eq x y x' y' b (update_none hx).2 (update_none hx').2 hy hy'

end Ledger

end Codrive.Basis
