/-
# What the allocator's helpers do to the entries

One lemma per helper of `src/src/device/MemObj.cpp`, on the entries around the node it is
called on: `insertafter`, `remove`, `merge`, the splits, and the three walks.
-/

import Codrive.Device.FreeList

namespace Codrive.Device

open Codrive.Basis

variable (ndebug : Bool) {m : Memory} {P S U V : List (ℕ × Node)} {b c d r : ℕ}
  {nb nc nd : Node}

theorem first?_eq (m : Memory) : m.first? = (m.entries.map Prod.fst).head? := by
  rw [OrderedMap.first?, List.head?_map]

/-- `memory.begin()` is the start guard. -/
theorem Shape.first? {pool length : ℕ} (hl : Shape pool length m.entries) :
    m.first? = some 0 := by
  obtain ⟨⟨_, n⟩, hz, rfl⟩ := List.mem_map.1 hl.zero_mem
  exact OrderedMap.first?_of_forall_le hz fun e _ => Nat.zero_le _

theorem isfree_eq (h : m.first? = some 0) (k : ℕ) (n : Node) :
    isfree m n = isFreeEntry (k, n) := by
  rw [isfree, isFreeEntry, h]

/-- **`insertafter` links the node between its free neighbours.** -/
theorem insertafter_spec
    (he : m.entries = P ++ (b, nb) :: (U ++ (c, nc) :: (V ++ (d, nd) :: S)))
    (hf : isfree m nb = true) (hn : nb.next = some d) :
    ∃ m', insertafter ndebug m b c = some m' ∧
      m'.entries = P ++ (b, { nb with next := some c }) ::
        (U ++ (c, { nc with next := some d, prior := some b }) ::
          (V ++ (d, { nd with prior := some c }) :: S)) := by
  have hbc : b < c := (OrderedMap.lt_of_entries he).2 (c, nc) (by simp)
  have hb := OrderedMap.find?_of_entries he
  obtain ⟨m₁, h₁, e₁⟩ := OrderedMap.exists_update?
    (fun n => { n with next := some d, prior := some b })
    (show m.entries = (P ++ (b, nb) :: U) ++ (c, nc) :: (V ++ (d, nd) :: S) by simp [he])
  obtain ⟨m₂, h₂, e₂⟩ := OrderedMap.exists_update? (fun n => { n with next := some c })
    (show m₁.entries = P ++ (b, nb) :: (U ++ (c, { nc with next := some d, prior := some b }) ::
      (V ++ (d, nd) :: S)) by simp [e₁])
  obtain ⟨m₃, h₃, e₃⟩ := OrderedMap.exists_update? (fun n => { n with prior := some c })
    (show m₂.entries = (P ++ (b, { nb with next := some c }) ::
      (U ++ (c, { nc with next := some d, prior := some b }) :: V)) ++ (d, nd) :: S by simp [e₂])
  refine ⟨m₃, ?_, by simp [e₃]⟩
  simp [insertafter, assert_of_true, hbc, hb, hf, hn, h₁, h₂, h₃]

/-- **`remove` unlinks the node and marks it used.** -/
theorem remove_spec
    (he : m.entries = P ++ (b, nb) :: (U ++ (c, nc) :: (V ++ (d, nd) :: S)))
    (hf : isfree m nc = true) (hp : nc.prior = some b) (hn : nc.next = some d) :
    ∃ m', remove ndebug m c = some m' ∧
      m'.entries = P ++ (b, { nb with next := some d }) ::
        (U ++ (c, { nc with next := m.first? }) ::
          (V ++ (d, { nd with prior := some b }) :: S)) := by
  have hc : m.find? c = some nc := OrderedMap.find?_of_entries
    (show m.entries = (P ++ (b, nb) :: U) ++ (c, nc) :: (V ++ (d, nd) :: S) by simp [he])
  obtain ⟨m₁, h₁, e₁⟩ := OrderedMap.exists_update? (fun p => { p with next := some d }) he
  have hc₁ : m₁.find? c = some nc := OrderedMap.find?_of_entries
    (show m₁.entries = (P ++ (b, { nb with next := some d }) :: U) ++ (c, nc) ::
      (V ++ (d, nd) :: S) by simp [e₁])
  obtain ⟨m₂, h₂, e₂⟩ := OrderedMap.exists_update? (fun q => { q with prior := some b })
    (show m₁.entries = (P ++ (b, { nb with next := some d }) :: (U ++ (c, nc) :: V)) ++
      (d, nd) :: S by simp [e₁])
  obtain ⟨m₃, h₃, e₃⟩ := OrderedMap.exists_update? (fun n => { n with next := m₂.first? })
    (show m₂.entries = (P ++ (b, { nb with next := some d }) :: U) ++ (c, nc) ::
      (V ++ (d, { nd with prior := some b }) :: S) by simp [e₂])
  have hfirst : m₂.first? = m.first? := by
    rw [first?_eq, first?_eq, he, e₂]
    simp
  refine ⟨m₃, ?_, by simp [e₃, hfirst]⟩
  simp [remove, assert_of_true, hc, hf, hp, hn, h₁, hc₁, h₂, h₃]

/-- **`merge` gives the bytes of the high node to the low one** when they touch. -/
theorem merge_spec
    (he : m.entries = P ++ (b, nb) :: (c, nc) :: (V ++ (d, nd) :: S))
    (hfb : isfree m nb = true) (hfc : isfree m nc = true) (hn : nc.next = some d)
    (ht : b + nb.len = c) (hc : c < 2 ^ 64) (hlen : nb.len + nc.len < 2 ^ 64) :
    ∃ m', merge ndebug m b c = some (b, m') ∧
      m'.entries = P ++ (b, { nb with len := nb.len + nc.len, next := some d }) ::
        (V ++ (d, { nd with prior := some b }) :: S) := by
  have hb := OrderedMap.find?_of_entries he
  have hc' : m.find? c = some nc := OrderedMap.find?_of_entries
    (show m.entries = (P ++ [(b, nb)]) ++ (c, nc) :: (V ++ (d, nd) :: S) by simp [he])
  obtain ⟨m₁, h₁, e₁⟩ := OrderedMap.exists_update?
    (fun n => { n with len := u64 (n.len + nc.len), next := some d }) he
  obtain ⟨m₂, h₂, e₂⟩ := OrderedMap.exists_update? (fun n => { n with prior := some b })
    (show m₁.entries = (P ++ (b, { nb with len := u64 (nb.len + nc.len), next := some d }) ::
      (c, nc) :: V) ++ (d, nd) :: S by simp [e₁])
  have e₃ := OrderedMap.entries_erase_of_entries
    (show m₂.entries = (P ++ [(b, { nb with len := u64 (nb.len + nc.len), next := some d })]) ++
      (c, nc) :: (V ++ (d, { nd with prior := some b }) :: S) by simp [e₂])
  refine ⟨m₂.erase c, ?_, by simp [e₃, u64_of_lt hlen]⟩
  simp [merge, assert_of_true, hb, hc', hfb, hfc, ht, u64_of_lt hc, islastfree, hn, h₁, h₂]

/-- `merge` leaves nodes alone that do not touch. -/
theorem merge_of_ne (hb : m.find? b = some nb) (hc : m.find? c = some nc)
    (hfb : isfree m nb = true) (hfc : isfree m nc = true) (ht : u64 (b + nb.len) ≠ c) :
    merge ndebug m b c = some (c, m) := by
  simp [merge, assert_of_true, hb, hc, hfb, hfc, ht]

/-- **A split leaves the low part where it was and links the high part after it.** -/
theorem splitNode_spec (len : ℕ)
    (he : m.entries = P ++ (c, nc) :: (V ++ (d, nd) :: S))
    (hf : isfree m nc = true) (hn : nc.next = some d)
    (hr : ∀ e ∈ V ++ (d, nd) :: S, r < e.1) (hcr : c < r) (hlen : len ≤ nc.len)
    (hlt : nc.len < 2 ^ 64) :
    ∃ m', splitNode ndebug m c nc r len = some m' ∧
      m'.entries = P ++ (c, { nc with len := len, next := some r }) ::
        (r, { len := nc.len - len, next := some d, prior := some c }) ::
          (V ++ (d, { nd with prior := some r }) :: S) := by
  have hP : ∀ e ∈ P ++ [(c, nc)], e.1 < r := by
    intro e h
    rcases List.mem_append.1 h with h | h
    · exact ((OrderedMap.lt_of_entries he).1 e h).trans hcr
    · rw [List.mem_singleton.1 h]
      exact hcr
  have e₀ := OrderedMap.entries_touch_of_lt r ({} : Node)
    (show m.entries = (P ++ [(c, nc)]) ++ (V ++ (d, nd) :: S) by simp [he]) hP hr
  obtain ⟨m₁, h₁, e₁⟩ := OrderedMap.exists_update?
    (fun n => { n with len := sub64 nc.len len }) e₀
  obtain ⟨m₂, h₂, e₂⟩ := OrderedMap.exists_update? (fun n => { n with len := len })
    (show m₁.entries = P ++ (c, nc) :: (r, { len := sub64 nc.len len }) :: (V ++ (d, nd) :: S) by
      simp [e₁])
  have hfirst : m₂.first? = m.first? := by
    rw [first?_eq, first?_eq, he, e₂]
    simp
  obtain ⟨m₃, h₃, e₃⟩ := insertafter_spec ndebug
    (show m₂.entries = P ++ (c, { nc with len := len }) ::
      ([] ++ (r, { len := sub64 nc.len len }) :: (V ++ (d, nd) :: S)) by simp [e₂])
    (by rwa [isfree, hfirst]) hn
  refine ⟨m₃, ?_, by simp [e₃, sub64_of_le hlen hlt]⟩
  simp [splitNode, h₁, h₂, h₃]

/-- **`takeHigh` puts a used node where the shortened free node ends.** -/
theorem takeHigh_spec {bytes : ℕ} {X Y : List (ℕ × Node)} (hfirst : m.first? = some 0)
    (he : m.entries = X ++ (c, nc) :: Y) (hpos : 0 < bytes) (hlen : bytes < nc.len)
    (hlt : c + nc.len < 2 ^ 64) (hY : ∀ e ∈ Y, c + nc.len - bytes < e.1) :
    ∃ m', takeHigh ndebug m c bytes = some (c + nc.len - bytes, m') ∧
      m'.entries = X ++ (c, { nc with len := nc.len - bytes }) ::
        (c + nc.len - bytes, { len := bytes, next := some 0 }) :: Y := by
  have hr : sub64 (u64 (c + nc.len)) bytes = c + nc.len - bytes := by
    rw [u64_of_lt hlt, sub64_of_le (by omega) hlt]
  have hsub : sub64 nc.len bytes = nc.len - bytes := sub64_of_le hlen.le (by omega)
  obtain ⟨m₁, h₁, e₁⟩ := OrderedMap.exists_update? (fun n => { n with len := sub64 n.len bytes }) he
  have hX : ∀ e ∈ X ++ [(c, { nc with len := sub64 nc.len bytes })],
      e.1 < c + nc.len - bytes := by
    intro e h
    rcases List.mem_append.1 h with h | h
    · have := (OrderedMap.lt_of_entries he).1 e h
      omega
    · rw [List.mem_singleton.1 h]
      simp only
      omega
  have e₂ := OrderedMap.entries_touch_of_lt (c + nc.len - bytes) ({} : Node)
    (show m₁.entries = (X ++ [(c, { nc with len := sub64 nc.len bytes })]) ++ Y by simp [e₁]) hX hY
  have hfirst' : (m₁.touch (c + nc.len - bytes) {}).first? = some 0 := by
    rw [first?_eq, e₂, ← hfirst, first?_eq, he]
    cases X <;> rfl
  obtain ⟨m₂, h₂, e₃⟩ := OrderedMap.exists_update?
    (fun r => { r with len := bytes, next := some 0 }) e₂
  refine ⟨m₂, ?_, by simp [e₃, hsub]⟩
  simp [takeHigh, OrderedMap.find?_of_entries he, hlen.ne, h₁, hr, hfirst', h₂]

end Codrive.Device
