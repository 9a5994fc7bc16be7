/-
# The allocation map, over every run

`memory_of_run` says that every run of the runtime is a run of `Spec`, and what the state of the run
says of the calls to `FreeMemory` and of the memory of the regions.  Each call has a lemma that says
what it does to the map (`Inv.allocate`, `Inv.free`, `Inv.register`, `Inv.deregister`, `Inv.query`).
-/

import Codrive.Basis.Run
import Codrive.Runtime.Region

namespace Codrive.Runtime

open Codrive.Basis

variable {s : State} {m : AllocationMap} {ptr a : ℕ} {mem mem' : AllocationRegion} {A : Allocation}
  {R : Regions} {ndebug : Bool}

/-! ### The map -/

/-- What the map says of its allocations. -/
def live (m : AllocationMap) (a : ℕ) : Option Allocation := (m.find? a).bind AllocationRegion.abs

theorem live_set : live (m.set a mem) = Function.update (live m) a mem.abs := by
  funext b
  unfold live
  rw [OrderedMap.find?_set]
  by_cases hb : b = a
  · rw [if_pos hb, hb, Function.update_self]
    rfl
  · rw [if_neg hb, Function.update_of_ne hb]

theorem live_erase : live (m.erase a) = Function.update (live m) a none := by
  funext b
  unfold live
  rw [OrderedMap.find?_erase]
  by_cases hb : b = a
  · rw [if_pos hb, hb, Function.update_self]
    rfl
  · rw [if_neg hb, Function.update_of_ne hb]

theorem blocks_of_entries {l l' : List (ℕ × AllocationRegion)}
    (h : m.entries = l ++ (a, mem) :: l') :
    blocks m = ⟨mem.region.getD 0, a, mem.size⟩ ::ₘ
      ((l ++ l').map fun e => (⟨e.2.region.getD 0, e.1, e.2.size⟩ : Block) : List Block) := by
  unfold blocks
  rw [h, List.map_append, List.map_cons, List.map_append]
  exact Multiset.coe_eq_coe.2 List.perm_middle

/-- An allocation leaves the map. -/
theorem blocks_erase (h : m.find? a = some mem) :
    blocks m = ⟨mem.region.getD 0, a, mem.size⟩ ::ₘ blocks (m.erase a) := by
  obtain ⟨l, l', hl⟩ := OrderedMap.exists_entries_of_find? h
  rw [blocks_of_entries hl]
  unfold blocks
  rw [OrderedMap.entries_erase_of_entries hl]

/-- An allocation comes into the map. -/
theorem blocks_set_of_none (h : m.find? a = none) :
    blocks (m.set a mem) = ⟨mem.region.getD 0, a, mem.size⟩ ::ₘ blocks m := by
  obtain ⟨l, l', hl, hlt, hgt⟩ := OrderedMap.exists_entries_of_find?_none h
  rw [blocks_of_entries (OrderedMap.entries_set_of_lt a mem hl hlt hgt)]
  unfold blocks
  rw [hl]

/-- An entry is changed. -/
theorem blocks_set_of_some (h : m.find? a = some mem) (hregion : mem'.region = mem.region)
    (hsize : mem'.size = mem.size) : blocks (m.set a mem') = blocks m := by
  obtain ⟨l, l', hl⟩ := OrderedMap.exists_entries_of_find? h
  rw [blocks_of_entries hl, blocks_of_entries (OrderedMap.entries_set_of_entries mem' hl), hregion,
    hsize]

theorem Apart.erase (h : Apart m) : Apart (m.erase a) := by
  have hold : ∀ {b mem}, (m.erase a).find? b = some mem → m.find? b = some mem := by
    intro b mem hb
    rw [OrderedMap.find?_erase] at hb
    split_ifs at hb
    exact hb
  exact ⟨fun hb => h.region (hold hb), fun hb => h.ne_null (hold hb), fun hb => h.lt (hold hb),
    fun hb hb' => h.apart (hold hb) (hold hb')⟩

/-- An entry is changed. -/
theorem Apart.set_of_some (h : Apart m) (hmem : m.find? a = some mem)
    (hregion : mem'.region = mem.region) (hsize : mem'.size = mem.size) :
    Apart (m.set a mem') := by
  have hold : ∀ {b w}, (m.set a mem').find? b = some w →
      ∃ w', m.find? b = some w' ∧ w.region = w'.region ∧ w.size = w'.size := by
    intro b w hb
    rw [OrderedMap.find?_set] at hb
    split_ifs at hb with hba
    · obtain rfl := Option.some.inj hb
      exact ⟨mem, hba ▸ hmem, hregion, hsize⟩
    · exact ⟨w, hb, rfl, rfl⟩
  constructor
  · intro b w hb
    obtain ⟨w', hw, hr, -⟩ := hold hb
    rw [hr]
    exact h.region hw
  · intro b w hb
    obtain ⟨w', hw, -⟩ := hold hb
    exact h.ne_null hw
  · intro b w hb
    obtain ⟨w', hw, -, hs⟩ := hold hb
    rw [hs]
    exact h.lt hw
  · intro b w c w₂ hb hc hbc
    obtain ⟨w', hw, -, hs⟩ := hold hb
    obtain ⟨w₂', hw₂, -⟩ := hold hc
    rw [hs]
    exact h.apart hw hw₂ hbc

/-- What is in the map, a region has handed out. -/
theorem mem_blocks (h : m.find? a = some mem) :
    (⟨mem.region.getD 0, a, mem.size⟩ : Block) ∈ blocks m := by
  rw [blocks_erase h]
  exact Multiset.mem_cons_self _ _

/-- **A region hands out memory.** -/
theorem Apart.set_of_none {region n : ℕ} {mem : AllocationRegion} (h : Apart m)
    (hregion : mem.region = some region) (hsize : mem.size = n) (hnull : a ≠ 0)
    (hlt : a + n < 2 ^ 64)
    (happ : ∀ b ∈ blocks m, a ≠ b.address ∧ (a + n ≤ b.address ∨ b.address + b.size ≤ a)) :
    Apart (m.set a mem) := by
  have hnew : ∀ {b w}, (m.set a mem).find? b = some w → b = a ∧ w = mem ∨
      m.find? b = some w ∧ a ≠ b ∧ (a + n ≤ b ∨ b + w.size ≤ a) := by
    intro b w hb
    rw [OrderedMap.find?_set] at hb
    split_ifs at hb with hba
    · exact .inl ⟨hba, (Option.some.inj hb).symm⟩
    · exact .inr ⟨hb, happ _ (mem_blocks hb)⟩
  constructor
  · intro b w hb
    rcases hnew hb with ⟨-, rfl⟩ | ⟨hb, -⟩
    · rw [hregion]
      rfl
    · exact h.region hb
  · intro b w hb
    rcases hnew hb with ⟨rfl, -⟩ | ⟨hb, -⟩
    · exact hnull
    · exact h.ne_null hb
  · intro b w hb
    rcases hnew hb with ⟨rfl, rfl⟩ | ⟨hb, -⟩
    · rw [hsize]
      exact hlt
    · exact h.lt hb
  · intro b w c w' hb hc hbc
    rcases hnew hb with ⟨rfl, rfl⟩ | ⟨hb, -, hb'⟩ <;> rcases hnew hc with ⟨rfl, rfl⟩ | ⟨hc, -, hc'⟩
    · exact absurd hbc (Nat.lt_irrefl _)
    · omega
    · omega
    · exact h.apart hb hc hbc

/-! ### Which allocation a pointer is in -/

theorem Apart.contains_iff (h : Apart m) {S : Spec} (hS : S.live = live m) :
    S.Contains ptr a A ↔
      ∃ mem, m.floor? ptr = some (a, mem) ∧ inRange ptr (a, mem) = true ∧ mem.abs = some A := by
  unfold Spec.Contains
  rw [hS]
  constructor
  · rintro ⟨hlive, hin⟩
    obtain ⟨mem, hmem, hA⟩ := Option.bind_eq_some_iff.1 hlive
    obtain ⟨region, -, rfl⟩ := abs_eq_some hA
    have hin' : inRange ptr (a, mem) = true := (h.inRange_iff hmem).2 hin
    exact ⟨mem, h.floor_of_inRange hmem hin', hin', hA⟩
  · rintro ⟨mem, hfloor, hin, hA⟩
    have hmem := (OrderedMap.floor?_eq_some hfloor).1
    have hin' := (h.inRange_iff hmem).1 hin
    refine ⟨Option.bind_eq_some_iff.2 ⟨mem, hmem, hA⟩, ?_⟩
    obtain ⟨region, -, rfl⟩ := abs_eq_some hA
    exact hin'

/-- The pointer is in no allocation. -/
theorem Apart.not_contains (h : Apart m) {S : Spec} (hS : S.live = live m)
    (hno : ∀ e, m.floor? ptr = some e → inRange ptr e = false) : ∀ a A, ¬S.Contains ptr a A := by
  intro a A hin
  obtain ⟨mem, hfloor, hin, -⟩ := (h.contains_iff hS).1 hin
  rw [hno _ hfloor] at hin
  exact nomatch hin

/-- An entry that has a region is an allocation. -/
theorem Apart.exists_abs (h : Apart m) (hmem : m.find? a = some mem) :
    ∃ region, mem.region = some region ∧
      mem.abs = some ⟨region, mem.size, (mem.notifiers.getD [] : Multiset Notifier)⟩ := by
  obtain ⟨region, hregion⟩ := Option.isSome_iff_exists.1 (h.region hmem)
  refine ⟨region, hregion, ?_⟩
  unfold AllocationRegion.abs
  rw [hregion]
  rfl

/-! ### Notifiers -/

/-- The notifiers of an allocation are changed. -/
theorem Inv.setNotifiers (h : Inv s) (hmem : s.allocation_map.find? a = some mem)
    (notifiers : Option (List Notifier)) :
    Inv { s with allocation_map := s.allocation_map.set a { mem with notifiers } } where
  apart := h.apart.set_of_some hmem rfl rfl
  gone f hf hphase := by
    have hgone := h.gone f hf hphase
    rw [OrderedMap.find?_set, if_neg, hgone]
    rintro rfl
    rw [hmem] at hgone
    exact nomatch hgone
  called := h.called
  books := by
    dsimp only
    have hregion : ({ mem with notifiers } : AllocationRegion).region = mem.region := rfl
    rw [blocks_set_of_some hmem hregion rfl]
    exact h.books

/-- What the map has become for its callers. -/
theorem abs_set : State.abs { s with allocation_map := s.allocation_map.set a mem } =
    s.abs.set a mem.abs :=
  congrArg (fun live => ({ live, frees := s.frees.map FreeCall.abs } : Spec)) live_set

/-- The allocation at an address stays as it is. -/
theorem Spec.set_self {S : Spec} {A : Option Allocation} (h : S.live a = A) : S.set a A = S := by
  subst h
  unfold Spec.set
  rw [Function.update_eq_self]

theorem register_inside {callback user_data : ℕ} (hfloor : m.floor? ptr = some (a, mem))
    (hregion : mem.region.isSome = true) (hin : inRange ptr (a, mem) = true) :
    registerReleaseNotifier m ptr callback user_data = (.success, m.set a
      { mem with
        notifiers := some (mem.notifiers.getD [] ++ [⟨ptr, callback, user_data⟩]) }) := by
  unfold registerReleaseNotifier
  rw [hfloor]
  dsimp only
  split
  · rename_i hnone
    rw [hnone] at hregion
    exact nomatch hregion
  · rw [if_pos hin]

theorem register_outside {callback user_data : ℕ}
    (hno : ∀ e, m.floor? ptr = some e → inRange ptr e = false) :
    registerReleaseNotifier m ptr callback user_data = (.invalidAllocation, m) := by
  unfold registerReleaseNotifier
  split
  · rfl
  · rename_i e hfloor
    split
    · rfl
    · rw [if_neg (by rw [hno e hfloor]; decide)]

/-- Whether the pointer is in an allocation. -/
theorem floor_cases (m : AllocationMap) (ptr : ℕ) :
    (∃ a mem, m.floor? ptr = some (a, mem) ∧ m.find? a = some mem ∧
        inRange ptr (a, mem) = true) ∨
      ∀ e, m.floor? ptr = some e → inRange ptr e = false := by
  cases hfloor : m.floor? ptr with
  | none => exact .inr nofun
  | some e =>
    cases hin : inRange ptr e with
    | true => exact .inl ⟨e.1, e.2, rfl, (OrderedMap.floor?_eq_some hfloor).1, hin⟩
    | false =>
      refine .inr fun e' he => ?_
      obtain rfl := Option.some.inj he
      exact hin

/-- **A registration** is attached to the allocation the pointer is in. -/
theorem Inv.register (h : Inv s) {ptr callback user_data : ℕ} {r : Status × AllocationMap}
    (hr : registerReleaseNotifier s.allocation_map ptr callback user_data = r) :
    Inv { s with allocation_map := r.2 } ∧
      Spec.Step s.abs (.register ptr callback user_data, .status r.1)
        (State.abs { s with allocation_map := r.2 }) := by
  subst hr
  rcases floor_cases s.allocation_map ptr with ⟨a, mem, hfloor, hmem, hin⟩ | hno
  · rw [register_inside hfloor (h.apart.region hmem) hin]
    refine ⟨h.setNotifiers hmem _, ?_⟩
    obtain ⟨region, hregion, habs⟩ := h.apart.exists_abs hmem
    have hstep : Spec.Step s.abs (.register ptr callback user_data, .status .success) _ :=
      .register ((h.apart.contains_iff rfl).2 ⟨mem, hfloor, hin, habs⟩)
    dsimp only
    rw [abs_set]
    convert hstep using 2
    unfold AllocationRegion.abs
    dsimp only
    rw [hregion, Option.map_some, Option.getD_some]
    exact congrArg (fun ns => some (⟨region, mem.size, ns⟩ : Allocation))
      (Multiset.coe_eq_coe.2 (List.perm_append_singleton _ _))
  · rw [register_outside hno]
    exact ⟨h, .registerOutside (h.apart.not_contains rfl hno)⟩

theorem deregister_inside {callback : ℕ} {notifiers : List Notifier}
    (hfloor : m.floor? ptr = some (a, mem)) (hin : inRange ptr (a, mem) = true)
    (hn : mem.notifiers = some notifiers) :
    deregisterReleaseNotifier m ptr callback =
      (if (removeWhere (Notifier.matches ptr callback) notifiers.length 0 notifiers false).2 then
          .success
        else .invalidArgument,
        m.set a { mem with
          notifiers := some
            (removeWhere (Notifier.matches ptr callback) notifiers.length 0 notifiers false).1
              }) := by
  unfold deregisterReleaseNotifier
  rw [hfloor]
  dsimp only
  rw [if_pos hin]
  split
  · rename_i hnone
    rw [hn] at hnone
    exact nomatch hnone
  · rename_i hsome
    obtain rfl := Option.some.inj (hn.symm.trans hsome)
    rfl

theorem deregister_outside {callback : ℕ} (hno : ∀ e, m.floor? ptr = some e →
    inRange ptr e = true → e.2.notifiers = none) :
    deregisterReleaseNotifier m ptr callback = (.invalidArgument, m) := by
  unfold deregisterReleaseNotifier
  split
  · rfl
  · rename_i e hfloor
    by_cases hin : inRange ptr e = true
    · rw [if_pos hin, hno e hfloor hin]
    · rw [if_neg hin]

/-- **A deregistration** removes what it finds, from the allocation the pointer is in. -/
theorem Inv.deregister (h : Inv s) {ptr callback : ℕ} {r : Status × AllocationMap}
    (hr : deregisterReleaseNotifier s.allocation_map ptr callback = r) :
    Inv { s with allocation_map := r.2 } ∧
      Spec.Step s.abs (.deregister ptr callback, .status r.1)
        (State.abs { s with allocation_map := r.2 }) := by
  subst hr
  rcases floor_cases s.allocation_map ptr with ⟨a, mem, hfloor, hmem, hin⟩ | hno
  · obtain ⟨region, hregion, habs⟩ := h.apart.exists_abs hmem
    have hcontains := (h.apart.contains_iff (S := s.abs) rfl).2 ⟨mem, hfloor, hin, habs⟩
    -- The allocation has no other notifiers than those of the entry.
    have honly : ∀ b B, s.abs.Contains ptr b B →
        B.notifiers = (mem.notifiers.getD [] : Multiset Notifier) := by
      intro b B hB
      obtain ⟨mem', hfloor', -, habs'⟩ := (h.apart.contains_iff rfl).1 hB
      obtain ⟨rfl, rfl⟩ := Prod.mk.inj (Option.some.inj (hfloor.symm.trans hfloor'))
      rw [Option.some.inj (habs'.symm.trans habs)]
    cases hn : mem.notifiers with
    | none =>
      rw [deregister_outside]
      · refine ⟨h, .deregisterUnknown fun b B hB n hmatch => ?_⟩
        rw [honly b B hB, hn] at hmatch
        exact absurd hmatch (Multiset.notMem_zero n)
      · intro e he _
        obtain rfl := Option.some.inj (hfloor.symm.trans he)
        exact hn
    | some notifiers =>
      rw [deregister_inside hfloor hin hn]
      obtain ⟨hperm, hany⟩ := perm_removeWhere (p := Notifier.matches ptr callback) notifiers
      generalize removeWhere (Notifier.matches ptr callback) notifiers.length 0 notifiers false = r
        at hperm hany ⊢
      refine ⟨h.setNotifiers hmem _, ?_⟩
      have hleft : (r.1 : Multiset Notifier) =
          (notifiers : Multiset Notifier).filter fun n => n.matches ptr callback = false := by
        rw [Multiset.filter_coe, Multiset.coe_eq_coe]
        convert hperm using 2
        funext n
        cases n.matches ptr callback <;> rfl
      have hmem' : ({ mem with notifiers := some r.1 } : AllocationRegion).abs =
          some ⟨region, mem.size, (r.1 : Multiset Notifier)⟩ := by
        unfold AllocationRegion.abs
        dsimp only
        rw [hregion]
        rfl
      rw [hn, Option.getD_some] at habs hcontains honly
      dsimp only
      rw [abs_set, hmem', hleft, hany]
      by_cases hsome : notifiers.any (Notifier.matches ptr callback) = true
      · rw [if_pos hsome]
        obtain ⟨n, hn, hmatch⟩ := List.any_eq_true.1 hsome
        exact .deregister hcontains ⟨n, Multiset.mem_coe.2 hn, hmatch⟩
      · rw [if_neg hsome]
        have hnone : ∀ n ∈ notifiers, n.matches ptr callback = false := fun n hn =>
          Bool.not_eq_true _ ▸ fun hmatch => hsome (List.any_eq_true.2 ⟨n, hn, hmatch⟩)
        rw [Multiset.filter_eq_self.2 fun n hn => hnone n (Multiset.mem_coe.1 hn),
          Spec.set_self hcontains.1]
        refine .deregisterUnknown fun b B hB n hn => hnone n ?_
        rw [honly b B hB] at hn
        exact Multiset.mem_coe.1 hn
  · rw [deregister_outside fun e he hin => ?_]
    · refine ⟨h, .deregisterUnknown fun b B hB => ?_⟩
      exact absurd hB (h.apart.not_contains rfl hno b B)
    · rw [hno e he] at hin
      exact nomatch hin

/-! ### Allocating and freeing -/

/-- **An allocation** of what a region hands out. -/
theorem Inv.allocate (h : Inv s) (hR : R.Rounds) {region size flags : ℕ} {answer : Answer}
    (hanswer : R s.held region size flags answer) {r : Status × AllocationMap}
    (hr : allocateMemory s.allocation_map region answer = r) :
    Inv { s with allocation_map := r.2, handed := s.handed + answer.handed region } ∧
      Spec.Step s.abs (.allocate region size flags answer, .status r.1)
        (State.abs
          { s with allocation_map := r.2, handed := s.handed + answer.handed region }) := by
  subst hr
  obtain ⟨status, a, n⟩ := answer
  unfold allocateMemory Answer.handed
  dsimp only
  by_cases hstatus : status = .success
  · subst hstatus
    rw [if_pos rfl, if_pos rfl]
    have happ := hR.apart hanswer
    rw [h.held] at happ
    have hnone : s.allocation_map.find? a = none := by
      cases hmem : s.allocation_map.find? a with
      | none => rfl
      | some mem =>
        exact absurd rfl (happ _ (Multiset.mem_add.2 (.inl (mem_blocks hmem)))).1
    refine ⟨⟨?_, fun f hf hphase => ?_, h.called, ?_⟩, ?_⟩
    · exact h.apart.set_of_none rfl rfl (hR.ne_null hanswer) (hR.lt hanswer)
        fun b hb => happ b (Multiset.mem_add.2 (.inl hb))
    · have hmem : f.block ∈ pending s.frees := by
        unfold pending
        exact Multiset.mem_coe.2 (List.mem_map_of_mem
          (List.mem_filter.2 ⟨hf, decide_eq_true hphase⟩))
      have hne : f.ptr ≠ a := (happ _ (Multiset.mem_add.2 (.inr hmem))).1.symm
      rw [OrderedMap.find?_set, if_neg hne]
      exact h.gone f hf hphase
    · dsimp only
      rw [blocks_set_of_none hnone, h.books, Multiset.cons_add, Multiset.add_cons, add_comm,
        Multiset.singleton_add]
      rfl
    · have hlive : s.abs.live a = none := by
        unfold State.abs
        dsimp only
        rw [hnone]
        rfl
      exact abs_set (s := s) ▸ .allocated rfl (hR.size_le hanswer) hlive
  · rw [if_neg hstatus, if_neg hstatus, add_zero]
    exact ⟨h, .failed hstatus⟩

/-- The memory that a call has not given back. -/
def FreeCall.pending (f : FreeCall) : Multiset Block :=
  if f.phase = .released then 0 else {f.block}

theorem pending_append (A B : List FreeCall) : pending (A ++ B) = pending A + pending B := by
  unfold pending
  rw [List.filter_append, List.map_append, ← Multiset.coe_add]

theorem pending_cons (f : FreeCall) (B : List FreeCall) :
    pending (f :: B) = f.pending + pending B := by
  unfold pending FreeCall.pending
  by_cases hf : f.phase = .released
  · rw [if_pos hf, List.filter_cons_of_neg (by simp [hf]), zero_add]
  · rw [if_neg hf, List.filter_cons_of_pos (by simpa using hf), List.map_cons,
      Multiset.singleton_add]
    rfl

/-- **A call to `FreeMemory` has taken an allocation out of the map.** -/
theorem Inv.push {f : FreeCall} {m : AllocationMap} {returned : Multiset Block} (h : Inv s)
    (hm : m = s.allocation_map.erase f.ptr)
    (hblocks : blocks s.allocation_map = f.block ::ₘ blocks m)
    (hcalled : f.called <+: f.notifiers ∧ (f.phase = .released → f.called = f.notifiers))
    (hreturned : returned + f.pending = f.block ::ₘ s.returned) :
    Inv { s with allocation_map := m, frees := s.frees ++ [f], returned } where
  apart := hm ▸ h.apart.erase
  gone g hg hphase := by
    subst hm
    rw [OrderedMap.find?_erase]
    rcases List.mem_append.1 hg with hg | hg
    · rw [h.gone g hg hphase, ite_self]
    · obtain rfl := List.mem_singleton.1 hg
      rw [if_pos rfl]
  called g hg := by
    rcases List.mem_append.1 hg with hg | hg
    · exact h.called g hg
    · obtain rfl := List.mem_singleton.1 hg
      exact hcalled
  books := by
    have hend : pending [f] = f.pending := by
      rw [pending_cons]
      exact add_zero _
    dsimp only
    rw [pending_append, hend]
    calc s.handed = s.returned + (f.block ::ₘ blocks m + pending s.frees) := by
          rw [h.books, hblocks]
      _ = f.block ::ₘ s.returned + (blocks m + pending s.frees) := by
          rw [Multiset.cons_add, Multiset.cons_add, Multiset.add_cons]
      _ = returned + (blocks m + (pending s.frees + f.pending)) := by
          rw [← hreturned]
          ac_rfl

/-- **A call to `FreeMemory` goes on.** -/
theorem Inv.goOn {A B : List FreeCall} {f g : FreeCall} {returned : Multiset Block} (h : Inv s)
    (hl : s.frees = A ++ f :: B) (hphase : f.phase = .notifying) (hptr : g.ptr = f.ptr)
    (hcalled : g.called <+: g.notifiers ∧ (g.phase = .released → g.called = g.notifiers))
    (hreturned : returned + g.pending = f.block ::ₘ s.returned) :
    Inv { s with frees := A ++ g :: B, returned } where
  apart := h.apart
  gone c hc hc' := by
    have hf := h.gone f (hl ▸ List.mem_append_right A List.mem_cons_self) (by rw [hphase]; decide)
    rcases List.mem_append.1 hc with hc | hc
    · exact h.gone c (hl ▸ List.mem_append_left _ hc) hc'
    · rcases List.mem_cons.1 hc with rfl | hc
      · rw [hptr]
        exact hf
      · exact h.gone c (hl ▸ List.mem_append_right A (List.mem_cons_of_mem f hc)) hc'
  called c hc := by
    rcases List.mem_append.1 hc with hc | hc
    · exact h.called c (hl ▸ List.mem_append_left _ hc)
    · rcases List.mem_cons.1 hc with rfl | hc
      · exact hcalled
      · exact h.called c (hl ▸ List.mem_append_right A (List.mem_cons_of_mem f hc))
  books := by
    have hf : f.pending = {f.block} := by
      unfold FreeCall.pending
      rw [if_neg (by rw [hphase]; decide)]
    dsimp only
    rw [pending_append, pending_cons]
    calc s.handed = s.returned +
          (blocks s.allocation_map + (pending A + ({f.block} + pending B))) := by
          rw [h.books, hl, pending_append, pending_cons, hf]
      _ = ({f.block} + s.returned) + (blocks s.allocation_map + (pending A + pending B)) := by
          ac_rfl
      _ = returned + (blocks s.allocation_map + (pending A + (g.pending + pending B))) := by
          rw [Multiset.singleton_add, ← hreturned]
          ac_rfl

/-- **An allocation leaves the map**, and is freed or on its way. -/
theorem Inv.free (h : Inv s) {ptr region size : ℕ} {notifiers : Option (List Notifier)}
    {m : AllocationMap}
    (hfree : freeMemory ndebug s.allocation_map ptr = some (.frees region size notifiers, m)) :
    ptr ≠ 0 ∧ s.abs.live ptr =
        some ⟨region, size, (notifiers.getD [] : Multiset Notifier)⟩ ∧
      m = s.allocation_map.erase ptr ∧
      blocks s.allocation_map = ⟨region, ptr, size⟩ ::ₘ blocks m := by
  unfold freeMemory at hfree
  have hptr : ptr ≠ 0 := by
    rintro rfl
    exact nomatch (Prod.mk.inj (Option.some.inj hfree)).1
  rw [if_neg hptr] at hfree
  cases hmem : s.allocation_map.find? ptr with
  | none =>
    rw [hmem] at hfree
    obtain ⟨-, -, hfree⟩ := Option.map_eq_some_iff.1 hfree
    exact nomatch (Prod.mk.inj hfree).1
  | some it =>
    rw [hmem] at hfree
    dsimp only at hfree
    obtain ⟨r, hregion, habs⟩ := h.apart.exists_abs hmem
    rw [hregion] at hfree
    obtain ⟨hfrees, rfl⟩ := Prod.mk.inj (Option.some.inj hfree)
    injection hfrees with h₁ h₂ h₃
    subst h₁ h₂ h₃
    refine ⟨hptr, ?_, rfl, ?_⟩
    · unfold State.abs
      dsimp only
      rw [hmem]
      exact habs
    · rw [blocks_erase hmem, hregion]
      rfl

/-- The call returns, and nothing has changed. -/
theorem Inv.returns (h : Inv s) {ptr : ℕ} {answer status : Status} {m : AllocationMap}
    (hfree : freeMemory ndebug s.allocation_map ptr = some (.returns status, m)) :
    m = s.allocation_map ∧ Spec.Step s.abs (.free ptr answer, .status status) s.abs := by
  unfold freeMemory at hfree
  by_cases hptr : ptr = 0
  · rw [if_pos hptr] at hfree
    obtain ⟨hstatus, rfl⟩ := Prod.mk.inj (Option.some.inj hfree)
    injection hstatus with hstatus
    subst hptr hstatus
    exact ⟨rfl, .freeNull⟩
  · rw [if_neg hptr] at hfree
    cases hmem : s.allocation_map.find? ptr with
    | none =>
      rw [hmem] at hfree
      obtain ⟨-, -, hfree⟩ := Option.map_eq_some_iff.1 hfree
      obtain ⟨hstatus, rfl⟩ := Prod.mk.inj hfree
      injection hstatus with hstatus
      subst hstatus
      refine ⟨rfl, .freeUnknown hptr ?_⟩
      unfold State.abs
      dsimp only
      rw [hmem]
      rfl
    | some it =>
      rw [hmem] at hfree
      dsimp only at hfree
      obtain ⟨r, hregion, -⟩ := h.apart.exists_abs hmem
      rw [hregion] at hfree
      exact nomatch (Prod.mk.inj (Option.some.inj hfree)).1

/-! ### Queries -/

/-- What a query tells. -/
theorem ptrInfo_eq {size : ℕ} {err : Bool} {thunkInfo : HsaPointerInfo} {block_info : Bool}
    {status : Status} {info : Option (PointerInfo × PtrInfoBlockData)} (hsize : size ≠ 0)
    (h : ptrInfo ndebug m ptr size err thunkInfo block_info = some (status, info)) :
    status = .success ∧ ∃ i, info = some (i,
        ⟨if thunkInfo.CPUAddress ≠ 0 then thunkInfo.CPUAddress else thunkInfo.GPUAddress,
          thunkInfo.SizeInBytes⟩) ∧
      (∀ e, m.floor? ptr = some e → inRange ptr e = true →
        i.agentBaseAddress = e.1 ∧ i.hostBaseAddress = e.1 ∧ i.sizeInBytes = e.2.size) ∧
      ((∀ e, m.floor? ptr = some e → inRange ptr e = false) →
        i.agentBaseAddress = thunkInfo.GPUAddress ∧ i.hostBaseAddress = thunkInfo.CPUAddress ∧
          i.sizeInBytes = thunkInfo.SizeInBytes) := by
  unfold ptrInfo at h
  rw [if_neg hsize] at h
  obtain ⟨-, -, h⟩ := Option.bind_eq_some_iff.1 h
  obtain ⟨-, -, h⟩ := Option.bind_eq_some_iff.1 h
  obtain ⟨rfl, rfl⟩ := Prod.mk.inj (Option.some.inj h)
  refine ⟨rfl, _, rfl, fun e hfloor hin => ?_, fun hno => ?_⟩
  · rw [hfloor]
    dsimp only
    rw [if_pos hin]
    exact ⟨rfl, rfl, rfl⟩
  · cases hfloor : m.floor? ptr with
    | none => exact ⟨rfl, rfl, rfl⟩
    | some e =>
      dsimp only
      rw [if_neg (by rw [hno e hfloor]; decide)]
      exact ⟨rfl, rfl, rfl⟩

/-- **A query** tells of the allocation the pointer is in. -/
theorem Inv.query (h : Inv s) {ptr size : ℕ} {err : Bool} {thunkInfo : HsaPointerInfo}
    {block_info : Bool} {status : Status} {info : Option (PointerInfo × PtrInfoBlockData)}
    (hquery : ptrInfo ndebug s.allocation_map ptr size err thunkInfo block_info =
      some (status, info)) :
    Spec.Step s.abs (.query ptr size err thunkInfo block_info,
      .info status (info.map Prod.fst)) s.abs := by
  by_cases hsize : size = 0
  · subst hsize
    obtain ⟨rfl, rfl⟩ := Prod.mk.inj (Option.some.inj hquery)
    exact .queryInvalid
  · obtain ⟨rfl, i, rfl, hinside, houtside⟩ := ptrInfo_eq hsize hquery
    rcases floor_cases s.allocation_map ptr with ⟨a, mem, hfloor, hmem, hin⟩ | hno
    · obtain ⟨region, -, habs⟩ := h.apart.exists_abs hmem
      obtain ⟨ha, hb, hlen⟩ := hinside _ hfloor hin
      exact .query ((h.apart.contains_iff rfl).2 ⟨mem, hfloor, hin, habs⟩) ha hb hlen
    · obtain ⟨ha, hb, hlen⟩ := houtside hno
      exact .queryOutside (h.apart.not_contains rfl hno) ha hb hlen

/-! ### Steps and runs -/

theorem split_of_getElem? {α : Type*} {l : List α} {i : ℕ} {a : α} (h : l[i]? = some a) :
    ∃ A B, l = A ++ a :: B ∧ ∀ b, l.set i b = A ++ b :: B := by
  obtain ⟨hi, rfl⟩ := List.getElem?_eq_some_iff.1 h
  refine ⟨l.take i, l.drop (i + 1), ?_, fun b => List.set_eq_take_append_cons_drop .. |>.trans ?_⟩
  · rw [List.getElem_cons_drop, List.take_append_drop]
  · rw [if_pos hi]

/-- **The next notifier** of a call. -/
theorem FreeCall.next {f : FreeCall} {n : Notifier} (hf : f.called <+: f.notifiers)
    (hn : f.notifiers[f.called.length]? = some n) :
    f.called ++ [n] <+: f.notifiers ∧ ∃ todo, f.abs.todo = n ::ₘ todo ∧
      ∀ throws, (f.call n throws).abs = f.abs.call n todo throws := by
  obtain ⟨hlt, hget⟩ := List.getElem?_eq_some_iff.1 hn
  have hdrop : f.notifiers.drop f.called.length = n :: f.notifiers.drop (f.called.length + 1) := by
    rw [List.drop_eq_getElem_cons hlt, hget]
  refine ⟨⟨f.notifiers.drop (f.called.length + 1), ?_⟩,
    (f.notifiers.drop (f.called.length + 1) : Multiset Notifier), ?_, fun throws => ?_⟩
  · rw [List.append_assoc, List.singleton_append, ← hdrop]
    exact List.prefix_iff_eq_append.1 hf
  · unfold FreeCall.abs
    dsimp only
    rw [hdrop]
    rfl
  · unfold FreeCall.abs FreeCall.call Freeing.call
    dsimp only
    rw [List.length_append, List.length_singleton]
    exact congrArg (fun called => ({ called, .. } : Freeing))
      (Multiset.coe_eq_coe.2 (List.perm_append_singleton n f.called))

/-- There is no other notifier. -/
theorem FreeCall.called_eq {f : FreeCall} (hf : f.called <+: f.notifiers)
    (hn : f.notifiers[f.called.length]? = none) : f.called = f.notifiers :=
  hf.eq_of_length_le (List.getElem?_eq_none_iff.1 hn)

/-- What an allocation that leaves the map is for its callers. -/
theorem abs_push {f : FreeCall} {handed returned : Multiset Block} :
    State.abs ⟨s.allocation_map.erase ptr, s.frees ++ [f], handed, returned⟩ =
      { s.abs.set ptr none with frees := s.abs.frees ++ [f.abs] } := by
  unfold State.abs Spec.set
  rw [List.map_append]
  exact congrArg (fun live => ({ live, frees := _ } : Spec)) live_erase

theorem abs_getElem? {i : ℕ} {f : FreeCall} (h : s.frees[i]? = some f) :
    s.abs.frees[i]? = some f.abs :=
  (List.getElem?_map ..).trans (congrArg (Option.map FreeCall.abs) h)

/-- A call that goes on, for its callers. -/
theorem abs_set_frees {i : ℕ} {f : FreeCall} {returned : Multiset Block} :
    State.abs { s with frees := s.frees.set i f, returned } =
      { s.abs with frees := s.abs.frees.set i f.abs } :=
  congrArg (fun frees => ({ live := live s.allocation_map, frees } : Spec)) (List.map_set ..)

/-- **The steps of the runtime are those of `Spec`.** -/
theorem Inv.step (h : Inv s) (hR : R.Rounds) {op : Op × Result} {t : State}
    (hstep : Step R ndebug s op t) : Inv t ∧ Spec.Step s.abs op t.abs := by
  cases hstep with
  | allocate hanswer => exact h.allocate hR hanswer rfl
  | returns hfree =>
    obtain ⟨rfl, hspec⟩ := h.returns hfree
    exact ⟨h, hspec⟩
  | free hfree =>
    obtain ⟨hptr, hlive, rfl, hblocks⟩ := h.free hfree
    refine ⟨h.push rfl hblocks ⟨List.nil_prefix, fun _ => rfl⟩ (add_zero _), ?_⟩
    rw [abs_push]
    exact .free hptr hlive rfl
  | freeNotifying hfree =>
    obtain ⟨hptr, hlive, rfl, hblocks⟩ := h.free hfree
    refine ⟨h.push rfl hblocks ⟨List.nil_prefix, nofun⟩ ?_, ?_⟩
    · exact (add_comm _ _).trans (Multiset.singleton_add _ _)
    rw [abs_push]
    exact .freeNotifying hptr hlive
  | @notify i throws f n hf hphase hn =>
    obtain ⟨A, B, hl, hset⟩ := split_of_getElem? hf
    have hmem : f ∈ s.frees := hl ▸ List.mem_append_right A List.mem_cons_self
    obtain ⟨hnext, todo, htodo, habs⟩ := FreeCall.next (h.called f hmem).1 hn
    have hgoing : (f.call n throws).phase ≠ .released := by
      unfold FreeCall.call
      cases throws <;> exact nofun
    constructor
    · rw [hset]
      refine h.goOn hl hphase rfl ⟨hnext, fun hreleased => absurd hreleased hgoing⟩ ?_
      unfold FreeCall.pending
      rw [if_neg hgoing]
      exact (add_comm _ _).trans (Multiset.singleton_add _ _)
    · have hspec : Spec.Step s.abs (.notify i throws, .called n) _ :=
        .notify (abs_getElem? hf) hphase htodo
      rw [← habs] at hspec
      rw [abs_set_frees]
      exact hspec
  | @release i answer f hf hphase hn =>
    obtain ⟨A, B, hl, hset⟩ := split_of_getElem? hf
    have hmem : f ∈ s.frees := hl ▸ List.mem_append_right A List.mem_cons_self
    obtain ⟨hbegin, -⟩ := h.called f hmem
    have hcalled := FreeCall.called_eq hbegin hn
    constructor
    · rw [hset]
      exact h.goOn hl hphase rfl ⟨hbegin, fun _ => hcalled⟩ (add_zero _)
    · have htodo : f.abs.todo = 0 := by
        unfold FreeCall.abs
        rw [hcalled, List.drop_length]
        rfl
      rw [abs_set_frees]
      exact .release (abs_getElem? hf) hphase htodo
  | register => exact h.register rfl
  | deregister => exact h.deregister rfl
  | query hquery => exact ⟨h, h.query hquery⟩

/-- An empty map. -/
theorem Inv.start : Inv {} where
  apart := ⟨nofun, nofun, nofun, nofun⟩
  gone := nofun
  called := nofun
  books := rfl

/-- **A call to `FreeMemory` comes to its end**, once its notifiers have been called. -/
theorem Inv.finishes (h : Inv s) (hR : R.Rounds) {i : ℕ} {f : FreeCall} (hf : s.frees[i]? = some f)
    (hphase : f.phase = .notifying) : ∃ ops t g, Run (Step R ndebug) s ops t ∧
      t.frees[i]? = some g ∧ g.block = f.block ∧ g.called = f.notifiers ∧ g.phase = .released := by
  -- The induction is on the notifiers that are left.
  generalize hk : f.notifiers.length - f.called.length = k
  induction k generalizing s f with
  | zero =>
    have hlt : i < s.frees.length := (List.getElem?_eq_some_iff.1 hf).1
    have hn : f.notifiers[f.called.length]? = none :=
      List.getElem?_eq_none_iff.2 (Nat.sub_eq_zero_iff_le.1 hk)
    have hstep := @Step.release R ndebug s i .success f hf hphase hn
    have hbegin := (h.called f (List.mem_of_getElem? hf)).1
    exact ⟨_, _, f.release, .cons hstep (.nil _), List.getElem?_set_self hlt, rfl,
      FreeCall.called_eq hbegin hn, rfl⟩
  | succ k ih =>
    have hlt : i < s.frees.length := (List.getElem?_eq_some_iff.1 hf).1
    have hlen : f.called.length < f.notifiers.length := by omega
    have hn : f.notifiers[f.called.length]? = some f.notifiers[f.called.length] :=
      List.getElem?_eq_getElem hlen
    have hstep := @Step.notify R ndebug s i false f _ hf hphase hn
    have hleft : (f.call f.notifiers[f.called.length] false).notifiers.length -
        (f.call f.notifiers[f.called.length] false).called.length = k := by
      unfold FreeCall.call
      dsimp only
      rw [List.length_append, List.length_singleton]
      omega
    obtain ⟨ops, t, g, hrun, hg⟩ :=
      ih (h.step hR hstep).1 (List.getElem?_set_self hlt) rfl hleft
    exact ⟨_, t, g, .cons hstep hrun, hg⟩

/-- **Every run of the runtime is one of `Spec`**, as its callers see it.  A call to `FreeMemory`
calls the notifiers of its allocation in turn, when the allocation has left the map, and all of them
by the time the region gets the memory back, which it does with the size it had given.  An address
that is unknown cannot be freed. -/
theorem memory_of_run (hR : R.Rounds) {ops : List (Op × Result)}
    (hrun : Run (Step R ndebug) {} ops s) :
    Run Spec.Step {} ops s.abs ∧
      (∀ f ∈ s.frees, f.called <+: f.notifiers ∧ (f.phase = .released → f.called = f.notifiers) ∧
        (f.phase ≠ .released → s.allocation_map.find? f.ptr = none)) ∧
      (∀ (i : ℕ) (f : FreeCall), s.frees[i]? = some f → f.phase = .notifying →
        ∃ ops t, ∃ g : FreeCall, Run (Step R ndebug) s ops t ∧ t.frees[i]? = some g ∧
          g.block = f.block ∧ g.called = f.notifiers ∧ g.phase = .released) ∧
      s.handed = s.returned + (blocks s.allocation_map + pending s.frees) ∧
      ∀ ptr ≠ 0, s.allocation_map.find? ptr = none →
        freeMemory true s.allocation_map ptr =
          some (.returns .invalidAllocation, s.allocation_map) := by
  obtain ⟨h, hspec⟩ :=
    hrun.simulates (I := Inv) (f := State.abs) (fun _ _ _ h hstep => h.step hR hstep) Inv.start
  refine ⟨hspec, fun f hf => ⟨(h.called f hf).1, (h.called f hf).2, h.gone f hf⟩,
    fun i f hf hphase => h.finishes hR hf hphase, h.books, fun ptr hptr hnone => ?_⟩
  unfold freeMemory
  rw [if_neg hptr, hnone]
  rfl

/-! ### An example -/

/-- A region of system memory. -/
def systemMemory : MemoryRegion where
  heap := .system
  full_profile := false
  max_alloc := 2 ^ 32
  max_alloc_lt := by decide

/-- Some bytes of a page, with two notifiers of a pointer in it. -/
theorem memory_of_run_notified :
    ∃ s, Run (Step (MemoryRegion.answers fun _ => systemMemory) true) {}
        [(.allocate 7 100 0 ⟨.success, 8192, 4096⟩, .status .success),
          (.register 9000 1 5, .status .success), (.register 8192 2 6, .status .success),
          (.register 9000 1 7, .status .success), (.deregister 9000 1, .status .success),
          (.free 9000 .success, .status .invalidAllocation),
          (.free 8192 .success, .notifying), (.notify 0 false, .called ⟨8192, 2, 6⟩),
          (.release 0 .success, .status .success)] s ∧
      s.handed = s.returned + (blocks s.allocation_map + pending s.frees) := by
  have hanswer : MemoryRegion.answers (fun _ => systemMemory) 0 7 100 0 ⟨.success, 8192, 4096⟩ :=
    ⟨⟨⟨false, 1, none, some 8192, none, true⟩, rfl⟩,
      fun _ => ⟨by decide, by decide, fun _ hb => absurd hb (Multiset.notMem_zero _)⟩⟩
  have hrun : ∃ s, Run (Step (MemoryRegion.answers fun _ => systemMemory) true) {}
        [(.allocate 7 100 0 ⟨.success, 8192, 4096⟩, .status .success),
          (.register 9000 1 5, .status .success), (.register 8192 2 6, .status .success),
          (.register 9000 1 7, .status .success), (.deregister 9000 1, .status .success),
          (.free 9000 .success, .status .invalidAllocation),
          (.free 8192 .success, .notifying), (.notify 0 false, .called ⟨8192, 2, 6⟩),
          (.release 0 .success, .status .success)] s :=
    ⟨_, .cons (.allocate hanswer) (.cons .register (.cons .register (.cons .register
      (.cons .deregister (.cons (.returns rfl) (.cons (.freeNotifying rfl)
      (.cons (.notify rfl rfl rfl) (.cons (.release rfl rfl rfl) (.nil _)))))))))⟩
  obtain ⟨s, hrun⟩ := hrun
  exact ⟨s, hrun, (memory_of_run (MemoryRegion.answers_rounds _) hrun).2.2.2.1⟩

/-- Nothing is at the address zero, and it can be freed. -/
theorem free_null_succeeds :
    ({} : State).allocation_map.find? 0 = none ∧
      Step (MemoryRegion.answers fun _ => systemMemory) true {}
        (.free 0 .success, .status .success) {} :=
  ⟨rfl, .returns rfl⟩

end Codrive.Runtime
