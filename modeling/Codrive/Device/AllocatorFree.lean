/-
# Which frees give back what they name

`Allocator::free` of `src/src/device/MemObj.cpp` finds the node that starts at the pointer.  A used
node that is freed with its length becomes free, is coalesced, and is counted (`free_inv`).  Part of
a node is refused by an assertion of `insertafter`; without assertions it is freed and not counted.
A pointer that is no node is refused, by an assertion too; a node that is free already is linked
after itself (`free_of_free`), and more bytes than the node has are taken for the node.  So `free`
is right exactly for whole nodes, and for pointers to no node where assertions are compiled out
(`Allocator.free_ok_iff`).
-/

import Codrive.Device.AllocatorFit

namespace Codrive.Device

open Codrive.Basis

/-- What is left of a node of `len` bytes from `ptr` on when its first `bytes` are given back. -/
def remainder (ptr len bytes : ℕ) : List (ℕ × ℕ) :=
  if bytes < len then [(ptr + bytes, len - bytes)] else []

/-- The first `bytes` bytes of the node at `ptr` are given back, and nothing else changes. -/
structure Allocator.Releases (a a' : Allocator) (ptr len bytes : ℕ) : Prop where
  inv : a'.Inv
  pool : a'.pool = a.pool
  length : a'.length = a.length
  total : a'.total_free = a.total_free + bytes
  space : a'.freeSpace = a.freeSpace ∪ Set.Ico ptr (ptr + bytes)
  used : (usedNodes a'.memory.entries).Perm
    (remainder ptr len bytes ++ (usedNodes a.memory.entries).erase (ptr, len))

/-- What `free` should do: give back the first bytes of a used node; with any other arguments,
nothing. -/
def Allocator.FreeOk (ndebug : Bool) (a : Allocator) (ptr bytes : ℕ) : Prop :=
  (∀ len, (ptr, len) ∈ usedNodes a.memory.entries → bytes ≤ len →
      ∃ a', a.free ndebug ptr bytes = some (true, a') ∧ a.Releases a' ptr len bytes) ∧
    ((∀ len, (ptr, len) ∈ usedNodes a.memory.entries → len < bytes) →
      ∃ r, a.free ndebug ptr bytes = some (r, a))

section Phases

variable {ndebug : Bool} {a a' : Allocator} {m m' : Memory} {ptr bytes low high it place node t : ℕ}
  {n : Node} {r : Bool}

/-- `free`, after the split. -/
theorem Allocator.free_tail (h : (do
      let before ← freeBefore m ptr
      let b ← m.find? before
      assert ndebug (b.next.any (· > ptr))
      let m ← insertafter ndebug m before ptr
      let (it, m) ← merge ndebug m before ptr
      let next ← (← m.find? it).next
      let (_, m) ← merge ndebug m it next
      return (true, { a with total_free := t, memory := m, high := a.high.erase ptr })) =
        some (r, a')) :
    a'.total_free = t ∧ ∃ before m₁ it m₂ next it', freeBefore m ptr = some before ∧
      insertafter ndebug m before ptr = some m₁ ∧ merge ndebug m₁ before ptr = some (it, m₂) ∧
      (m₂.find? it).bind Node.next = some next ∧
        merge ndebug m₂ it next = some (it', a'.memory) := by
  simp only [Option.bind_eq_bind, Option.bind_eq_some_iff, Option.pure_def] at h
  obtain ⟨before, hbefore, b, -, -, -, m₁, hm₁, ⟨it, m₂⟩, hm₂, q, hq, next, hnext, ⟨it', m₃⟩, hm₃,
    hr⟩ := h
  obtain ⟨-, rfl⟩ := Prod.mk.inj (Option.some.inj hr)
  exact ⟨rfl, before, m₁, it, m₂, next, it', hbefore, hm₁, hm₂, by rw [hq]; exact hnext, hm₃⟩

/-- What `free` went through when it returns. -/
theorem Allocator.free_phases (hn : a.memory.find? ptr = some n)
    (h : a.free ndebug ptr bytes = some (r, a')) :
    (ndebug = false → isfree a.memory n = false) ∧ (n.len ≠ bytes → a'.total_free = a.total_free) ∧
      ∃ m before m₁ it m₂ next it',
        ((n.len ≤ bytes ∧ m = a.memory) ∨
          (bytes < n.len ∧ splitNode ndebug a.memory ptr n (u64 (ptr + bytes)) bytes = some m)) ∧
        freeBefore m ptr = some before ∧ insertafter ndebug m before ptr = some m₁ ∧
        merge ndebug m₁ before ptr = some (it, m₂) ∧ (m₂.find? it).bind Node.next = some next ∧
        merge ndebug m₂ it next = some (it', a'.memory) := by
  rw [Allocator.free, hn] at h
  obtain ⟨u, hassert, h⟩ := Option.bind_eq_some_iff.1 h
  refine ⟨?_, ?_⟩
  · rintro rfl
    cases hf : isfree a.memory n with
    | false => rfl
    | true => simp [assert, hf] at hassert
  by_cases heq : n.len = bytes
  · rw [if_pos heq] at h
    obtain ⟨-, before, m₁, it, m₂, next, it', h⟩ := Allocator.free_tail h
    exact ⟨fun hne => absurd heq hne, a.memory, before, m₁, it, m₂, next, it',
      .inl ⟨heq.le, rfl⟩, h⟩
  · rw [if_neg heq] at h
    by_cases hgt : n.len > bytes
    · rw [if_pos hgt] at h
      obtain ⟨m, hsplit, h⟩ := Option.bind_eq_some_iff.1 h
      obtain ⟨htotal, before, m₁, it, m₂, next, it', h⟩ := Allocator.free_tail h
      exact ⟨fun _ => htotal, m, before, m₁, it, m₂, next, it', .inr ⟨hgt, hsplit⟩, h⟩
    · rw [if_neg hgt] at h
      obtain ⟨htotal, before, m₁, it, m₂, next, it', h⟩ := Allocator.free_tail h
      exact ⟨fun _ => htotal, a.memory, before, m₁, it, m₂, next, it', .inl ⟨by omega, rfl⟩, h⟩

/-- The walk down stops below where it starts. -/
theorem freeBefore_lt {before : ℕ} (h : freeBefore m ptr = some before) : before < ptr := by
  obtain ⟨e, he, rfl⟩ := Option.map_eq_some_iff.1 h
  have hmem := List.mem_of_find?_eq_some he
  rw [OrderedMap.below, List.mem_reverse, List.mem_filter] at hmem
  simpa using hmem.2

/-- `insertafter` leaves the lengths. -/
theorem insertafter_len (h : insertafter ndebug m place node = some m') (k : ℕ) :
    (m'.find? k).map Node.len = (m.find? k).map Node.len := by
  simp only [insertafter, Option.bind_eq_bind, Option.bind_eq_some_iff] at h
  obtain ⟨-, -, p, -, -, -, m₁, h₁, m₂, h₂, next, -, h₃⟩ := h
  rw [OrderedMap.find?_update? h₃, OrderedMap.find?_update? h₂, OrderedMap.find?_update? h₁]
  cases m.find? k with
  | none => simp
  | some n => split_ifs <;> rfl

/-- `insertafter` links the node to what came after the place. -/
theorem insertafter_next (h : insertafter ndebug m place node = some m') (hne : place ≠ node) :
    (m'.find? node).map Node.next = (m.find? place).map Node.next := by
  simp only [insertafter, Option.bind_eq_bind, Option.bind_eq_some_iff] at h
  obtain ⟨-, -, p, hp, -, -, m₁, h₁, m₂, h₂, next, -, h₃⟩ := h
  have hnode : (m.find? node).isSome = true := by
    obtain ⟨v, hv, -⟩ := Option.map_eq_some_iff.1 h₁
    rw [hv]
    rfl
  obtain ⟨n, hn⟩ := Option.isSome_iff_exists.1 hnode
  rw [OrderedMap.find?_update? h₃, OrderedMap.find?_update? h₂, OrderedMap.find?_update? h₁, hp, hn,
    if_neg hne.symm, if_pos rfl]
  split_ifs <;> rfl

/-- `merge` leaves the map, or takes the high node out; it adds none. -/
theorem merge_find (h : merge ndebug m low high = some (it, m')) :
    (it = high ∧ m' = m) ∨ (it = low ∧ m'.find? high = none ∧
      (∀ k, m.find? k = none → m'.find? k = none) ∧
        ∃ l, m.find? low = some l ∧ u64 (low + l.len) = high) := by
  simp only [merge, Option.bind_eq_bind, Option.bind_eq_some_iff] at h
  obtain ⟨l, hl, q, -, -, -, -, -, h⟩ := h
  split at h
  · cases h
    exact .inl ⟨rfl, rfl⟩
  · rename_i heq
    simp only [Option.bind_eq_some_iff, Option.pure_def] at h
    obtain ⟨-, -, m₁, h₁, next, -, m₂, h₂, h⟩ := h
    cases h
    refine .inr ⟨rfl, ?_, fun k hk => ?_, l, hl, not_not.1 heq⟩
    · rw [OrderedMap.find?_erase, if_pos rfl]
    · rw [OrderedMap.find?_erase, OrderedMap.find?_update? h₂, OrderedMap.find?_update? h₁, hk]
      simp

/-- A node that has no bytes, or is linked after itself, is as it was after the compaction, or gone.
-/
theorem find?_compact {before next it' : ℕ} {m₁ m₂ m₃ : Memory} (hptr : ptr < 2 ^ 64)
    (hm₂ : merge ndebug m₁ before ptr = some (it, m₂))
    (hnext : (m₂.find? it).bind Node.next = some next)
    (hm₃ : merge ndebug m₂ it next = some (it', m₃))
    (hself : ∀ q, m₁.find? ptr = some q → q.len = 0 ∨ q.next = some ptr) :
    m₃.find? ptr = none ∨ m₃.find? ptr = m₁.find? ptr := by
  obtain ⟨rfl, rfl⟩ | ⟨-, hgone, -, -⟩ := merge_find hm₂
  · obtain ⟨-, rfl⟩ | ⟨-, hgone, -, l, hl, htouch⟩ := merge_find hm₃
    · exact .inr rfl
    · have heq : next = it := by
        obtain hzero | hlink := hself l hl
        · rw [hzero, Nat.add_zero, u64_of_lt hptr] at htouch
          exact htouch.symm
        · rw [hl, Option.bind_some, hlink] at hnext
          exact (Option.some.inj hnext).symm
      rw [heq] at hgone
      exact .inl hgone
  · obtain ⟨-, rfl⟩ | ⟨-, -, hkeep, -⟩ := merge_find hm₃
    · exact .inl hgone
    · exact .inl (hkeep ptr hgone)

end Phases

/-! ### What goes wrong -/

section Wrong

variable {ndebug : Bool} {a a' : Allocator} {ptr bytes : ℕ} {n : Node} {r : Bool}

/-- A pointer to a node is a 64-bit word. -/
theorem Allocator.Inv.ptr_lt (h : a.Inv) (hn : a.memory.find? ptr = some n) : ptr < 2 ^ 64 := by
  have hle := h.shape.le_guard _ (OrderedMap.mem_of_find? hn)
  unfold guardKey at hle
  omega

/-- **Zero bytes of a node**: it is split at its own start, and then it has no bytes, or is gone. -/
theorem Allocator.find?_free_zero (h : a.Inv) (hn : a.memory.find? ptr = some n) (hpos : 0 < n.len)
    (hfree : a.free ndebug ptr 0 = some (r, a')) :
    (a'.memory.find? ptr).map Node.len ≠ some n.len := by
  have hptr := h.ptr_lt hn
  obtain ⟨-, -, m, before, m₁, it, m₂, next, it', ⟨hle, -⟩ | ⟨-, hsplit⟩, -, hm₁, hm₂, hnext,
    hm₃⟩ :=
    Allocator.free_phases hn hfree
  · omega
  have hlen : (m.find? ptr).map Node.len = some 0 := by
    rw [Nat.add_zero, u64_of_lt hptr] at hsplit
    simp only [splitNode, Option.bind_eq_bind, Option.bind_eq_some_iff] at hsplit
    obtain ⟨m₁, h₁, m₂, h₂, hins⟩ := hsplit
    have htouch : a.memory.touch ptr {} = a.memory := if_pos (by rw [hn]; rfl)
    rw [htouch] at h₁
    rw [insertafter_len hins, OrderedMap.find?_update? h₂, OrderedMap.find?_update? h₁, hn]
    simp
  have hlen₁ : (m₁.find? ptr).map Node.len = some 0 := (insertafter_len hm₁ ptr).trans hlen
  have hself : ∀ q, m₁.find? ptr = some q → q.len = 0 ∨ q.next = some ptr := fun q hq => by
    rw [hq] at hlen₁
    exact .inl (Option.some.inj hlen₁)
  obtain hgone | hsame := find?_compact hptr hm₂ hnext hm₃ hself
  · rw [hgone]
    simp
  · rw [hsame, hlen₁]
    exact fun heq => hpos.ne (Option.some.inj heq)

/-- **A node that is free already** is linked after itself, or gone. -/
theorem Allocator.find?_free_of_free (h : a.Inv) (hn : a.memory.find? ptr = some n)
    (hf : isFreeEntry (ptr, n) = true) (hbytes : n.len ≤ bytes ∨ 0 < bytes)
    (hfree : a.free ndebug ptr bytes = some (r, a')) :
      a'.memory.find? ptr ≠ a.memory.find? ptr := by
  have hl := h.shape
  have hptr := h.ptr_lt hn
  have hmem := OrderedMap.mem_of_find? hn
  obtain ⟨-, -, m, before, m₁, it, m₂, next, it', hm, hbefore, hm₁, hm₂, hnext, hm₃⟩ :=
    Allocator.free_phases hn hfree
  have hlt := freeBefore_lt hbefore
  have h₀ : ptr ≠ 0 := by omega
  obtain ⟨X, Y, he⟩ := List.append_of_mem hmem
  obtain ⟨P, ⟨b, nb⟩, U, rfl, hb, hU⟩ := hl.exists_free_before he h₀
  have he' : a.memory.entries = P ++ (b, nb) :: (U ++ (ptr, n) :: Y) := by simp [he]
  have hlink : nb.next = some ptr := (hl.link he' hb hf hU).1
  -- the free node below is linked to this one, before the split and after it
  have hprev : ∃ n' Z, m.first? = some 0 ∧ m.entries = P ++ (b, nb) :: (U ++ (ptr, n') :: Z) := by
    obtain ⟨-, rfl⟩ | ⟨hlt, hsplit⟩ := hm
    · exact ⟨n, Y, hl.first?, he'⟩
    · have hpos : 0 < n.len := by omega
      have hg := hl.ne_guard_of_pos hmem hpos
      obtain ⟨V, ⟨d, nd⟩, S, rfl, hd, hV⟩ := hl.exists_free_after he hg
      have hnd : n.next = some d := (hl.link he hf hd hV).1
      have hend := (hl.bounds hmem h₀ hg).2
      have hfits := h.fits
      simp only [guardKey] at hend hfits
      rw [u64_of_lt (by omega)] at hsplit
      obtain ⟨m', hm', he''⟩ := splitNode_spec ndebug bytes he
        (by rwa [isfree_eq hl.first? ptr]) hnd
        (hl.lt_key_of_after he h.fits h₀ hg (r := ptr + bytes) (by simp only; omega))
        (by omega) hlt.le (by omega)
      obtain rfl := Option.some.inj (hsplit.symm.trans hm')
      refine ⟨_, _, ?_, by rw [he'', List.append_assoc, List.cons_append]⟩
      rw [first?_eq, he'', ← hl.first?, first?_eq, he]
      simp
  obtain ⟨n', Z, hfirst, hmem'⟩ := hprev
  have hbb : before = b :=
    Option.some.inj (hbefore.symm.trans (freeBefore_spec hfirst hmem' hb hU))
  have hnext₁ : (m₁.find? ptr).map Node.next = some (some ptr) := by
    rw [insertafter_next hm₁ hlt.ne, hbb, OrderedMap.find?_of_entries hmem', Option.map_some, hlink]
  have hself : ∀ q, m₁.find? ptr = some q → q.len = 0 ∨ q.next = some ptr := fun q hq => by
    rw [hq] at hnext₁
    exact .inr (Option.some.inj hnext₁)
  -- in the free list a node is followed by one above it
  have hne : n.next ≠ some ptr := by
    by_cases hg : ptr = guardKey
    · rw [(hl.guard _ hmem hg).2]
      exact (Option.some_ne_none _).symm
    · obtain ⟨V, ⟨d, nd⟩, S, rfl, hd, hV⟩ := hl.exists_free_after he hg
      have hnd : n.next = some d := (hl.link he hf hd hV).1
      have hlt' := hl.lt_of_after he (d := (d, nd)) (by simp)
      rw [hnd]
      exact fun heq => hlt'.ne (Option.some.inj heq).symm
  obtain hgone | hsame := find?_compact hptr hm₂ hnext hm₃ hself
  · rw [hgone, hn]
    exact (Option.some_ne_none _).symm
  · intro heq
    rw [← hsame, heq, hn] at hnext₁
    exact hne (Option.some.inj hnext₁)

end Wrong

/-! ### When it is right -/

section Right

variable (ndebug : Bool) {a : Allocator} {ptr bytes : ℕ}

/-- A whole used node is given back. -/
theorem Allocator.Inv.releases (h : a.Inv) (hu : (ptr, bytes) ∈ usedNodes a.memory.entries) :
    ∃ a', a.free ndebug ptr bytes = some (true, a') ∧ a.Releases a' ptr bytes bytes := by
  obtain ⟨n, hc, hcu, rfl⟩ := mem_usedNodes.1 hu
  obtain ⟨m, hm, hl, ha, hfree, hused⟩ := Allocator.free_whole ndebug h hc hcu le_rfl
  rw [if_pos rfl] at hm
  have hinv : Allocator.Inv { a with
      total_free := a.total_free + n.len, memory := m, high := a.high.erase ptr } :=
    ⟨h.fits, hl, ha, hfree.symm⟩
  have hpos := h.shape.used_pos _ hc hcu
  have hb := h.shape.bounds hc (h.shape.ne_zero_of_pos hc hpos) (h.shape.ne_guard_of_pos hc hpos)
  have hsep := (Arena.Inv.sound ndebug (s := ⟨a, usedNodes a.memory.entries⟩) ⟨h, .refl _⟩).disjoint
  have hsep' := (hused.pairwise_iff fun {x y} hxy => hxy.symm).1 hsep
  refine ⟨_, hm, hinv, rfl, rfl, rfl, ?_, ?_⟩
  · ext x
    rw [Set.mem_union, hinv.mem_freeSpace, h.mem_freeSpace, Set.mem_Ico]
    simp only [hused.mem_iff, List.mem_cons, forall_eq_or_imp]
    constructor
    · rintro ⟨hin, hno⟩
      by_cases hx : ptr ≤ x ∧ x < ptr + n.len
      · exact .inr hx
      · exact .inl ⟨hin, hx, hno⟩
    · rintro (⟨hin, -, hno⟩ | hx)
      · exact ⟨hin, hno⟩
      · simp only at hb
        refine ⟨by omega, fun s hs hsx => ?_⟩
        have := List.rel_of_pairwise_cons hsep' hs
        rw [Separate] at this
        simp only at this
        omega
  · rw [remainder, if_neg (lt_irrefl _), List.nil_append]
    have := hused.erase (ptr, n.len)
    rw [List.erase_cons_head] at this
    exact this.symm

/-- **`free` is right exactly for whole nodes**, and for pointers to no node where assertions are
compiled out. -/
theorem Allocator.free_ok_iff (h : a.Inv) (ptr bytes : ℕ) : a.FreeOk ndebug ptr bytes ↔
    (ptr, bytes) ∈ usedNodes a.memory.entries ∨ (a.memory.find? ptr = none ∧ ndebug = true) := by
  have hunique : ∀ n len, a.memory.find? ptr = some n → (ptr, len) ∈ usedNodes a.memory.entries →
      len = n.len := fun n len hn hlen => by
    obtain ⟨n', hc, -, rfl⟩ := mem_usedNodes.1 hlen
    have hn' := OrderedMap.find?_eq_some_iff.2 hc
    rw [hn] at hn'
    cases hn'
    rfl
  constructor
  · rintro ⟨hpart, hrefuse⟩
    cases hn : a.memory.find? ptr with
    | none =>
      refine .inr ⟨rfl, ?_⟩
      obtain ⟨r, hr⟩ := hrefuse fun len hlen => by
        obtain ⟨n', hc, -, -⟩ := mem_usedNodes.1 hlen
        rw [OrderedMap.find?_eq_some_iff.2 hc] at hn
        cases hn
      by_contra hdebug
      simp [Allocator.free, hn, assert, hdebug] at hr
    | some n =>
      refine .inl ?_
      have hmem := OrderedMap.mem_of_find? hn
      by_cases hf : isFreeEntry (ptr, n) = true
      · -- a free node
        obtain ⟨r, hr⟩ := hrefuse fun len hlen => by
          obtain ⟨n', hc, hcu, -⟩ := mem_usedNodes.1 hlen
          rw [OrderedMap.find?_eq_some_iff.2 hc] at hn
          cases hn
          rw [hf] at hcu
          cases hcu
        by_cases hbytes : n.len ≤ bytes ∨ 0 < bytes
        · exact absurd rfl (Allocator.find?_free_of_free h hn hf hbytes hr)
        · obtain rfl : bytes = 0 := by omega
          have hlen := Allocator.find?_free_zero h hn (by omega) hr
          rw [hn] at hlen
          exact absurd rfl hlen
      · -- a used node
        have hcu : isFreeEntry (ptr, n) = false := by simpa using hf
        have hu : (ptr, n.len) ∈ usedNodes a.memory.entries := mem_usedNodes.2 ⟨n, hmem, hcu, rfl⟩
        rcases Nat.lt_trichotomy bytes n.len with hlt | rfl | hgt
        · obtain ⟨a', ha', hrel⟩ := hpart n.len hu hlt.le
          obtain ⟨-, htotal, -⟩ := Allocator.free_phases hn ha'
          have hzero : bytes = 0 := by
            have := hrel.total
            have := htotal hlt.ne'
            omega
          subst hzero
          have hlast : (ptr, n.len) ∈ usedNodes a'.memory.entries := by
            rw [hrel.used.mem_iff, remainder, if_pos hlt]
            exact List.mem_append_left _ (List.mem_singleton.2 rfl)
          obtain ⟨n', hc, -, hlen⟩ := mem_usedNodes.1 hlast
          have hnot := Allocator.find?_free_zero h hn hlt ha'
          rw [OrderedMap.find?_eq_some_iff.2 hc, Option.map_some, hlen] at hnot
          exact absurd rfl hnot
        · exact hu
        · obtain ⟨r, hr⟩ := hrefuse fun len hlen => by
            rw [hunique n len hn hlen]
            exact hgt
          obtain ⟨m, hm, -, -, -, hused⟩ := Allocator.free_whole ndebug h hmem hcu hgt.le
          rw [hm] at hr
          have hsame : m = a.memory := congrArg (fun x => x.2.memory) (Option.some.inj hr)
          rw [hsame] at hused
          have := hused.length_eq
          rw [List.length_cons] at this
          omega
  · rintro (hu | ⟨hn, rfl⟩)
    · obtain ⟨n, hc, -, hlen⟩ := mem_usedNodes.1 hu
      have hn := OrderedMap.find?_eq_some_iff.2 hc
      refine ⟨fun len hlen' _ => ?_, fun hshort => absurd (hshort bytes hu) (lt_irrefl _)⟩
      obtain rfl : len = bytes := (hunique n len hn hlen').trans hlen
      exact h.releases ndebug hu
    · refine ⟨fun len hlen _ => ?_, fun _ => ⟨false, ?_⟩⟩
      · obtain ⟨n', hc, -, -⟩ := mem_usedNodes.1 hlen
        rw [OrderedMap.find?_eq_some_iff.2 hc] at hn
        cases hn
      · simp [Allocator.free, hn, assert]

end Right

/-- Two pages, taken as one node. -/
theorem Allocator.exists_two_pages : ∃ a,
    (Allocator.create 4096 8192).alloc false 0 8192 false = some (some 4096, a) ∧ a.Inv ∧
      (4096, 8192) ∈ usedNodes a.memory.entries := by
  have hnode : (Allocator.create 4096 8192).FreeNode 4096 8192 :=
    ⟨{ len := 8192, next := some guardKey, prior := some 0 }, by decide, by decide, rfl⟩
  obtain ⟨p, a, hr, htakes⟩ := ((Arena.inv_create (by decide) (by decide)).inv.alloc_null false 0
    (by decide)).2 ⟨4096, 8192, hnode, le_rfl⟩
  have hp : ((Allocator.create 4096 8192).alloc false 0 8192 false).map Prod.fst =
      some (some 4096) := by
    decide
  rw [hr] at hp
  cases hp
  exact ⟨a, hr, htakes.inv, htakes.used.mem_iff.2 List.mem_cons_self⟩

/-- The two pages are given back as they were taken. -/
theorem Allocator.free_ok_iff_two_pages : ∃ a,
    (Allocator.create 4096 8192).alloc false 0 8192 false = some (some 4096, a) ∧
      (a.FreeOk false 4096 8192 ↔ (4096, 8192) ∈ usedNodes a.memory.entries ∨
        (a.memory.find? 4096 = none ∧ false = true)) := by
  obtain ⟨a, hr, hinv, -⟩ := Allocator.exists_two_pages
  exact ⟨a, hr, Allocator.free_ok_iff false hinv 4096 8192⟩

/-- **Half of a node is not given back**: with assertions `free` aborts, and without them the page
is not counted. -/
theorem Allocator.half_free_uncounted : ∃ a,
    (Allocator.create 4096 8192).alloc false 0 8192 false = some (some 4096, a) ∧ a.Inv ∧
      a.free false 4096 4096 = none ∧ ¬a.FreeOk false 4096 4096 ∧ ¬a.FreeOk true 4096 4096 := by
  obtain ⟨a, hr, hinv, hu⟩ := Allocator.exists_two_pages
  have hrun : (((Allocator.create 4096 8192).alloc false 0 8192 false).map fun x =>
      x.2.total_free) =
      some 0 ∧ (((Allocator.create 4096 8192).alloc false 0 8192 false).map fun x =>
        (x.2.free false 4096 4096).isNone) = some true ∧
      (((Allocator.create 4096 8192).alloc false 0 8192 false).bind fun x =>
        (x.2.free true 4096 4096).map fun y => y.2.total_free) = some 0 := by
    decide
  rw [hr] at hrun
  obtain ⟨htotal, hdebug, hrelease⟩ := hrun
  have htotal : a.total_free = 0 := Option.some.inj htotal
  have hdebug : a.free false 4096 4096 = none :=
    Option.isNone_iff_eq_none.1 (Option.some.inj hdebug)
  refine ⟨a, hr, hinv, hdebug, fun hok => ?_, fun hok => ?_⟩
  · obtain ⟨a', ha', -⟩ := hok.1 8192 hu (by decide)
    rw [hdebug] at ha'
    cases ha'
  · obtain ⟨a', ha', hrel⟩ := hok.1 8192 hu (by decide)
    rw [Option.bind_some, ha'] at hrelease
    have hcount : a'.total_free = 0 := Option.some.inj hrelease
    have := hrel.total
    omega

end Codrive.Device
