/-
# Runs of the allocator

Calls of `alloc`, `alloc_high` and `free` in any order, `free` on an allocation that is live
and with its full size.  `Allocator.RepInv` is what a reader of `src/src/device/inc/MemObj.h`
expects of the nodes and the free list; `Allocator.Inv` carries it through a run.

The constructor (`poolBoundsOk`) refuses an arena that ends at the end guard and lets one
through that reaches past it, with its end wrapped.  The end guard's key is then an address
of the arena, `memory[remaining]` finds the guard instead of a new node, and the bytes from
there on are lost.
-/

import Codrive.Basis.Run
import Codrive.Device.AllocatorInv

namespace Codrive.Device

open Codrive.Basis

/-- The nodes between the two guards. -/
def Allocator.nodes (a : Allocator) : List (ℕ × Node) := a.memory.entries.tail.dropLast

/-- The free entries in address order, guards included. -/
def Allocator.freeEntries (a : Allocator) : List (ℕ × Node) :=
  a.memory.entries.filter fun e => isfree a.memory e.2

/-- The keys visited from an iterator along `next`. -/
def freeWalk (m : Memory) : ℕ → Option ℕ → List ℕ
  | 0, _ => []
  | _ + 1, none => []
  | fuel + 1, some k => k :: freeWalk m fuel ((m.find? k).bind Node.next)

/-- **The representation invariant of `Allocator`.** -/
structure Allocator.RepInv (a : Allocator) : Prop where
  /-- The nodes stand between two empty guards. -/
  guards : ∃ s e, a.memory.entries = (0, s) :: (a.nodes ++ [(guardKey, e)]) ∧
    s.len = 0 ∧ e.len = 0
  /-- They tile the arena. -/
  tiles : Tiles a.pool (a.pool + a.length) (a.nodes.map fun e => (e.1, e.2.len))
  /-- The free list visits the free nodes in address order. -/
  visits : freeWalk a.memory a.memory.entries.length a.memory.first? = a.freeEntries.map Prod.fst
  /-- `next` and `prior` are inverse. -/
  links : a.freeEntries.IsChain Link
  /-- No two adjacent nodes are free. -/
  coalesced : a.nodes.IsChain fun x y =>
    ¬ (isfree a.memory x.2 = true ∧ isfree a.memory y.2 = true)
  /-- `total_free` is the sum of the free nodes' lengths. -/
  total : a.total_free = ((a.nodes.filter fun e => isfree a.memory e.2).map fun e => e.2.len).sum

section RepInv

variable {a : Allocator}

/-- The entries are the nodes between the guards. -/
theorem Allocator.Inv.exists_guards (h : a.Inv) :
    ∃ s e, a.memory.entries = (0, s) :: (a.nodes ++ [(guardKey, e)]) := by
  obtain ⟨⟨_, s⟩, hs, rfl⟩ := List.mem_map.1 h.shape.zero_mem
  obtain ⟨⟨_, e⟩, he, hk⟩ := List.mem_map.1 h.shape.guard_mem
  simp only at hk
  subst hk
  obtain ⟨A, B, hAB⟩ := List.append_of_mem hs
  have hA : A = [] := List.eq_nil_iff_forall_not_mem.2 fun x hx => by
    have := h.shape.lt_of_before hAB hx
    simp only at this
    omega
  rw [hA, List.nil_append] at hAB
  have heB : (guardKey, e) ∈ B := by
    rw [hAB, List.mem_cons] at he
    exact he.resolve_left (by simp [guardKey])
  obtain ⟨C, D, hCD⟩ := List.append_of_mem heB
  have hD : D = [] := List.eq_nil_iff_forall_not_mem.2 fun x hx => by
    have h₁ := h.shape.lt_of_after (X := (0, s) :: C) (c := (guardKey, e)) (Y := D)
      (by simp [hAB, hCD]) hx
    have h₂ := h.shape.le_guard x (by simp [hAB, hCD, hx])
    simp only at h₁
    omega
  refine ⟨s, e, ?_⟩
  rw [Allocator.nodes, hAB, hCD, hD]
  simp

/-- The walk along `next` visits the free entries. -/
theorem freeWalk_eq {m : Memory} {pool length : ℕ} (hl : Shape pool length m.entries) :
    ∀ (fuel : ℕ) (X Y : List (ℕ × Node)) (c : ℕ) (nc : Node), m.entries = X ++ (c, nc) :: Y →
      isFreeEntry (c, nc) = true → Y.length < fuel →
        freeWalk m fuel (some c) = (((c, nc) :: Y).filter isFreeEntry).map Prod.fst := by
  intro fuel
  induction fuel with
  | zero => exact fun X Y c nc _ _ h => absurd h (Nat.not_lt_zero _)
  | succ fuel ih =>
    intro X Y c nc he hf hfuel
    have hc : (c, nc) ∈ m.entries := he ▸ List.mem_append_right _ (List.mem_cons_self ..)
    rw [freeWalk, OrderedMap.find?_of_entries he, Option.bind_some, List.filter_cons_of_pos hf,
      List.map_cons]
    by_cases hg : c = guardKey
    · have hn : nc.next = none := (hl.guard _ hc hg).2
      have hY : Y = [] := by
        refine List.eq_nil_iff_forall_not_mem.2 fun e h => ?_
        have h₁ := hl.lt_of_after he h
        have h₂ := hl.le_guard e (he ▸ List.mem_append_right _ (List.mem_cons_of_mem _ h))
        simp only at h₁
        omega
      rw [hn, hY]
      cases fuel <;> rfl
    · obtain ⟨V, ⟨d, nd⟩, S, rfl, hd, hV⟩ := hl.exists_free_after he hg
      have hn : nc.next = some d := (hl.link he hf hd hV).1
      rw [hn, ih (X ++ (c, nc) :: V) S d nd (by simp [he]) hd (by
        simp only [List.length_append, List.length_cons] at hfuel
        omega), List.filter_append, filter_of_used hV, List.nil_append]

/-- **What every call keeps gives the representation invariant.** -/
theorem Allocator.Inv.repInv (h : a.Inv) : a.RepInv := by
  obtain ⟨s, e, he⟩ := h.exists_guards
  have hl := h.shape
  have hs : (0, s) ∈ a.memory.entries := he ▸ List.mem_cons_self ..
  have hg : (guardKey, e) ∈ a.memory.entries := he ▸ by simp
  have hs' := hl.zero _ hs rfl
  have hg' := hl.guard _ hg rfl
  have hfirst := hl.first?
  have hfree : (fun x : ℕ × Node => isfree a.memory x.2) = isFreeEntry :=
    funext fun x => isfree_eq hfirst x.1 x.2
  have hnode : ∀ x ∈ a.nodes, x.1 ≠ 0 ∧ x.1 ≠ guardKey := by
    intro x hx
    have h₁ := hl.lt_of_after (X := []) (c := (0, s)) (Y := a.nodes ++ [(guardKey, e)])
      (by simpa using he) (d := x) (by simp [hx])
    have h₂ := hl.lt_of_before (X := (0, s) :: a.nodes) (c := (guardKey, e)) (Y := [])
      (by simpa using he) (b := x) (by simp [hx])
    simp only at h₁ h₂
    omega
  have hgf := hl.isFreeEntry_guard hg rfl
  refine ⟨⟨s, e, he, hs'.1, hg'.1⟩, ?_, ?_, ?_, ?_, ?_⟩
  · have ht := hl.tiles
    have hmap : a.nodes.map (spanOf a.pool a.length) = a.nodes.map fun e => (e.1, e.2.len) :=
      List.map_congr_left fun x hx => by
        rw [spanOf, startOf_node (hnode x hx).1 (hnode x hx).2]
    rw [he, List.map_cons, tiles_cons, List.map_append, hmap, tiles_append] at ht
    obtain ⟨-, mid, hm, hend⟩ := ht
    have hlen : s.len = 0 := hs'.1
    have hmid : startOf a.pool a.length (guardKey, e) = mid := hend.1
    simp only [spanOf, hlen, Nat.add_zero] at hm
    rw [startOf, if_neg (by simp [guardKey]), if_pos rfl] at hmid
    exact hmid ▸ hm
  · rw [Allocator.freeEntries, hfree, hfirst, freeWalk_eq hl _ [] _ 0 s he hs'.2.2 (by simp [he]),
      ← he]
  · rw [Allocator.freeEntries, hfree]
    exact hl.links
  · have ha := h.apart
    rw [he] at ha
    have ha' := (List.isChain_append.1 (List.isChain_cons.1 ha).2).1
    refine ha'.imp_of_mem_imp fun x y hx hy hxy hf => ?_
    rw [isfree_eq hfirst x.1, isfree_eq hfirst y.1] at hf
    rcases hxy hf.1 hf.2 with h₀ | hg
    · exact (hnode x hx).1 h₀
    · exact (hnode y hy).2 hg
  · have ht := h.total
    have hs₀ : s.len = 0 := hs'.1
    have hg₀ : e.len = 0 := hg'.1
    rw [he, freeBytes_cons_free hs'.2.2, freeBytes_append, freeBytes_cons_free hgf] at ht
    rw [ht, hfree]
    simp [hs₀, hg₀, freeBytes]

end RepInv

/-- A call of the allocator. -/
inductive Call
  /-- `alloc(address, bytes, fix_address)`. -/
  | alloc (address bytes : ℕ) (fix_address : Bool)
  /-- `alloc_high(bytes)`. -/
  | alloc_high (bytes : ℕ)
  /-- `free(ptr, bytes)`. -/
  | free (ptr bytes : ℕ)

/-- An allocator and the allocations its callers hold: pointers with their sizes. -/
structure Arena where
  /-- The allocator. -/
  allocator : Allocator
  /-- What was returned and not freed. -/
  live : List (ℕ × ℕ)

/-- A call and what its caller learns; `none` when it aborts. -/
def Arena.call (ndebug : Bool) (s : Arena) : Call → Option Arena
  | .alloc address bytes fix_address => do
    let (r, a) ← s.allocator.alloc ndebug address bytes fix_address
    return ⟨a, (r.map fun p => (p, bytes)).toList ++ s.live⟩
  | .alloc_high bytes => do
    let (r, a) ← s.allocator.alloc_high ndebug bytes
    return ⟨a, (r.map fun p => (p, bytes)).toList ++ s.live⟩
  | .free ptr bytes => do
    let (_, a) ← s.allocator.free ndebug ptr bytes
    return ⟨a, s.live.erase (ptr, bytes)⟩

/-- The calls that are made: `free` is called on a live allocation with its full size. -/
def Arena.Legal (s : Arena) : Call → Prop
  | .free ptr bytes => (ptr, bytes) ∈ s.live
  | _ => True

/-- One call. -/
def Arena.Step (ndebug : Bool) (s : Arena) (c : Call) (t : Arena) : Prop :=
  s.Legal c ∧ s.call ndebug c = some t

/-- What callers are promised of a state. -/
structure Arena.Sound (ndebug : Bool) (s : Arena) : Prop where
  /-- The allocator keeps its representation invariant. -/
  rep : s.allocator.RepInv
  /-- Live allocations are disjoint. -/
  disjoint : s.live.Pairwise Separate
  /-- Live allocations lie in the arena. -/
  inside : ∀ p ∈ s.live, s.allocator.pool ≤ p.1 ∧
    p.1 + p.2 ≤ s.allocator.pool + s.allocator.length
  /-- Every call returns. -/
  returns : ∀ c, s.Legal c → (s.call ndebug c).isSome = true

/-- The invariant of a run: the allocator's, and live allocations are the used nodes. -/
structure Arena.Inv (s : Arena) : Prop where
  /-- The allocator's invariant. -/
  inv : s.allocator.Inv
  /-- The used nodes are the live allocations. -/
  live : (usedNodes s.allocator.memory.entries).Perm s.live

section Runs

variable (ndebug : Bool) {s t : Arena}

/-- A legal call returns and keeps the invariant, and the arena stays where it is. -/
theorem Arena.Inv.exists_call (h : s.Inv) {c : Call} (hc : s.Legal c) :
    ∃ t, s.call ndebug c = some t ∧ t.Inv ∧ t.allocator.pool = s.allocator.pool ∧
      t.allocator.length = s.allocator.length := by
  cases c with
  | alloc address bytes fix_address =>
    rcases Allocator.alloc_inv ndebug h.inv address bytes fix_address with
      hr | ⟨p, a', hr, hi, -, hp, hl, hu⟩
    · exact ⟨s, by simp [Arena.call, hr], h, rfl, rfl⟩
    · exact ⟨⟨a', (p, bytes) :: s.live⟩, by simp [Arena.call, hr],
        ⟨hi, hu.trans (h.live.cons _)⟩, hp, hl⟩
  | alloc_high bytes =>
    rcases Allocator.alloc_high_inv ndebug h.inv bytes with hr | ⟨p, a', hr, hi, -, hp, hl, hu⟩
    · exact ⟨s, by simp [Arena.call, hr], h, rfl, rfl⟩
    · exact ⟨⟨a', (p, bytes) :: s.live⟩, by simp [Arena.call, hr],
        ⟨hi, hu.trans (h.live.cons _)⟩, hp, hl⟩
  | free ptr bytes =>
    have hu : (ptr, bytes) ∈ usedNodes s.allocator.memory.entries := h.live.mem_iff.2 hc
    obtain ⟨a', hr, hi, hp, hl, hperm⟩ := Allocator.free_inv ndebug h.inv hu
    refine ⟨⟨a', s.live.erase (ptr, bytes)⟩, by simp [Arena.call, hr], ⟨hi, ?_⟩, hp, hl⟩
    have := (hperm.symm.trans h.live).erase (ptr, bytes)
    rwa [List.erase_cons_head] at this

/-- One call keeps the invariant. -/
theorem Arena.Inv.step (c : Call) (h : s.Inv) (hs : s.Step ndebug c t) : t.Inv := by
  obtain ⟨t', ht', hi, -⟩ := h.exists_call ndebug hs.1
  rw [hs.2] at ht'
  exact Option.some.inj ht' ▸ hi

/-- **The invariant gives callers what they are promised.** -/
theorem Arena.Inv.sound (h : s.Inv) : s.Sound ndebug := by
  have hl := h.inv.shape
  have hspan : usedNodes s.allocator.memory.entries =
      (s.allocator.memory.entries.filter fun e => !isFreeEntry e).map
        (spanOf s.allocator.pool s.allocator.length) := by
    refine List.map_congr_left fun e he => ?_
    obtain ⟨hm, hf⟩ := List.mem_filter.1 he
    have hpos := hl.used_pos e hm (by simpa using hf)
    rw [spanOf, startOf_node (hl.ne_zero_of_pos hm hpos) (hl.ne_guard_of_pos hm hpos)]
  refine ⟨h.inv.repInv, ?_, fun p hp => ?_, fun c hc => ?_⟩
  · refine (h.live.pairwise_iff fun {x y} hxy => hxy.symm).1 ?_
    have hsub := (List.filter_sublist (p := fun e => !isFreeEntry e)
      (l := s.allocator.memory.entries)).map (spanOf s.allocator.pool s.allocator.length)
    rw [hspan]
    exact hl.tiles.pairwise_separate.sublist hsub
  · rw [← h.live.mem_iff, hspan] at hp
    obtain ⟨e, he, rfl⟩ := List.mem_map.1 hp
    exact hl.tiles.mem_bounds (List.mem_map_of_mem (List.mem_filter.1 he).1)
  · obtain ⟨t, ht, -⟩ := h.exists_call ndebug hc
    rw [ht]
    rfl

/-- The entries the constructor makes of an arena below the end guard. -/
theorem Allocator.entries_create {pool : ℕ} (length : ℕ) (h₀ : pool ≠ 0) (h : pool < guardKey) :
    (Allocator.create pool length).memory.entries =
      [(0, { len := 0, next := some pool, prior := none }),
        (pool, { len := length, next := some guardKey, prior := some 0 }),
        (guardKey, { len := 0, next := none, prior := some pool })] := by
  have hpos : 0 < pool := Nat.pos_of_ne_zero h₀
  have hg : ¬ guardKey < pool := by omega
  simp [Allocator.create, OrderedMap.entries_set, OrderedMap.insertEntry, hpos, hg, h,
    show 0 < guardKey by decide]

/-- A new arena that ends below the end guard has the invariant. -/
theorem Arena.inv_create {pool length : ℕ} (h₀ : pool ≠ 0) (h : pool + length < guardKey) :
    Arena.Inv ⟨Allocator.create pool length, []⟩ := by
  have he := Allocator.entries_create length h₀ (by omega : pool < guardKey)
  have hpg : pool ≠ guardKey := by omega
  have hg₀ : guardKey ≠ 0 := by decide
  have hsorted := (Allocator.create pool length).memory.sorted
  refine ⟨⟨h, ⟨?_, ?_, ?_, ?_, ?_, hsorted, ?_, ?_, ?_⟩, ?_, ?_⟩, ?_⟩ <;>
    simp only [he]
  · simp
  · simp [isFreeEntry, h₀, hg₀]
  · simp
  · simp [hpg, hg₀.symm]
  · simp only [List.forall_mem_cons]
    exact ⟨Nat.zero_le _, by omega, le_rfl, fun _ h => absurd h List.not_mem_nil⟩
  · simp [spanOf, startOf, h₀, hpg, hg₀, Allocator.create]
  · simp [isFreeEntry, h₀, hg₀, Link]
  · simp [isFreeEntry, h₀, hg₀]
  · simp [Apart]
  · simp [Allocator.create, freeBytes, isFreeEntry, h₀, hg₀]
  · simp [usedNodes, isFreeEntry, h₀, hg₀]

/-- **`memory[remaining]` finds the end guard**: taking the bytes up to the guard writes the
rest of the length into the guard and creates no node. -/
theorem takeLow_guard {m : Memory} {pool length : ℕ} (h : pool < guardKey)
    (hlen : guardKey < pool + length)
    (he : m.entries = [(0, { len := 0, next := some pool, prior := none }),
      (pool, { len := length, next := some guardKey, prior := some 0 }),
      (guardKey, { len := 0, next := none, prior := some pool })]) :
    ∃ m' s n e, takeLow ndebug m pool (guardKey - pool) = some m' ∧
      m'.entries = [(0, s), (pool, n), (guardKey, e)] ∧ n.len = guardKey - pool := by
  have hg₀ : guardKey ≠ 0 := by decide
  have hr : u64 (pool + (guardKey - pool)) = guardKey := by
    rw [Nat.add_sub_cancel' h.le]
    exact u64_of_lt (by decide)
  have hfp : m.find? pool = some { len := length, next := some guardKey, prior := some 0 } :=
    OrderedMap.find?_of_entries (A := [_]) he
  have hfg : m.find? guardKey = some { len := 0, next := none, prior := some pool } :=
    OrderedMap.find?_of_entries (A := [_, _]) he
  have hfirst {m' : Memory} {s n e : Node} (h : m'.entries = [(0, s), (pool, n), (guardKey, e)]) :
      m'.first? = some 0 := by
    rw [first?_eq, h]
    rfl
  -- splitNode: the guard gets the rest of the length, then links to itself
  obtain ⟨m₁, h₁, e₁⟩ := OrderedMap.exists_update? (A := [_, _])
    (fun r => { r with len := sub64 length (guardKey - pool) }) he
  obtain ⟨m₂, h₂, e₂⟩ := OrderedMap.exists_update? (A := [_])
    (fun l => { l with len := guardKey - pool }) e₁
  obtain ⟨m₃, h₃, e₃⟩ := OrderedMap.exists_update? (A := [_, _])
    (fun n => { n with next := some guardKey, prior := some pool }) e₂
  obtain ⟨m₄, h₄, e₄⟩ := OrderedMap.exists_update? (A := [_])
    (fun n => { n with next := some guardKey }) e₃
  obtain ⟨m₅, h₅, e₅⟩ := OrderedMap.exists_update? (A := [_, _])
    (fun n => { n with prior := some guardKey }) e₄
  have hsplit : splitNode ndebug m pool { len := length, next := some guardKey, prior := some 0 }
      guardKey (guardKey - pool) = some m₅ := by
    have hf₂ := OrderedMap.find?_of_entries (A := [_]) e₂
    simp only [List.cons_append, List.nil_append] at e₂
    simp [splitNode, OrderedMap.touch, hfg, h₁, h₂, insertafter, assert_of_true, h, hf₂, isfree,
      hfirst e₂, hg₀, h₃, h₄, h₅]
  -- remove
  obtain ⟨m₆, h₆, e₆⟩ := OrderedMap.exists_update? (A := [])
    (fun p => { p with next := some guardKey }) e₅
  obtain ⟨m₇, h₇, e₇⟩ := OrderedMap.exists_update? (A := [_, _])
    (fun q => { q with prior := some 0 }) e₆
  obtain ⟨m₈, h₈, e₈⟩ := OrderedMap.exists_update? (A := [_])
    (fun n => { n with next := some 0 }) e₇
  have hremove : remove ndebug m₅ pool = some m₈ := by
    have hf₅ := OrderedMap.find?_of_entries (A := [_]) e₅
    have hf₆ := OrderedMap.find?_of_entries (A := [_]) e₆
    simp only [List.cons_append, List.nil_append] at e₅ e₇
    simp [remove, hf₅, isfree, hfirst e₅, hg₀, assert_of_true, h₆, hf₆, h₇, hfirst e₇, h₈]
  have hne : guardKey - pool ≠ length := by omega
  exact ⟨m₈, _, _, _, by simp [takeLow, hfp, hne, hr, hsplit, hremove], e₈, rfl⟩

/-- In an arena that reaches past the end guard, allocating up to the guard leaves nodes
that do not tile the arena. -/
theorem Arena.not_repInv_of_guard_inside {pool length : ℕ} (h₀ : pool ≠ 0) (h : pool < guardKey)
    (hlen : guardKey < pool + length) (hlt : length < 2 ^ 64)
    (hs : Arena.Step ndebug ⟨Allocator.create pool length, []⟩
      (.alloc 0 (guardKey - pool) false) t) : ¬ t.allocator.RepInv := by
  have he := Allocator.entries_create length h₀ h
  obtain ⟨m', s', n, e, hm', he', hn⟩ := takeLow_guard ndebug h hlen he
  intro hrep
  have hfp : (Allocator.create pool length).memory.find? pool =
      some { len := length, next := some guardKey, prior := some 0 } :=
    OrderedMap.find?_of_entries (A := [_]) he
  have hstart : (Allocator.create pool length).allocStart 0 false = some (some pool) := by
    have hfz := OrderedMap.find?_of_entries (A := []) he
    have hfirst : (Allocator.create pool length).memory.first? = some 0 := by
      rw [first?_eq, he]
      rfl
    simp [Allocator.allocStart, hfirst, hfz]
  have hfit : firstFit ndebug (Allocator.create pool length).memory (guardKey - pool) 3 pool =
      some (some pool) := by
    have hle : guardKey ≤ length + pool := by omega
    simp [firstFit, hfp, islastfree, hle]
  have hcount : (Allocator.create pool length).memory.entries.length = 3 := by rw [he]; rfl
  have hsize : ¬ (guardKey - pool > (Allocator.create pool length).total_free) := by
    simp only [Allocator.create]
    omega
  have hpos : guardKey - pool ≠ 0 := by omega
  have hcall := hs.2
  simp only [Arena.call, Allocator.alloc, hsize, hpos, decide_false, Bool.or_self, hstart, hcount,
    hfit, hm', Option.bind_eq_bind, Option.bind_some, Option.pure_def, Bool.false_eq_true,
    if_false, Option.some.injEq] at hcall
  subst hcall
  have ht := hrep.tiles
  simp only [Allocator.nodes, he', List.tail_cons, List.dropLast, List.map_cons, List.map_nil,
    tiles_cons, tiles_nil, hn, Allocator.create] at ht
  omega

/-- **The allocator's representation invariant holds over all runs exactly on the arenas
that end below the end guard.** -/
theorem Arena.sound_iff {pool length : ℕ} (hp : pool < 2 ^ 64) (hl : length < 2 ^ 64)
    (hok : poolBoundsOk pool length = true) :
    (∀ cs t, Run (Arena.Step ndebug) ⟨Allocator.create pool length, []⟩ cs t → t.Sound ndebug) ↔
      pool + length < 2 ^ 64 - 1 := by
  simp only [poolBoundsOk, Bool.and_eq_true, decide_eq_true_eq] at hok
  obtain ⟨⟨h₀, hpg⟩, hend⟩ := hok
  have hpg' : pool < guardKey := by
    unfold guardKey at hpg ⊢
    omega
  constructor
  · intro hsound
    by_contra hle
    have hlen : guardKey < pool + length := by
      by_contra hcon
      have heq : pool + length = guardKey := by
        unfold guardKey at hcon ⊢
        omega
      rw [heq] at hend
      exact hend (u64_of_lt (by decide))
    have hnil := hsound [] _ (.nil _)
    obtain ⟨t, ht⟩ := Option.isSome_iff_exists.1
      (hnil.returns (.alloc 0 (guardKey - pool) false) trivial)
    have hstep : Arena.Step ndebug ⟨Allocator.create pool length, []⟩
        (.alloc 0 (guardKey - pool) false) t := ⟨trivial, ht⟩
    exact Arena.not_repInv_of_guard_inside ndebug h₀ hpg' hlen hl hstep
      (hsound _ _ (.cons hstep (.nil t))).rep
  · intro h cs t hrun
    exact (hrun.inv (fun s c t hs hst => hs.step ndebug c hst) (Arena.inv_create h₀ h)).sound ndebug

/-- An arena of two pages. -/
theorem Arena.sound_iff_two_pages :
    (∀ cs t, Run (Arena.Step false) ⟨Allocator.create 4096 8192, []⟩ cs t → t.Sound false) ↔
      4096 + 8192 < 2 ^ 64 - 1 :=
  Arena.sound_iff false (by decide) (by decide) (by decide)

/-- **The last page of the address space is accepted, and the first large allocation breaks
it**: the call returns, one node of 4095 bytes is left of the 4096, and no assertion
fires. -/
theorem Arena.last_page_breaks :
    poolBoundsOk (2 ^ 64 - 4096) 4096 = true ∧
      ∃ t, Run (Arena.Step false) ⟨Allocator.create (2 ^ 64 - 4096) 4096, []⟩
        [.alloc 0 4095 false] t ∧ ¬ t.allocator.RepInv := by
  refine ⟨by decide, ?_⟩
  obtain ⟨t, ht⟩ : ∃ t, Arena.call false ⟨Allocator.create (2 ^ 64 - 4096) 4096, []⟩
      (.alloc 0 4095 false) = some t := Option.isSome_iff_exists.1 (by decide)
  exact ⟨t, .cons ⟨trivial, ht⟩ (.nil t), Arena.not_repInv_of_guard_inside false (by decide)
    (by decide) (by decide) (by decide) ⟨trivial, ht⟩⟩

end Runs

end Codrive.Device
