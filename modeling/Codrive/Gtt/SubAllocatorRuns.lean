/-
# Runs of the GTT sub-allocator

The live objects are the ones `opu_gtt_sa_allocate` returned and `opu_gtt_sa_free` has not taken
back, with the sizes they were requested for.  In every state of a run their chunk ranges are
disjoint, lie in the buffer and are exactly what the bitmap says; whether an allocation succeeds is
a question of the bitmap alone.
-/

import Codrive.Basis.Run
import Codrive.Basis.Segments
import Codrive.Gtt.SubAllocator

namespace Codrive.Gtt

open Codrive.Basis

/-- The sub-allocator and the objects its callers hold, with the sizes they asked for. -/
structure State where
  opu : Opu
  live : List (MemObj × ℕ) := []

/-- A call of the sub-allocator. -/
inductive Op where
  | alloc (kzalloc : Bool) (size : ℕ)
  | free (mem_obj : Option MemObj)

/-- What a call does.  An object is freed by a caller that holds it. -/
def State.Step (s : State) (op : Op) (t : State) : Prop :=
  match op with
  | .alloc kzalloc size =>
    ∃ r, opuGttSaAllocate kzalloc (s.opu.gtt_sa_num_of_chunks + 1) s.opu size = some (r, t.opu) ∧
      t.live = match r with
        | .ok mem_obj => (mem_obj, size) :: s.live
        | .error _ => s.live
  | .free none => t = { s with opu := opuGttSaFree s.opu none }
  | .free (some mem_obj) =>
    ∃ size, (mem_obj, size) ∈ s.live ∧
      t = { opu := opuGttSaFree s.opu (some mem_obj), live := s.live.erase (mem_obj, size) }

/-- The chunks of an object, and the size it was requested for. -/
def chunks (o : MemObj × ℕ) : Seg ℕ := ⟨o.1.range_start, o.1.range_end, o.2⟩

/-- The bitmap says which chunks are taken, no chunk is taken twice, and every object is as large
as it should be. -/
structure Accounted (opu : Opu) (live : List (MemObj × ℕ)) : Prop where
  bits : ∀ i, i ∈ opu.gtt_sa_bitmap ↔ ∃ o ∈ live, (chunks o).Has i
  disjoint : Separated (live.map chunks)
  inBounds : ∀ o ∈ live, o.1.range_end < opu.gtt_sa_num_of_chunks
  covers : ∀ o ∈ live,
    o.2 ≤ (o.1.range_end + 1 - o.1.range_start) * opu.gtt_sa_chunk_size

/-- What every state of a run has: the sizes `opu_gtt_sa_init` accepted, and the accounts. -/
structure State.Inv (s : State) : Prop where
  chunk_pos : 0 < s.opu.gtt_sa_chunk_size
  size_lt : s.opu.gtt_sa_num_of_chunks * s.opu.gtt_sa_chunk_size < 2 ^ 32
  accounted : Accounted s.opu s.live

theorem init_inv {kzalloc : Bool} {opu opu' : Opu} {buf_size chunk_size : ℕ}
    (hbuf : buf_size < 2 ^ 32) (h : opuGttSaInit kzalloc opu buf_size chunk_size = .ok opu') :
    ({ opu := opu' } : State).Inv := by
  unfold opuGttSaInit at h
  split_ifs at h with h₁ h₂ h₃ h₄
  obtain rfl := Except.ok.inj h
  refine ⟨Nat.pos_of_ne_zero h₃, ?_, ⟨fun i => by simp, ⟨by simp, .nil⟩, by simp, by simp⟩⟩
  exact Nat.lt_of_le_of_lt (Nat.div_mul_le_self buf_size chunk_size) hbuf

/-- **An allocation** comes to an end; it fails for a size of 0, for want of memory for the object
and for want of a run of clear chunks, and only then. -/
theorem allocate_spec {opu : Opu} (hc : 0 < opu.gtt_sa_chunk_size)
    (hlt : opu.gtt_sa_num_of_chunks * opu.gtt_sa_chunk_size < 2 ^ 32) (kzalloc : Bool) (size : ℕ) :
    ∃ r opu', opuGttSaAllocate kzalloc (opu.gtt_sa_num_of_chunks + 1) opu size =
        some (r, opu') ∧
      match r with
      | .error _ => opu' = opu ∧ (size = 0 ∨ kzalloc = false ∨
          ∀ first, ¬ClearRun opu.gtt_sa_bitmap opu.gtt_sa_num_of_chunks first
            (chunksFor opu size))
      | .ok o => opu' = { opu with
            gtt_sa_bitmap := setBits opu.gtt_sa_bitmap o.range_start o.range_end } ∧
          size ≠ 0 ∧ kzalloc = true ∧ o.range_end + 1 = o.range_start + chunksFor opu size ∧
          ClearRun opu.gtt_sa_bitmap opu.gtt_sa_num_of_chunks o.range_start
            (chunksFor opu size) := by
  unfold opuGttSaAllocate
  by_cases h₀ : size = 0
  · rw [if_pos h₀]
    exact ⟨_, _, rfl, rfl, .inl h₀⟩
  rw [if_neg h₀, wrap_of_lt hlt]
  by_cases h₁ : size > opu.gtt_sa_num_of_chunks * opu.gtt_sa_chunk_size
  · -- more chunks than there are
    rw [if_pos h₁]
    refine ⟨_, _, rfl, rfl, .inr (.inr fun first hrun => ?_)⟩
    have hle : chunksFor opu size ≤ opu.gtt_sa_num_of_chunks := by
      have := hrun.1
      omega
    have := Nat.mul_le_mul_right opu.gtt_sa_chunk_size hle
    have := @le_chunksFor_mul opu size hc
    omega
  rw [if_neg h₁]
  cases kzalloc with
  | false => exact ⟨_, _, rfl, rfl, .inr (.inl rfl)⟩
  | true =>
    obtain ⟨r, hr, hspec⟩ := @searchFrom_spec opu size hc
      (Nat.pos_of_ne_zero h₀) (opu.gtt_sa_num_of_chunks + 1) 0 (Nat.zero_le _) (by omega) (by simp)
    simp only [Bool.not_true, Bool.false_eq_true, if_false, hr]
    cases r with
    | none => exact ⟨_, _, rfl, rfl, .inr (.inr hspec)⟩
    | some r => exact ⟨_, _, rfl, rfl, h₀, trivial, hspec⟩

/-- Allocating keeps the accounts. -/
theorem Accounted.alloc {opu : Opu} {live : List (MemObj × ℕ)} (h : Accounted opu live)
    (hc : 0 < opu.gtt_sa_chunk_size) {o : MemObj} {size : ℕ} (hs : 0 < size)
    (hlast : o.range_end + 1 = o.range_start + chunksFor opu size)
    (hrun : ClearRun opu.gtt_sa_bitmap opu.gtt_sa_num_of_chunks o.range_start
      (chunksFor opu size)) :
    Accounted { opu with gtt_sa_bitmap := setBits opu.gtt_sa_bitmap o.range_start o.range_end }
      ((o, size) :: live) := by
  have hpos := chunksFor_pos hc hs
  refine ⟨fun i => ?_, ⟨fun a ha => ?_, .cons (fun a ha => ?_) h.disjoint.apart⟩, fun a ha => ?_,
    fun a ha => ?_⟩
  · rw [mem_setBits, h.bits]
    simp only [List.mem_cons, exists_eq_or_imp]
    rw [or_comm]
    rfl
  · rcases List.mem_cons.1 ha with rfl | ha
    · show o.range_start ≤ o.range_end
      omega
    · exact h.disjoint.nonempty a ha
  · -- a chunk of both would be taken and clear
    obtain ⟨b, hb, rfl⟩ := List.mem_map.1 ha
    have hne : b.1.range_start ≤ b.1.range_end :=
      h.disjoint.nonempty (chunks b) (List.mem_map_of_mem hb)
    by_contra hno
    have hno : ¬(o.range_end < b.1.range_start ∨ b.1.range_end < o.range_start) := hno
    refine hrun.2 (max o.range_start b.1.range_start) (le_max_left ..) (by omega)
      ((h.bits _).2 ⟨b, hb, ?_⟩)
    show b.1.range_start ≤ _ ∧ _ ≤ b.1.range_end
    omega
  · rcases List.mem_cons.1 ha with rfl | ha
    · have := hrun.1
      dsimp only
      omega
    · exact h.inBounds a ha
  · rcases List.mem_cons.1 ha with rfl | ha
    · dsimp only
      rw [show o.range_end + 1 - o.range_start = chunksFor opu size by omega]
      exact le_chunksFor_mul hc
    · exact h.covers a ha

/-- Freeing keeps the accounts. -/
theorem Accounted.free {opu : Opu} {live : List (MemObj × ℕ)} (h : Accounted opu live)
    {o : MemObj} {size : ℕ} (ho : (o, size) ∈ live) :
    Accounted (opuGttSaFree opu (some o)) (live.erase (o, size)) := by
  have hperm := List.perm_cons_erase ho
  have hsub : ∀ a ∈ live.erase (o, size), a ∈ live := fun a ha => List.mem_of_mem_erase ha
  obtain ⟨-, hap⟩ := h.disjoint.perm (hperm.map chunks)
  obtain ⟨hap, hrest⟩ := List.pairwise_cons.1 hap
  refine ⟨fun i => ?_, ⟨fun a ha => ?_, hrest⟩, fun a ha => h.inBounds a (hsub a ha),
    fun a ha => h.covers a (hsub a ha)⟩
  · unfold opuGttSaFree
    rw [mem_clearBits, h.bits]
    constructor
    · rintro ⟨⟨a, ha, hi⟩, hno⟩
      rcases List.mem_cons.1 (hperm.mem_iff.1 ha) with rfl | ha
      · exact absurd hi hno
      · exact ⟨a, ha, hi⟩
    · rintro ⟨a, ha, hi⟩
      refine ⟨⟨a, hsub a ha, hi⟩, fun hi' => ?_⟩
      have hapart : o.range_end < a.1.range_start ∨ a.1.range_end < o.range_start :=
        hap _ (List.mem_map_of_mem ha)
      have h₁ : a.1.range_start ≤ i ∧ i ≤ a.1.range_end := hi
      omega
  · obtain ⟨b, hb, rfl⟩ := List.mem_map.1 ha
    exact h.disjoint.nonempty (chunks b) (List.mem_map_of_mem (hsub b hb))

/-- **A call keeps the invariant.** -/
theorem State.Inv.step {s t : State} {op : Op} (hs : s.Inv) (h : s.Step op t) : t.Inv := by
  cases op with
  | alloc kzalloc size =>
    obtain ⟨r, hr, hlive⟩ := h
    obtain ⟨r', opu', hr', hspec⟩ := allocate_spec hs.chunk_pos hs.size_lt kzalloc size
    obtain ⟨rfl, rfl⟩ := Prod.mk.inj (Option.some.inj (hr.symm.trans hr'))
    obtain ⟨opu, live⟩ := t
    dsimp only at hlive hspec
    cases r with
    | error e =>
      obtain ⟨rfl, -⟩ := hspec
      subst hlive
      exact hs
    | ok o =>
      obtain ⟨rfl, h₀, -, hlast, hrun⟩ := hspec
      subst hlive
      exact ⟨hs.chunk_pos, hs.size_lt,
        hs.accounted.alloc hs.chunk_pos (Nat.pos_of_ne_zero h₀) hlast hrun⟩
  | free mem_obj =>
    cases mem_obj with
    | none =>
      obtain rfl : t = _ := h
      exact hs
    | some o =>
      obtain ⟨size, ho, rfl⟩ := h
      exact ⟨hs.chunk_pos, hs.size_lt, hs.accounted.free ho⟩

/-- **The sub-allocator over whole runs.**  From `opu_gtt_sa_init` on, the bitmap has exactly the
bits of the live objects, which are disjoint, in bounds and large enough; and the next allocation,
whatever its size, comes to an end, and fails, without a change of the bitmap, just if the size is
0, there is no memory for the object, or there is no run of clear chunks that is long enough.  The
search comes to an end for every bitmap. -/
theorem bitmap_accounted_of_run {kzalloc : Bool} {opu opu' : Opu} {buf_size chunk_size : ℕ}
    {ops : List Op} {s : State} (hbuf : buf_size < 2 ^ 32)
    (hinit : opuGttSaInit kzalloc opu buf_size chunk_size = .ok opu')
    (hrun : Run State.Step { opu := opu' } ops s) :
    Accounted s.opu s.live ∧ ∀ kzalloc size, ∃ r opu'',
      opuGttSaAllocate kzalloc (s.opu.gtt_sa_num_of_chunks + 1) s.opu size = some (r, opu'') ∧
      ((∃ e, r = .error e) ↔ size = 0 ∨ kzalloc = false ∨
        ¬∃ first, ClearRun s.opu.gtt_sa_bitmap s.opu.gtt_sa_num_of_chunks first
          ((size + s.opu.gtt_sa_chunk_size - 1) / s.opu.gtt_sa_chunk_size)) ∧
      ((∃ e, r = .error e) → opu''.gtt_sa_bitmap = s.opu.gtt_sa_bitmap) ∧
      ∀ bitmap, (opuGttSaAllocate kzalloc (s.opu.gtt_sa_num_of_chunks + 1)
        { s.opu with gtt_sa_bitmap := bitmap } size).isSome := by
  have hs : s.Inv := hrun.inv (fun _ _ _ h h' => h.step h') (init_inv hbuf hinit)
  refine ⟨hs.accounted, fun kzalloc size => ?_⟩
  obtain ⟨r, opu'', hr, hspec⟩ := allocate_spec hs.chunk_pos hs.size_lt kzalloc size
  have hends : ∀ bitmap, (opuGttSaAllocate kzalloc (s.opu.gtt_sa_num_of_chunks + 1)
      { s.opu with gtt_sa_bitmap := bitmap } size).isSome := fun bitmap => by
    obtain ⟨r, opu₁, hr, -⟩ := @allocate_spec { s.opu with gtt_sa_bitmap := bitmap }
      hs.chunk_pos hs.size_lt kzalloc size
    exact Option.isSome_iff_exists.2 ⟨_, hr⟩
  refine ⟨r, opu'', hr, ?_⟩
  cases r with
  | error e =>
    obtain ⟨rfl, hwhy⟩ := hspec
    exact ⟨⟨fun _ => hwhy.imp_right (Or.imp_right not_exists.2), fun _ => ⟨e, rfl⟩⟩, fun _ => rfl,
      hends⟩
  | ok o =>
    obtain ⟨-, h₀, hk, -, hclear⟩ := hspec
    have hok : ¬∃ e : Errno, (Except.ok o : Except Errno MemObj) = .error e := by simp
    refine ⟨⟨fun he => absurd he hok, ?_⟩, fun he => absurd he hok, hends⟩
    rintro (h | h | h)
    · exact absurd h h₀
    · rw [hk] at h
      cases h
    · exact absurd ⟨_, hclear⟩ h

/-- A buffer of three chunks: two of them are allocated, a third one, and the first two are
freed. -/
theorem bitmap_accounted_of_run_three : ∃ s : State, s.live = [(⟨2, 2, 8, 8⟩, 3)] ∧
    Accounted s.opu s.live ∧ s.opu.gtt_sa_bitmap = {2} := by
  have hrun : Run State.Step { opu := ⟨4, 3, ∅, 0, 0⟩ }
      [.alloc true 5, .alloc true 3, .free none, .free (some ⟨0, 1, 0, 0⟩)]
      ⟨⟨4, 3, _, 0, 0⟩, [(⟨2, 2, 8, 8⟩, 3)]⟩ :=
    .cons (t := ⟨_, _⟩) ⟨_, rfl, rfl⟩ (.cons (t := ⟨_, _⟩) ⟨_, rfl, rfl⟩ (.cons rfl
      (.cons ⟨5, by decide, rfl⟩ (.nil _))))
  exact ⟨_, rfl, (@bitmap_accounted_of_run true ⟨0, 0, ∅, 0, 0⟩ _ 12 4 _ _ (by decide) rfl hrun).1,
    by decide⟩

/-- **An allocation that fails although there is a run**: no chunk at all is a run long enough for a
size of 0, which `opu_gtt_sa_allocate` refuses. -/
theorem zero_size_fails :
    ∃ opu', opuGttSaInit true ⟨0, 0, ∅, 0, 0⟩ 8192 4096 = .ok opu' ∧
      (∃ first, ClearRun opu'.gtt_sa_bitmap opu'.gtt_sa_num_of_chunks first
        ((0 + opu'.gtt_sa_chunk_size - 1) / opu'.gtt_sa_chunk_size)) ∧
      opuGttSaAllocate true 3 opu' 0 = some (.error .einval, opu') := by
  refine ⟨_, rfl, ⟨0, by decide, fun i h₁ h₂ => ?_⟩, rfl⟩
  have : (0 + 4096 - 1) / 4096 = 0 := by decide
  dsimp only at h₂
  omega

end Codrive.Gtt
