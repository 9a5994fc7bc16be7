/-
# The allocator's invariant over runs

`src/src/device/MemObj.cpp`.  Every call of `alloc`, `alloc_high` and `free` keeps the nodes
tiling the arena, the free list threading exactly the free nodes, no two free nodes
adjacent and `total_free` their sum, on an arena that ends below the end guard.  The
constructor's assertions also let an arena through whose end wraps past `2^64`: there the
end guard's key is an address of the arena, and one `alloc` breaks the invariant.
-/

import Codrive.Basis.Run
import Codrive.Device.AllocatorSpec

namespace Codrive.Device

open Codrive.Basis

section Take

variable (ndebug : Bool) {m : Memory} {pool length c r bytes len : ℕ} {nc : Node}
  {X Y : List (ℕ × Node)}

/-- **`remove` takes a free node out of the free list** and leaves the rest as it is. -/
theorem remove_inv (hl : Shape pool length m.entries) (he : m.entries = X ++ (c, nc) :: Y)
    (hX : X.IsChain Apart) (hY : Y.IsChain Apart) (h₀ : c ≠ 0) (hg : c ≠ guardKey)
    (hf : isFreeEntry (c, nc) = true) (hpos : 0 < nc.len) :
    ∃ m', remove ndebug m c = some m' ∧ Shape pool length m'.entries ∧
      m'.entries.IsChain Apart ∧ freeBytes m'.entries + nc.len = freeBytes m.entries ∧
        (usedNodes m'.entries).Perm ((c, nc.len) :: usedNodes m.entries) := by
  obtain ⟨P, ⟨b, nb⟩, U, V, ⟨d, nd⟩, S, rfl, rfl, hb, hd, hd₀, hU, hV⟩ :=
    hl.exists_free_around he h₀ hg
  have hs : m.entries = P ++ (b, nb) :: (U ++ (c, nc) :: (V ++ (d, nd) :: S)) := by simp [he]
  have hbc : Link (b, nb) (c, nc) := hl.link hs hb hf hU
  have hcd : Link (c, nc) (d, nd) := hl.link he hf hd hV
  have hfirst := hl.first?
  obtain ⟨m', hm', hs'⟩ := remove_spec ndebug hs (by rwa [isfree_eq hfirst c]) hbc.2 hcd.1
  rw [hfirst] at hs'
  have he' : m'.entries = P ++ (b, { nb with next := some d }) ::
      ((U ++ (c, { nc with next := some 0 }) :: V) ++ (d, { nd with prior := some b }) :: S) := by
    simp [hs']
  have hb' : isFreeEntry (b, { nb with next := some d }) = true := by simp [isFreeEntry, hd₀]
  have hc' : isFreeEntry (c, { nc with next := some 0 }) = false := by simp [isFreeEntry]
  have hd' : isFreeEntry (d, { nd with prior := some b }) = true := by
    simpa [isFreeEntry] using hd
  refine ⟨m', hm', ?_, ?_, ?_, ?_⟩
  · rw [he']
    refine Shape.replace (M := U ++ (c, nc) :: V) (by simpa [hs] using hl) hb hd rfl rfl rfl hb'
      rfl rfl rfl (he' ▸ m'.sorted) (fun lo hi h => by simpa [spanOf, startOf] using h) ?_ ?_
    · rw [List.filter_append, filter_of_used hU, List.filter_cons_of_neg (by simp [hc']),
        filter_of_used hV, List.nil_append, List.nil_append, List.isChain_pair]
      exact ⟨rfl, rfl⟩
    · simp only [List.forall_mem_append, List.forall_mem_cons]
      have hpos' := hl.used_pos
      simp only [hs, List.forall_mem_append, List.forall_mem_cons] at hpos'
      exact ⟨hpos'.2.2.1, fun _ => hpos, hpos'.2.2.2.2.1⟩
  · rw [hs', ← List.cons_append, ← List.append_assoc]
    exact isChain_apart_used (isChain_apart_replace hX rfl fun _ => hb)
      (isChain_apart_replace hY rfl fun _ => hd) hc'
  · rw [hs', hs]
    simp only [freeBytes_append, freeBytes_cons_free hb, freeBytes_cons_free hb',
      freeBytes_cons_free hf, freeBytes_cons_used hc', freeBytes_cons_free hd,
      freeBytes_cons_free hd']
    omega
  · rw [hs', hs]
    simp only [usedNodes_append, usedNodes_cons_free hb, usedNodes_cons_free hb',
      usedNodes_cons_free hf, usedNodes_cons_used hc', usedNodes_cons_free hd,
      usedNodes_cons_free hd']
    simpa only [List.append_assoc] using @List.perm_middle _ (c, nc.len)
      (usedNodes P ++ usedNodes U) (usedNodes V ++ usedNodes S)

/-- **`splitNode` cuts a free node in two free nodes**, linked one after the other. -/
theorem splitNode_inv (hl : Shape pool length m.entries) (he : m.entries = X ++ (c, nc) :: Y)
    (hY : ((c, nc) :: Y).IsChain Apart) (hfit : pool + length < guardKey) (h₀ : c ≠ 0)
    (hg : c ≠ guardKey) (hf : isFreeEntry (c, nc) = true) (hpos : 0 < len) (hlen : len < nc.len)
    (hr : r = c + len) :
    ∃ m' Y', splitNode ndebug m c nc r len = some m' ∧
      m'.entries = X ++ (c, { nc with len := len, next := some r }) :: Y' ∧
        Shape pool length m'.entries ∧ Y'.IsChain Apart ∧
          freeBytes m'.entries = freeBytes m.entries ∧
            usedNodes m'.entries = usedNodes m.entries := by
  have hbd := hl.bounds (he ▸ List.mem_append_right _ (List.mem_cons_self ..)) h₀ hg
  simp only at hbd
  obtain ⟨P, b, U, V, ⟨d, nd⟩, S, rfl, rfl, hb, hd, hd₀, hU, hV⟩ := hl.exists_free_around he h₀ hg
  have hs : m.entries = P ++ b :: (U ++ (c, nc) :: (V ++ (d, nd) :: S)) := by simp [he]
  have hbc : Link b (c, nc) := hl.link hs hb hf hU
  have hcd : Link (c, nc) (d, nd) := hl.link he hf hd hV
  have hfirst := hl.first?
  have hafter := hl.lt_key_of_after (r := r) he hfit h₀ hg (by simp only; omega)
  obtain ⟨m', hm', he'⟩ := splitNode_spec ndebug len he (by rwa [isfree_eq hfirst c])
    hcd.1 hafter (by omega) hlen.le (by unfold guardKey at hfit; omega)
  have hdr : r < d := hafter (d, nd) (by simp)
  have hc' : isFreeEntry (c, { nc with len := len, next := some r }) = true := by
    simp only [isFreeEntry, ne_eq, Option.some.injEq, decide_not, Bool.not_eq_eq_eq_not,
      Bool.not_true, decide_eq_false_iff_not]
    omega
  have hrf : isFreeEntry (r, { len := nc.len - len, next := some d, prior := some c }) = true := by
    simp only [isFreeEntry, ne_eq, Option.some.injEq, decide_not, Bool.not_eq_eq_eq_not,
      Bool.not_true, decide_eq_false_iff_not]
    omega
  have hd' : isFreeEntry (d, { nd with prior := some r }) = true := by
    simpa [isFreeEntry] using hd
  refine ⟨m', _, hm', he', ?_, ?_, ?_, ?_⟩
  · have hs' : m'.entries = P ++ b :: ((U ++ (c, { nc with len := len, next := some r }) ::
        (r, { len := nc.len - len, next := some d, prior := some c }) :: V) ++
          (d, { nd with prior := some r }) :: S) := by simp [he']
    rw [hs']
    refine Shape.replace (M := U ++ (c, nc) :: V) (by simpa [hs] using hl) hb hd rfl rfl rfl hb
      rfl rfl rfl (hs' ▸ m'.sorted) (fun lo hi h => ?_) ?_ ?_
    · have hrg : r ≠ guardKey := by omega
      have hr₀ : r ≠ 0 := by omega
      have hlen' : nc.len = len + (nc.len - len) := by omega
      rw [List.map_append, List.map_cons, spanOf, startOf_node h₀ hg, hlen'] at h
      rw [List.map_append, List.map_cons, List.map_cons, spanOf, spanOf, startOf_node h₀ hg,
        startOf_node hr₀ hrg, hr]
      exact tiles_split.2 h
    · rw [List.filter_append, filter_of_used hU, List.filter_cons_of_pos hc',
        List.filter_cons_of_pos hrf, filter_of_used hV]
      exact .cons_cons hbc (.cons_cons ⟨rfl, rfl⟩ (List.isChain_pair.2 ⟨rfl, rfl⟩))
    · have hpos' := hl.used_pos
      simp only [hs, List.forall_mem_append, List.forall_mem_cons] at hpos'
      simp only [List.forall_mem_append, List.forall_mem_cons, hc', hrf]
      exact ⟨hpos'.2.2.1, by simp, by simp, hpos'.2.2.2.2.1⟩
  · have h := isChain_apart_head
      (c := (r, { len := nc.len - len, next := some d, prior := some c }))
      hY (fun h => absurd h h₀) fun _ => hf
    exact isChain_apart_replace (P := _ :: V) h rfl fun _ => hd
  · rw [he', he]
    simp only [freeBytes_append, freeBytes_cons_free hc', freeBytes_cons_free hrf,
      freeBytes_cons_free hf, freeBytes_cons_free hd, freeBytes_cons_free hd']
    omega
  · rw [he', he]
    simp only [usedNodes_append, usedNodes_cons_free hc', usedNodes_cons_free hrf,
      usedNodes_cons_free hf, usedNodes_cons_free hd, usedNodes_cons_free hd']

/-- **`takeLow` makes the low bytes of a free node used**, and nothing else. -/
theorem takeLow_inv (hl : Shape pool length m.entries) (ha : m.entries.IsChain Apart)
    (hfit : pool + length < guardKey) (hc : (c, nc) ∈ m.entries)
    (hf : isFreeEntry (c, nc) = true) (hpos : 0 < bytes) (hle : bytes ≤ nc.len) :
    ∃ m', takeLow ndebug m c bytes = some m' ∧ Shape pool length m'.entries ∧
      m'.entries.IsChain Apart ∧ freeBytes m'.entries + bytes = freeBytes m.entries ∧
        (usedNodes m'.entries).Perm ((c, bytes) :: usedNodes m.entries) := by
  have h₀ : c ≠ 0 := hl.ne_zero_of_pos hc (hpos.trans_le hle)
  have hg : c ≠ guardKey := hl.ne_guard_of_pos hc (hpos.trans_le hle)
  have hbd := hl.bounds hc h₀ hg
  simp only at hbd
  have hfind : m.find? c = some nc := OrderedMap.find?_eq_some_iff.2 hc
  obtain ⟨X, Y, he⟩ := List.append_of_mem hc
  rw [he] at ha
  obtain hlen | hlen := hle.eq_or_lt
  · subst hlen
    obtain ⟨m', hm', h⟩ := remove_inv ndebug hl he (List.isChain_append.1 ha).1
      (List.isChain_cons.1 (List.isChain_append.1 ha).2.1).2 h₀ hg hf hpos
    exact ⟨m', by simp [takeLow, hfind, hm'], h⟩
  · obtain ⟨m₁, Y', hm₁, he₁, hl₁, hY₁, hfree, hused⟩ := splitNode_inv ndebug hl he
      (List.isChain_append.1 ha).2.1 hfit h₀ hg hf hpos hlen rfl
    obtain ⟨m', hm', hl', ha', hfree', hused'⟩ := remove_inv ndebug hl₁ he₁
      (List.isChain_append.1 ha).1 hY₁ h₀ hg (by simp [isFreeEntry]; omega) hpos
    refine ⟨m', ?_, hl', ha', hfree ▸ hfree', hused ▸ hused'⟩
    have hr : u64 (c + bytes) = c + bytes := u64_of_lt (by unfold guardKey at hfit; omega)
    simp [takeLow, hfind, hlen.ne, hr, hm₁, hm']

/-- **`takeHigh` makes the high bytes of a free node used**, and nothing else. -/
theorem takeHigh_inv (hl : Shape pool length m.entries) (ha : m.entries.IsChain Apart)
    (hfit : pool + length < guardKey) (hc : (c, nc) ∈ m.entries)
    (hf : isFreeEntry (c, nc) = true) (hpos : 0 < bytes) (hle : bytes ≤ nc.len) :
    ∃ m', takeHigh ndebug m c bytes = some (c + nc.len - bytes, m') ∧
      Shape pool length m'.entries ∧ m'.entries.IsChain Apart ∧
        freeBytes m'.entries + bytes = freeBytes m.entries ∧
          (usedNodes m'.entries).Perm ((c + nc.len - bytes, bytes) :: usedNodes m.entries) := by
  have h₀ : c ≠ 0 := hl.ne_zero_of_pos hc (hpos.trans_le hle)
  have hg : c ≠ guardKey := hl.ne_guard_of_pos hc (hpos.trans_le hle)
  have hbd := hl.bounds hc h₀ hg
  simp only at hbd
  have hfind : m.find? c = some nc := OrderedMap.find?_eq_some_iff.2 hc
  obtain ⟨X, Y, he⟩ := List.append_of_mem hc
  rw [he] at ha
  obtain hlen | hlen := hle.eq_or_lt
  · subst hlen
    obtain ⟨m', hm', h⟩ := remove_inv ndebug hl he (List.isChain_append.1 ha).1
      (List.isChain_cons.1 (List.isChain_append.1 ha).2.1).2 h₀ hg hf hpos
    rw [Nat.add_sub_cancel]
    exact ⟨m', by simp [takeHigh, hfind, hm'], h⟩
  · obtain ⟨P, b, U, V, d, S, rfl, rfl, hb, hd, hd₀, hU, hV⟩ := hl.exists_free_around he h₀ hg
    have hs : m.entries = P ++ b :: (U ++ (c, nc) :: (V ++ d :: S)) := by simp [he]
    obtain ⟨m', hm', he'⟩ := takeHigh_spec ndebug hl.first? he hpos hlen
      (by unfold guardKey at hfit; omega)
      (hl.lt_key_of_after he hfit h₀ hg (Nat.sub_lt (by omega) hpos))
    have hc' : isFreeEntry (c, { nc with len := nc.len - bytes }) = true := by
      simpa [isFreeEntry] using hf
    have hr' : isFreeEntry (c + nc.len - bytes, { len := bytes, next := some 0 }) = false := by
      simp [isFreeEntry]
    have hs' : m'.entries = P ++ b :: ((U ++ (c, { nc with len := nc.len - bytes }) ::
        (c + nc.len - bytes, { len := bytes, next := some 0 }) :: V) ++ d :: S) := by
      simp [he']
    refine ⟨m', hm', ?_, ?_, ?_, ?_⟩
    · rw [hs']
      refine Shape.replace (M := U ++ (c, nc) :: V) (by simpa [hs] using hl) hb hd rfl rfl rfl hb
        rfl rfl rfl (hs' ▸ m'.sorted) (fun lo hi h => ?_) ?_ ?_
      · have hrg : c + nc.len - bytes ≠ guardKey := by omega
        have hr₀ : c + nc.len - bytes ≠ 0 := by omega
        have hlen' : nc.len = (nc.len - bytes) + bytes := by omega
        have hr₁ : c + nc.len - bytes = c + (nc.len - bytes) := by omega
        rw [List.map_append, List.map_cons, spanOf, startOf_node h₀ hg, hlen'] at h
        rw [List.map_append, List.map_cons, List.map_cons, spanOf, spanOf, startOf_node h₀ hg,
          startOf_node hr₀ hrg, hr₁]
        exact tiles_split.2 h
      · have hbc : Link b (c, nc) := hl.link hs hb hf hU
        have hcd : Link (c, nc) d := hl.link he hf hd hV
        rw [List.filter_append, filter_of_used hU, List.filter_cons_of_pos hc',
          List.filter_cons_of_neg (by simp [hr']), filter_of_used hV]
        exact .cons_cons hbc (List.isChain_pair.2 hcd)
      · have hpos' := hl.used_pos
        simp only [hs, List.forall_mem_append, List.forall_mem_cons] at hpos'
        simp only [List.forall_mem_append, List.forall_mem_cons, hc']
        exact ⟨hpos'.2.2.1, by simp, fun _ => hpos, hpos'.2.2.2.2.1⟩
    · have h : m'.entries = ((P ++ b :: U) ++ [(c, { nc with len := nc.len - bytes })]) ++
          (c + nc.len - bytes, { len := bytes, next := some 0 }) :: (V ++ d :: S) := by
        simp [he']
      rw [List.isChain_split] at ha
      rw [h]
      exact isChain_apart_used (isChain_apart_last ha.1 id fun _ => hf)
        (List.isChain_cons.1 ha.2).2 hr'
    · rw [he', he]
      simp only [freeBytes_append, freeBytes_cons_free hb, freeBytes_cons_free hc',
        freeBytes_cons_free hf, freeBytes_cons_used hr', freeBytes_cons_free hd]
      omega
    · rw [he', he]
      simp only [usedNodes_append, usedNodes_cons_free hb, usedNodes_cons_free hc',
        usedNodes_cons_free hf, usedNodes_cons_used hr', usedNodes_cons_free hd]
      simpa only [List.append_assoc, List.cons_append] using
        @List.perm_middle _ (c + nc.len - bytes, bytes)
        (usedNodes P ++ usedNodes U) (usedNodes V ++ usedNodes S)

end Take

section Give

variable (ndebug : Bool) {m : Memory} {pool length b c d : ℕ} {nb nc nd : Node}
  {P S U V X Y : List (ℕ × Node)}

/-- **`insertafter` puts a used node back into the free list.** -/
theorem insertafter_inv (hl : Shape pool length m.entries)
    (he : m.entries = P ++ (b, nb) :: (U ++ (c, nc) :: (V ++ (d, nd) :: S)))
    (hb : isFreeEntry (b, nb) = true) (hc : isFreeEntry (c, nc) = false)
    (hd : isFreeEntry (d, nd) = true) (hU : ∀ e ∈ U, isFreeEntry e = false)
    (hV : ∀ e ∈ V, isFreeEntry e = false) :
    ∃ m', insertafter ndebug m b c = some m' ∧
      m'.entries = P ++ (b, { nb with next := some c }) ::
        (U ++ (c, { nc with next := some d, prior := some b }) ::
          (V ++ (d, { nd with prior := some c }) :: S)) ∧
      Shape pool length m'.entries ∧ freeBytes m'.entries = freeBytes m.entries + nc.len ∧
        (usedNodes m.entries).Perm ((c, nc.len) :: usedNodes m'.entries) := by
  have hUV : ∀ e ∈ U ++ (c, nc) :: V, isFreeEntry e = false := by
    simp only [List.forall_mem_append, List.forall_mem_cons]
    exact ⟨hU, hc, hV⟩
  have he₀ : m.entries = P ++ (b, nb) :: ((U ++ (c, nc) :: V) ++ (d, nd) :: S) := by simp [he]
  have hn : nb.next = some d := (hl.link he₀ hb hd hUV).1
  obtain ⟨m', hm', he'⟩ := insertafter_spec ndebug he
    (by rwa [isfree_eq hl.first? b]) hn
  have hbc : b < c := (OrderedMap.lt_of_entries he).2 (c, nc) (by simp)
  have hcd : c < d := (OrderedMap.lt_of_entries
    (show m.entries = (P ++ (b, nb) :: U) ++ (c, nc) :: (V ++ (d, nd) :: S) by simp [he])).2
      (d, nd) (by simp)
  have hb' : isFreeEntry (b, { nb with next := some c }) = true := by
    simp only [isFreeEntry, ne_eq, Option.some.injEq, decide_not, Bool.not_eq_eq_eq_not,
      Bool.not_true, decide_eq_false_iff_not]
    omega
  have hc' : isFreeEntry (c, { nc with next := some d, prior := some b }) = true := by
    simp only [isFreeEntry, ne_eq, Option.some.injEq, decide_not, Bool.not_eq_eq_eq_not,
      Bool.not_true, decide_eq_false_iff_not]
    omega
  have hd' : isFreeEntry (d, { nd with prior := some c }) = true := by
    simpa [isFreeEntry] using hd
  have hs' : m'.entries = P ++ (b, { nb with next := some c }) ::
      ((U ++ (c, { nc with next := some d, prior := some b }) :: V) ++
        (d, { nd with prior := some c }) :: S) := by simp [he']
  refine ⟨m', hm', he', ?_, ?_, ?_⟩
  · rw [hs']
    refine Shape.replace (M := U ++ (c, nc) :: V) (by simpa [he] using hl) hb hd rfl rfl rfl hb'
      rfl rfl rfl (hs' ▸ m'.sorted) (fun lo hi h => by simpa [spanOf, startOf] using h) ?_ ?_
    · rw [List.filter_append, filter_of_used hU, List.filter_cons_of_pos hc', filter_of_used hV]
      exact .cons_cons ⟨rfl, rfl⟩ (List.isChain_pair.2 ⟨rfl, rfl⟩)
    · have hpos' := hl.used_pos
      simp only [he, List.forall_mem_append, List.forall_mem_cons] at hpos'
      simp only [List.forall_mem_append, List.forall_mem_cons, hc']
      exact ⟨hpos'.2.2.1, by simp, hpos'.2.2.2.2.1⟩
  · rw [he', he]
    simp only [freeBytes_append, freeBytes_cons_free hb, freeBytes_cons_free hb',
      freeBytes_cons_free hc', freeBytes_cons_used hc, freeBytes_cons_free hd,
      freeBytes_cons_free hd']
    omega
  · rw [he', he]
    simp only [usedNodes_append, usedNodes_cons_free hb, usedNodes_cons_free hb',
      usedNodes_cons_free hc', usedNodes_cons_used hc, usedNodes_cons_free hd,
      usedNodes_cons_free hd']
    simpa only [List.append_assoc] using @List.perm_middle _ (c, nc.len)
      (usedNodes P ++ usedNodes U) (usedNodes V ++ usedNodes S)

/-- Neighbours in the free list do not touch when a used node or a guard is between them. -/
theorem Shape.ne_of_gap (hl : Shape pool length m.entries) (hfit : pool + length < guardKey)
    (he : m.entries = X ++ (b, nb) :: (U ++ (c, nc) :: Y)) (hU : ∀ e ∈ U, isFreeEntry e = false)
    (ht : U ≠ [] ∨ b = 0 ∨ c = guardKey) : u64 (b + nb.len) ≠ c := by
  have hb : (b, nb) ∈ m.entries := he ▸ by simp
  have hc : (c, nc) ∈ m.entries := he ▸ by simp
  have hbc : b < c := (OrderedMap.lt_of_entries he).2 (c, nc) (by simp)
  by_cases h₀ : b = 0
  · have hz : nb.len = 0 := (hl.zero _ hb h₀).1
    rw [h₀, hz, u64_of_lt (by decide)]
    omega
  have hg : b ≠ guardKey := by
    have := hl.le_guard _ hc
    simp only at this
    omega
  have hbd := hl.bounds hb h₀ hg
  simp only at hbd
  rw [u64_of_lt (by unfold guardKey at hfit; omega)]
  by_cases hcg : c = guardKey
  · omega
  · -- a used node of positive length is in between
    obtain ⟨u, W, rfl⟩ := List.exists_cons_of_ne_nil (ht.resolve_right (by tauto))
    have hu : isFreeEntry u = false := hU u (List.mem_cons_self ..)
    have hum : u ∈ m.entries := he ▸ by simp
    have hup := hl.used_pos u hum hu
    have hu₀ := hl.ne_zero_of_pos hum hup
    have hug := hl.ne_guard_of_pos hum hup
    have h₁ := hl.adjacent (by simpa using he) h₀ hg
    have h₂ := hl.le_of_after (X := X ++ [(b, nb)]) (c := u) (Y := W ++ (c, nc) :: Y)
      (by simpa using he) hu₀ hug (d := (c, nc)) (by simp)
    rw [startOf_node hu₀ hug] at h₁
    rw [startOf_node (by simp only; omega) hcg] at h₂
    simp only at h₁ h₂
    omega

/-- **`merge` of two neighbours in the free list**: they are joined when nothing is between
them and neither is a guard, and left alone otherwise. -/
theorem merge_inv (hl : Shape pool length m.entries) (hfit : pool + length < guardKey)
    (he : m.entries = X ++ (b, nb) :: (U ++ (c, nc) :: Y)) (hb : isFreeEntry (b, nb) = true)
    (hc : isFreeEntry (c, nc) = true) (hU : ∀ e ∈ U, isFreeEntry e = false) :
    (U ≠ [] ∨ b = 0 ∨ c = guardKey) ∧ merge ndebug m b c = some (c, m) ∨
      U = [] ∧ b ≠ 0 ∧ c ≠ guardKey ∧ ∃ m' V d nd S, Y = V ++ (d, nd) :: S ∧
        isFreeEntry (d, nd) = true ∧ (∀ e ∈ V, isFreeEntry e = false) ∧
        merge ndebug m b c = some (b, m') ∧
        m'.entries = X ++ (b, { nb with len := nb.len + nc.len, next := some d }) ::
          (V ++ (d, { nd with prior := some b }) :: S) ∧
        Shape pool length m'.entries ∧ freeBytes m'.entries = freeBytes m.entries ∧
        usedNodes m'.entries = usedNodes m.entries := by
  have hfirst := hl.first?
  have hfb := OrderedMap.find?_of_entries he
  have hfc : m.find? c = some nc := OrderedMap.find?_of_entries
    (show m.entries = (X ++ (b, nb) :: U) ++ (c, nc) :: Y by simp [he])
  have hb' : isfree m nb = true := by rwa [isfree_eq hfirst b]
  have hc' : isfree m nc = true := by rwa [isfree_eq hfirst c]
  by_cases ht : U ≠ [] ∨ b = 0 ∨ c = guardKey
  · exact .inl ⟨ht, merge_of_ne ndebug hfb hfc hb' hc' (hl.ne_of_gap hfit he hU ht)⟩
  · push Not at ht
    obtain ⟨rfl, h₀, hg⟩ := ht
    rw [List.nil_append] at he
    have he₁ : m.entries = (X ++ [(b, nb)]) ++ (c, nc) :: Y := by simp [he]
    have hbc := hl.lt_of_before he₁ (b := (b, nb)) (by simp)
    have hc₀ : c ≠ 0 := Nat.ne_of_gt (Nat.zero_lt_of_lt hbc)
    have hbg : b ≠ guardKey := by
      have := hl.le_guard (c, nc) (he ▸ by simp)
      simp only at this hbc
      omega
    obtain ⟨P, a, W, rfl, ha, hW⟩ := hl.exists_free_before he h₀
    obtain ⟨V, ⟨d, nd⟩, S, rfl, hd, hV⟩ := hl.exists_free_after he₁ hg
    have hab : Link a (b, nb) := hl.link (by simpa using he) ha hb hW
    have hcd : Link (c, nc) (d, nd) := hl.link he₁ hc hd hV
    have hd₀ : d ≠ 0 := by
      have := hl.lt_of_after he₁ (d := (d, nd)) (by simp)
      simp only at this
      omega
    -- the low node ends where the high one starts, so both lengths fit in the arena
    have hadj := hl.adjacent he h₀ hbg
    rw [startOf_node hc₀ hg] at hadj
    have hbd := hl.bounds (c := (c, nc)) (he ▸ by simp) hc₀ hg
    simp only at hadj hbd
    unfold guardKey at hfit
    obtain ⟨m', hm', he'⟩ := merge_spec ndebug he hb' hc' hcd.1 hadj.symm (by omega) (by omega)
    have hbf : isFreeEntry (b, { nb with len := nb.len + nc.len, next := some d }) = true := by
      simp [isFreeEntry, hd₀]
    have hdf : isFreeEntry (d, { nd with prior := some b }) = true := by
      simpa [isFreeEntry] using hd
    have hs' : m'.entries = P ++ a :: ((W ++
        (b, { nb with len := nb.len + nc.len, next := some d }) :: V) ++
          (d, { nd with prior := some b }) :: S) := by simp [he']
    refine .inr ⟨rfl, h₀, hg, m', V, d, nd, S, rfl, hd, hV, hm', he', ?_, ?_, ?_⟩
    · rw [hs']
      refine Shape.replace (M := W ++ (b, nb) :: (c, nc) :: V) (by simpa [he] using hl) ha hd
        rfl rfl rfl ha rfl rfl rfl (hs' ▸ m'.sorted) (fun lo hi h => ?_) ?_ ?_
      · rw [List.map_append, List.map_cons, List.map_cons, spanOf, spanOf, startOf_node h₀ hbg,
          startOf_node hc₀ hg, hadj] at h
        rw [List.map_append, List.map_cons, spanOf, startOf_node h₀ hbg]
        exact tiles_split.1 h
      · rw [List.filter_append, filter_of_used hW, List.filter_cons_of_pos hbf, filter_of_used hV]
        exact .cons_cons hab (List.isChain_pair.2 ⟨rfl, rfl⟩)
      · have hpos' := hl.used_pos
        simp only [he, List.forall_mem_append, List.forall_mem_cons] at hpos'
        simp only [List.forall_mem_append, List.forall_mem_cons, hbf]
        exact ⟨hpos'.1.2.2, by simp, hpos'.2.2.2.1⟩
    · rw [he', he]
      simp only [freeBytes_append, freeBytes_cons_free hb, freeBytes_cons_free hbf,
        freeBytes_cons_free hc, freeBytes_cons_free hd, freeBytes_cons_free hdf]
      omega
    · rw [he', he]
      simp only [usedNodes_append, usedNodes_cons_free hb, usedNodes_cons_free hbf,
        usedNodes_cons_free hc, usedNodes_cons_free hd, usedNodes_cons_free hdf]

/-- **Merging upward**: a free node coalesced with what is below it becomes coalesced with
what is above it. -/
theorem merge_next_inv (hl : Shape pool length m.entries) (hfit : pool + length < guardKey)
    (he : m.entries = X ++ (c, nc) :: (V ++ (d, nd) :: S)) (hc : isFreeEntry (c, nc) = true)
    (hd : isFreeEntry (d, nd) = true) (hV : ∀ e ∈ V, isFreeEntry e = false)
    (hX : (X ++ [(c, nc)]).IsChain Apart) (hS : (V ++ (d, nd) :: S).IsChain Apart) :
    ∃ p m', merge ndebug m c d = some (p, m') ∧ Shape pool length m'.entries ∧
      m'.entries.IsChain Apart ∧ freeBytes m'.entries = freeBytes m.entries ∧
        usedNodes m'.entries = usedNodes m.entries := by
  rcases merge_inv ndebug hl hfit he hc hd hV with
    ⟨ht, hm⟩ | ⟨rfl, h₀, hg, m', V', e, ne, S', rfl, hef, hV', hm, he', hl', hfree, hused⟩
  · refine ⟨d, m, hm, hl, ?_, rfl, rfl⟩
    rw [he, List.isChain_split]
    exact ⟨hX, isChain_apart_cons hS hV ht⟩
  · refine ⟨c, m', hm, hl', ?_, hfree, hused⟩
    have hS' := isChain_apart_replace (P := (d, nd) :: V') (c := (e, { ne with prior := some c }))
      hS rfl fun _ => hef
    have hd₀ : d ≠ 0 := by
      have := (OrderedMap.lt_of_entries he).2 (d, nd) (by simp)
      omega
    rw [he', List.isChain_split]
    exact ⟨isChain_apart_last hX id fun _ => hc,
      isChain_apart_head hS' (fun h => absurd h hd₀) fun _ => hd⟩

/-- **Compaction**: the two merges of `free` around a node just linked. -/
theorem compact_inv (hl : Shape pool length m.entries) (hfit : pool + length < guardKey)
    (he : m.entries = P ++ (b, nb) :: (U ++ (c, nc) :: (V ++ (d, nd) :: S)))
    (hg : c ≠ guardKey) (hb : isFreeEntry (b, nb) = true) (hc : isFreeEntry (c, nc) = true)
    (hd : isFreeEntry (d, nd) = true) (hU : ∀ e ∈ U, isFreeEntry e = false)
    (hV : ∀ e ∈ V, isFreeEntry e = false) (hP : (P ++ (b, nb) :: U).IsChain Apart)
    (hS : (V ++ (d, nd) :: S).IsChain Apart) :
    ∃ it m₁ n next p m₂, merge ndebug m b c = some (it, m₁) ∧ m₁.find? it = some n ∧
      n.next = some next ∧ merge ndebug m₁ it next = some (p, m₂) ∧
        Shape pool length m₂.entries ∧ m₂.entries.IsChain Apart ∧
          freeBytes m₂.entries = freeBytes m.entries ∧
            usedNodes m₂.entries = usedNodes m.entries := by
  rcases merge_inv ndebug hl hfit he hb hc hU with
    ⟨ht, hm⟩ | ⟨rfl, h₀, -, m₁, V₁, e, ne, S₁, hVS, hef, hV₁, hm, he₁, hl₁, hfree, hused⟩
  · have he₁ : m.entries = (P ++ (b, nb) :: U) ++ (c, nc) :: (V ++ (d, nd) :: S) := by simp [he]
    have hn : nc.next = some d := (hl.link he₁ hc hd hV).1
    obtain ⟨p, m₂, hm₂, h⟩ := merge_next_inv ndebug hl hfit he₁ hc hd hV
      (isChain_apart_snoc hP hU ht) hS
    exact ⟨c, m, nc, d, p, m₂, hm, OrderedMap.find?_of_entries he₁, hn, hm₂, h⟩
  · have hbe : b < e := (OrderedMap.lt_of_entries he).2 (e, ne) (by simp [hVS])
    have hbf : isFreeEntry (b, { nb with len := nb.len + nc.len, next := some e }) = true := by
      simp only [isFreeEntry, ne_eq, Option.some.injEq, decide_not, Bool.not_eq_eq_eq_not,
        Bool.not_true, decide_eq_false_iff_not]
      omega
    have hef' : isFreeEntry (e, { ne with prior := some b }) = true := by
      simpa [isFreeEntry] using hef
    rw [hVS] at hS
    obtain ⟨p, m₂, hm₂, hl₂, ha₂, hfree₂, hused₂⟩ := merge_next_inv ndebug hl₁ hfit he₁ hbf hef'
      hV₁ (isChain_apart_last hP id fun _ => hb) (isChain_apart_replace hS rfl fun _ => hef)
    exact ⟨b, m₁, _, e, p, m₂, hm, OrderedMap.find?_of_entries he₁, rfl, hm₂, hl₂, ha₂,
      hfree₂.trans hfree, hused₂.trans hused⟩

end Give

section Walks

variable (ndebug : Bool) {m : Memory} {pool length bytes : ℕ}

/-- **The walk along `next` is a search of the free nodes in address order.** -/
theorem firstFit_spec (hl : Shape pool length m.entries) (hpos : 0 < bytes) :
    ∀ (fuel : ℕ) (X Y : List (ℕ × Node)) (c : ℕ) (nc : Node), m.entries = X ++ (c, nc) :: Y →
      isFreeEntry (c, nc) = true → Y.length < fuel →
        firstFit ndebug m bytes fuel c =
          some ((((c, nc) :: Y).find? fun e => isFreeEntry e && bytes ≤ e.2.len).map Prod.fst) := by
  intro fuel
  induction fuel with
  | zero => exact fun X Y c nc _ _ h => absurd h (Nat.not_lt_zero _)
  | succ fuel ih =>
    intro X Y c nc he hf hfuel
    have hc : (c, nc) ∈ m.entries := he ▸ List.mem_append_right _ (List.mem_cons_self ..)
    have hfind := OrderedMap.find?_of_entries he
    by_cases hg : c = guardKey
    · -- the end guard: nothing is past it
      have hY : Y = [] := by
        refine List.eq_nil_iff_forall_not_mem.2 fun e h => ?_
        have h₁ := hl.lt_of_after he h
        have h₂ := hl.le_guard e (he ▸ List.mem_append_right _ (List.mem_cons_of_mem _ h))
        simp only at h₁
        omega
      have hn := hl.guard _ hc hg
      simp only at hn
      have hlen : ¬ bytes ≤ nc.len := by omega
      simp [firstFit, hfind, islastfree, hn, assert_of_true, hY, hpos.ne']
    · obtain ⟨V, ⟨d, nd⟩, S, rfl, hd, hV⟩ := hl.exists_free_after he hg
      have hn : nc.next = some d := (hl.link he hf hd hV).1
      by_cases hle : bytes ≤ nc.len
      · simp [firstFit, hfind, islastfree, hn, hle, hf]
      · have hVn : V.find? (fun e => isFreeEntry e && decide (bytes ≤ e.2.len)) = none :=
          List.find?_eq_none.2 fun e h => by simp [hV e h]
        have h := ih (X ++ (c, nc) :: V) S d nd (by simp [he]) hd (by
          simp only [List.length_append, List.length_cons] at hfuel
          omega)
        rw [List.find?_cons_of_neg (by simp [hle]), List.find?_append, hVn, Option.none_or, ← h]
        simp [firstFit, hfind, islastfree, hn, hle]

/-- **The walk along `prior` is a search of the free nodes from the top down.** -/
theorem lastFit_spec (hl : Shape pool length m.entries) (hpos : 0 < bytes) :
    ∀ (fuel : ℕ) (X Y : List (ℕ × Node)) (c : ℕ) (nc : Node), m.entries = X ++ (c, nc) :: Y →
      isFreeEntry (c, nc) = true → X.length < fuel →
        lastFit ndebug m bytes fuel c = some ((((c, nc) :: X.reverse).find?
          fun e => isFreeEntry e && bytes ≤ e.2.len).map Prod.fst) := by
  intro fuel
  induction fuel with
  | zero => exact fun X Y c nc _ _ h => absurd h (Nat.not_lt_zero _)
  | succ fuel ih =>
    intro X Y c nc he hf hfuel
    have hc : (c, nc) ∈ m.entries := he ▸ List.mem_append_right _ (List.mem_cons_self ..)
    have hfind := OrderedMap.find?_of_entries he
    by_cases h₀ : c = 0
    · -- the start guard: nothing is before it
      have hX : X = [] := by
        refine List.eq_nil_iff_forall_not_mem.2 fun e h => ?_
        have := hl.lt_of_before he h
        simp only at this
        omega
      have hn := hl.zero _ hc h₀
      simp only at hn
      simp [lastFit, hfind, isfirstfree, hn, assert_of_true, hX, hpos.ne']
    · obtain ⟨P, ⟨b, nb⟩, U, rfl, hb, hU⟩ := hl.exists_free_before he h₀
      have hp : nc.prior = some b :=
        (hl.link (S := Y) (by simpa using he) hb hf hU).2
      by_cases hle : bytes ≤ nc.len
      · simp [lastFit, hfind, isfirstfree, hp, hle, hf]
      · have hUn : U.reverse.find? (fun e => isFreeEntry e && decide (bytes ≤ e.2.len)) = none :=
          List.find?_eq_none.2 fun e h => by simp [hU e (List.mem_reverse.1 h)]
        have h := ih P (U ++ (c, nc) :: Y) b nb (by simp [he]) hb (by
          simp only [List.length_append, List.length_cons] at hfuel
          omega)
        rw [List.find?_cons_of_neg (by simp [hle]), List.reverse_append, List.reverse_cons,
          List.append_assoc, List.find?_append, hUn, Option.none_or, List.singleton_append, ← h]
        simp [lastFit, hfind, isfirstfree, hp, hle]

end Walks

/-- What every call of the allocator keeps. -/
structure Allocator.Inv (a : Allocator) : Prop where
  /-- The arena ends below the end guard. -/
  fits : a.pool + a.length < guardKey
  /-- The nodes and the free list. -/
  shape : Shape a.pool a.length a.memory.entries
  /-- Free nodes are coalesced. -/
  apart : a.memory.entries.IsChain Apart
  /-- `total_free` counts the free bytes. -/
  total : a.total_free = freeBytes a.memory.entries

section Calls

variable (ndebug : Bool) {a : Allocator}

theorem freeBytes_le (l : List (ℕ × Node)) : freeBytes l ≤ (l.map fun e => e.2.len).sum := by
  induction l with
  | nil => exact le_rfl
  | cons e l ih =>
    rw [List.map_cons, List.sum_cons]
    by_cases h : isFreeEntry e = true
    · rw [freeBytes_cons_free h]
      omega
    · rw [freeBytes_cons_used (by simpa using h)]
      omega

/-- A free entry has no more bytes than all of them. -/
theorem le_freeBytes {l : List (ℕ × Node)} {e : ℕ × Node} (he : e ∈ l) (hf : isFreeEntry e = true) :
    e.2.len ≤ freeBytes l := by
  obtain ⟨A, B, rfl⟩ := List.append_of_mem he
  rw [freeBytes_append, freeBytes_cons_free hf]
  omega

/-- The free bytes fit in the arena. -/
theorem Shape.freeBytes_le {pool length : ℕ} {l : List (ℕ × Node)} (hl : Shape pool length l) :
    freeBytes l ≤ length := by
  have h₁ := hl.tiles.sum
  have h₂ := Device.freeBytes_le l
  rw [List.map_map] at h₁
  simp only [Function.comp_def, spanOf] at h₁
  omega

theorem Allocator.Inv.total_le (h : a.Inv) : a.total_free ≤ a.length :=
  h.total ▸ h.shape.freeBytes_le

/-- `alloc` starts at a free node, or nowhere. -/
theorem Allocator.allocStart_spec (h : a.Inv) (address : ℕ) (fix_address : Bool) :
    a.allocStart address fix_address = some none ∨
      ∃ c nc, a.allocStart address fix_address = some (some c) ∧
        (c, nc) ∈ a.memory.entries ∧ isFreeEntry (c, nc) = true := by
  have hfirst := h.shape.first?
  unfold Allocator.allocStart
  split_ifs with hfix
  · cases hn : nodeAt a.memory address with
    | none => exact .inl rfl
    | some e =>
      obtain ⟨k, n⟩ := e
      by_cases hf : isfree a.memory n = true
      · refine .inr ⟨k, n, by simp [hf], List.mem_of_find?_eq_some hn, ?_⟩
        rwa [← isfree_eq hfirst]
      · exact .inl (by simp [hf])
  · obtain ⟨⟨_, z⟩, hz, rfl⟩ := List.mem_map.1 h.shape.zero_mem
    obtain ⟨X, Y, he⟩ := List.append_of_mem hz
    obtain ⟨V, ⟨d, nd⟩, S, rfl, hd, hV⟩ := h.shape.exists_free_after he (by simp [guardKey])
    have hn : z.next = some d := (h.shape.link he (h.shape.zero _ hz rfl).2.2 hd hV).1
    refine .inr ⟨d, nd, ?_, he ▸ by simp, hd⟩
    simp [hfirst, OrderedMap.find?_of_entries he, hn]

/-- Where `alloc` finds nothing that fits, it does nothing. -/
theorem Allocator.alloc_from_none (h : a.Inv) {address bytes c : ℕ} {fix_address : Bool} {nc : Node}
    {X Y : List (ℕ × Node)} (hpos : 0 < bytes)
    (hs : a.allocStart address fix_address = some (some c))
    (he : a.memory.entries = X ++ (c, nc) :: Y) (hf : isFreeEntry (c, nc) = true)
    (hq : ((c, nc) :: Y).find? (fun e => isFreeEntry e && bytes ≤ e.2.len) = none) :
    a.alloc ndebug address bytes fix_address = some (none, a) := by
  have hfit := firstFit_spec ndebug h.shape hpos a.memory.entries.length X Y c nc he hf
    (by simp [he]; omega)
  rw [hq] at hfit
  by_cases hearly : (decide (bytes > a.total_free) || decide (bytes = 0)) = true
  · simp [Allocator.alloc, hearly]
  · simp [Allocator.alloc, hearly, hs, hfit]

/-- **`alloc` takes the low bytes** of the first free node that fits, from where it starts. -/
theorem Allocator.alloc_from_some (h : a.Inv) {address bytes c k : ℕ} {fix_address : Bool}
    {nc n : Node} {X Y : List (ℕ × Node)} (hpos : 0 < bytes) (htotal : bytes ≤ a.total_free)
    (hs : a.allocStart address fix_address = some (some c))
    (he : a.memory.entries = X ++ (c, nc) :: Y) (hf : isFreeEntry (c, nc) = true)
    (hq : ((c, nc) :: Y).find? (fun e => isFreeEntry e && bytes ≤ e.2.len) = some (k, n)) :
    ∃ a', a.alloc ndebug address bytes fix_address = some (some k, a') ∧ a'.Inv ∧
      a'.pool = a.pool ∧ a'.length = a.length ∧ a'.total_free = a.total_free - bytes ∧
        (usedNodes a'.memory.entries).Perm ((k, bytes) :: usedNodes a.memory.entries) := by
  have hearly : ¬(decide (bytes > a.total_free) || decide (bytes = 0)) = true := by
    simp only [Bool.or_eq_true, decide_eq_true_eq]
    omega
  have hfit := firstFit_spec ndebug h.shape hpos a.memory.entries.length X Y c nc he hf
    (by simp [he]; omega)
  rw [hq] at hfit
  have hk : (k, n) ∈ a.memory.entries := by
    rw [he]
    exact List.mem_append_right _ (List.mem_of_find?_eq_some hq)
  have hkf := List.find?_some hq
  simp only [Bool.and_eq_true, decide_eq_true_eq] at hkf
  obtain ⟨m', hm', hl', ha', hfree, hused⟩ := takeLow_inv ndebug h.shape h.apart h.fits hk hkf.1
    hpos hkf.2
  have h₁ := h.total
  have h₂ := h.total_le
  have h₃ := h.fits
  unfold guardKey at h₃
  have hsub : sub64 a.total_free bytes = a.total_free - bytes := sub64_of_le htotal (by omega)
  refine ⟨{ a with total_free := sub64 a.total_free bytes, memory := m' },
    by simp [Allocator.alloc, hearly, hs, hfit, hm'], ⟨h.fits, hl', ha', ?_⟩, rfl, rfl, hsub, hused⟩
  simp only
  omega

/-- **What `alloc` does**: nothing, or it makes `bytes` bytes of a free node used. -/
theorem Allocator.alloc_inv (h : a.Inv) (address bytes : ℕ) (fix_address : Bool) :
    a.alloc ndebug address bytes fix_address = some (none, a) ∨
      ∃ p a', a.alloc ndebug address bytes fix_address = some (some p, a') ∧ a'.Inv ∧
        0 < bytes ∧ a'.pool = a.pool ∧ a'.length = a.length ∧
          (usedNodes a'.memory.entries).Perm ((p, bytes) :: usedNodes a.memory.entries) := by
  by_cases hearly : (decide (bytes > a.total_free) || decide (bytes = 0)) = true
  · exact .inl (by simp [Allocator.alloc, hearly])
  simp only [Bool.or_eq_true, decide_eq_true_eq, not_or] at hearly
  obtain ⟨htotal, hpos⟩ : bytes ≤ a.total_free ∧ 0 < bytes := by omega
  obtain hs | ⟨c, nc, hs, hc, hf⟩ := Allocator.allocStart_spec h address fix_address
  · exact .inl (by simp [Allocator.alloc, hs])
  obtain ⟨X, Y, he⟩ := List.append_of_mem hc
  cases hq : ((c, nc) :: Y).find? fun e => isFreeEntry e && decide (bytes ≤ e.2.len) with
  | none => exact .inl (Allocator.alloc_from_none ndebug h hpos hs he hf hq)
  | some e =>
    obtain ⟨a', hr, hi, hp, hl, -, hused⟩ :=
      Allocator.alloc_from_some ndebug h hpos htotal hs he hf hq
    exact .inr ⟨e.1, a', hr, hi, hpos, hp, hl, hused⟩

/-- **`alloc_high` takes the high bytes** of a free node that fits; it does nothing when there is
none. -/
theorem Allocator.alloc_high_cases (h : a.Inv) {bytes : ℕ} (hpos : 0 < bytes) :
    (a.alloc_high ndebug bytes = some (none, a) ∧
        ∀ e ∈ a.memory.entries, isFreeEntry e = true → e.2.len < bytes) ∨
      ∃ k n a', (k, n) ∈ a.memory.entries ∧ isFreeEntry (k, n) = true ∧ bytes ≤ n.len ∧
        a.alloc_high ndebug bytes = some (some (k + n.len - bytes), a') ∧ a'.Inv ∧
          a'.pool = a.pool ∧ a'.length = a.length ∧ a'.total_free = a.total_free - bytes ∧
            (usedNodes a'.memory.entries).Perm
              ((k + n.len - bytes, bytes) :: usedNodes a.memory.entries) := by
  by_cases htotal : a.total_free < bytes
  · refine .inl ⟨by simp [Allocator.alloc_high, htotal], fun e he hf => ?_⟩
    exact (h.total ▸ le_freeBytes he hf).trans_lt htotal
  have hearly : ¬(decide (bytes > a.total_free) || decide (bytes = 0)) = true := by
    simp only [Bool.or_eq_true, decide_eq_true_eq]
    omega
  -- the walk starts at the node the end guard's `prior` names
  obtain ⟨⟨_, g⟩, hg, rfl⟩ := List.mem_map.1 h.shape.guard_mem
  have hlast : a.memory.last? = some (guardKey, g) :=
    OrderedMap.last?_of_forall_le hg h.shape.le_guard
  obtain ⟨X, Y, he⟩ := List.append_of_mem hg
  obtain ⟨P, ⟨c, nc⟩, U, rfl, hf, hU⟩ := h.shape.exists_free_before he (by simp [guardKey])
  have he' : a.memory.entries = P ++ (c, nc) :: (U ++ (guardKey, g) :: Y) := by simp [he]
  have hprior : g.prior = some c :=
    (h.shape.link he' hf (h.shape.isFreeEntry_guard hg rfl) hU).2
  have hfit := lastFit_spec ndebug h.shape hpos a.memory.entries.length P _ c nc he' hf
    (by simp [he'])
  cases hq : ((c, nc) :: P.reverse).find? fun e => isFreeEntry e && decide (bytes ≤ e.2.len) with
  | none =>
    rw [hq] at hfit
    refine .inl ⟨by simp [Allocator.alloc_high, hearly, hlast, hprior, hfit], fun e hm hfe => ?_⟩
    have hnot : e ∈ (c, nc) :: P.reverse → e.2.len < bytes := fun hm => by
      simpa [hfe] using List.find?_eq_none.1 hq e hm
    rw [he', List.mem_append, List.mem_cons, List.mem_append, List.mem_cons] at hm
    rcases hm with hm | rfl | hm | rfl | hm
    · exact hnot (List.mem_cons_of_mem _ (List.mem_reverse.2 hm))
    · exact hnot List.mem_cons_self
    · rw [hU e hm] at hfe
      cases hfe
    · exact (h.shape.guard _ hg rfl).1 ▸ hpos
    · have h₁ := h.shape.lt_of_after he hm
      have h₂ := h.shape.le_guard e (he ▸ List.mem_append_right _ (List.mem_cons_of_mem _ hm))
      simp only at h₁
      omega
  | some e =>
    obtain ⟨k, n⟩ := e
    rw [hq] at hfit
    have hk : (k, n) ∈ a.memory.entries := by
      have hmem := List.mem_of_find?_eq_some hq
      rw [he', List.mem_append, List.mem_cons]
      rw [List.mem_cons, List.mem_reverse] at hmem
      tauto
    have hkf := List.find?_some hq
    simp only [Bool.and_eq_true, decide_eq_true_eq] at hkf
    obtain ⟨m', hm', hl', ha', hfree, hused⟩ := takeHigh_inv ndebug h.shape h.apart h.fits hk
      hkf.1 hpos hkf.2
    have h₁ := h.total
    have h₂ := h.total_le
    have h₃ := h.fits
    unfold guardKey at h₃
    have hsub : sub64 a.total_free bytes = a.total_free - bytes := sub64_of_le (by omega) (by omega)
    refine .inr ⟨k, n, { a with
        total_free := sub64 a.total_free bytes, memory := m',
        high := insert (k + n.len - bytes) a.high }, hk, hkf.1, hkf.2,
      by simp [Allocator.alloc_high, hearly, hlast, hprior, hfit, hm'], ⟨h.fits, hl', ha', ?_⟩,
      rfl, rfl, hsub, hused⟩
    simp only
    omega

/-- **What `alloc_high` does**: nothing, or it makes `bytes` bytes of a free node used. -/
theorem Allocator.alloc_high_inv (h : a.Inv) (bytes : ℕ) :
    a.alloc_high ndebug bytes = some (none, a) ∨
      ∃ p a', a.alloc_high ndebug bytes = some (some p, a') ∧ a'.Inv ∧
        0 < bytes ∧ a'.pool = a.pool ∧ a'.length = a.length ∧
          (usedNodes a'.memory.entries).Perm ((p, bytes) :: usedNodes a.memory.entries) := by
  rcases Nat.eq_zero_or_pos bytes with rfl | hpos
  · exact .inl (by simp [Allocator.alloc_high])
  obtain ⟨hr, -⟩ | ⟨k, n, a', -, -, -, hr, hi, hp, hl, -, hused⟩ :=
    Allocator.alloc_high_cases ndebug h hpos
  · exact .inl hr
  · exact .inr ⟨_, a', hr, hi, hpos, hp, hl, hused⟩

/-- The walk down stops at the free neighbour. -/
theorem freeBefore_spec {m : Memory} {b ptr : ℕ} {nb nc : Node}
    {P U Y : List (ℕ × Node)} (hfirst : m.first? = some 0)
    (he : m.entries = P ++ (b, nb) :: (U ++ (ptr, nc) :: Y)) (hb : isFreeEntry (b, nb) = true)
    (hU : ∀ e ∈ U, isFreeEntry e = false) : freeBefore m ptr = some b := by
  have hUn : U.reverse.find? (fun e => isfree m e.2) = none :=
    List.find?_eq_none.2 fun e hm => by
      rw [isfree_eq hfirst e.1]
      simp [hU e (List.mem_reverse.1 hm)]
  have hbf : isfree m nb = true := by rwa [isfree_eq hfirst b]
  have he' : m.entries = (P ++ (b, nb) :: U) ++ (ptr, nc) :: Y := by simp [he]
  rw [freeBefore, OrderedMap.below_of_entries he', List.reverse_append, List.reverse_cons,
    List.append_assoc, List.find?_append, hUn]
  simp [hbf]

/-- **What `free` does to a used node** that is no longer than it was told: its bytes are free, and
coalesced; they are counted if the length is the right one. -/
theorem Allocator.free_whole {ptr bytes : ℕ} {nc : Node} (h : a.Inv)
    (hc : (ptr, nc) ∈ a.memory.entries) (hcu : isFreeEntry (ptr, nc) = false)
    (hle : nc.len ≤ bytes) :
    ∃ m, a.free ndebug ptr bytes = some (true, { a with
        total_free := if nc.len = bytes then a.total_free + nc.len else a.total_free
        memory := m, high := a.high.erase ptr }) ∧
      Shape a.pool a.length m.entries ∧ m.entries.IsChain Apart ∧
      freeBytes m.entries = a.total_free + nc.len ∧
        (usedNodes a.memory.entries).Perm ((ptr, nc.len) :: usedNodes m.entries) := by
  have hl := h.shape
  have hpos := hl.used_pos _ hc hcu
  have h₀ := hl.ne_zero_of_pos hc hpos
  have hg := hl.ne_guard_of_pos hc hpos
  obtain ⟨X, Y, he⟩ := List.append_of_mem hc
  have ha := h.apart
  rw [he] at ha
  obtain ⟨P, ⟨b, nb⟩, U, V, ⟨d, nd⟩, S, rfl, rfl, hb, hd, hd₀, hU, hV⟩ :=
    hl.exists_free_around he h₀ hg
  have hbc := hl.lt_of_before he (b := (b, nb)) (by simp)
  have hcd := hl.lt_of_after he (d := (d, nd)) (by simp)
  simp only at hbc hcd h₀ hg
  have hs : a.memory.entries = P ++ (b, nb) :: (U ++ (ptr, nc) :: (V ++ (d, nd) :: S)) := by
    simp [he]
  have hbefore : freeBefore a.memory ptr = some b := freeBefore_spec hl.first? hs hb hU
  have hn : nb.next = some d := by
    refine (Shape.link (P := P) (S := S) (U := U ++ (ptr, nc) :: V) hl (by simp [hs]) hb hd ?_).1
    simp only [List.forall_mem_append, List.forall_mem_cons]
    exact ⟨hU, hcu, hV⟩
  obtain ⟨m₁, hm₁, he₁, hl₁, hfree₁, hused₁⟩ :=
    insertafter_inv ndebug hl hs hb hcu hd hU hV
  obtain ⟨it, m₂, n, next, p, m₃, hm₂, hit, hnext, hm₃, hl₃, ha₃, hfree₃, hused₃⟩ :=
    compact_inv ndebug hl₁ h.fits he₁ hg (by simp [isFreeEntry]; omega)
      (by simp [isFreeEntry]; omega)
      (by simpa [isFreeEntry] using hd) hU hV
      (isChain_apart_replace (List.isChain_append.1 ha).1 rfl fun _ => hb)
      (isChain_apart_replace (List.isChain_cons.1 (List.isChain_append.1 ha).2.1).2 rfl
        fun _ => hd)
  have htotal : u64 (a.total_free + nc.len) = a.total_free + nc.len := by
    have h₁ := hl₁.freeBytes_le
    have h₂ := h.fits
    have h₃ := h.total
    unfold guardKey at h₂
    exact u64_of_lt (by omega)
  refine ⟨m₃, ?_, hl₃, ha₃, by rw [hfree₃, hfree₁, h.total], hused₃ ▸ hused₁⟩
  have hfind := OrderedMap.find?_of_entries he
  have hfb := OrderedMap.find?_of_entries hs
  have hused : isfree a.memory nc = false := by rwa [isfree_eq hl.first? ptr]
  by_cases heq : nc.len = bytes
  · simp [Allocator.free, hfind, hused, assert_of_true, heq ▸ htotal, hbefore, hfb, hn, hcd, hm₁,
      hm₂, hit, hnext, hm₃, heq]
  · have hgt : ¬bytes < nc.len := by omega
    simp [Allocator.free, hfind, hused, assert_of_true, heq, hgt, hbefore, hfb, hn, hcd, hm₁, hm₂,
      hit, hnext, hm₃]

/-- **What `free` does to a used node** with its length: its bytes are free, and coalesced. -/
theorem Allocator.free_inv {ptr bytes : ℕ} (h : a.Inv)
    (hu : (ptr, bytes) ∈ usedNodes a.memory.entries) :
    ∃ a', a.free ndebug ptr bytes = some (true, a') ∧ a'.Inv ∧ a'.pool = a.pool ∧
      a'.length = a.length ∧
        (usedNodes a.memory.entries).Perm ((ptr, bytes) :: usedNodes a'.memory.entries) := by
  obtain ⟨nc, hc, hcu, rfl⟩ := mem_usedNodes.1 hu
  obtain ⟨m, hm, hl, ha, hfree, hused⟩ := Allocator.free_whole ndebug h hc hcu le_rfl
  rw [if_pos rfl] at hm
  exact ⟨_, hm, ⟨h.fits, hl, ha, hfree.symm⟩, rfl, rfl, hused⟩

end Calls

end Codrive.Device
