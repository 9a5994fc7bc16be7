/-
# Strings with single spaces, and their tokens

`StringSingleSpaces` leaves the pieces of the string between separators, joined with single spaces
(`stringSingleSpaces_eq`), and `StringTokenize` appends those that start below `2 ^ 31`
(`stringTokenize_eq`).  The positions are an `int` and an `unsigned`: the former overflows in a
string of `2 ^ 31` characters, and tokens are lost where they start behind what it holds, so that
both do what they are for exactly on strings that are short enough (`spaces_and_tokens_iff`).
-/

import Codrive.Basis.Pieces
import Codrive.Strings.Spaces
import Mathlib.Data.List.Chain

namespace Codrive.Strings

open Codrive.Basis

variable {s set out rest cs : Str} {c : Char} {v w : Spacing}

/-! ### Single spaces -/

/-- What the loop of `StringSingleSpaces` makes of the characters that are left, behind `out`. -/
def squeeze (set : Str) (out : Str) (was_space started : Bool) : Str → Str
  | [] => if out ≠ [] && was_space then out.dropLast else out
  | c :: cs =>
    if stringHasChar set c then
      squeeze set (if !was_space && started then out ++ [' '] else out) true started cs
    else squeeze set (out ++ [c]) false true cs

/-- The string between two turns: what is written, a gap, and what is to be read. -/
structure Spacing.Reached (v : Spacing) (out rest : Str) : Prop where
  parts : ∃ gap, v.s = out ++ gap ++ rest ∧ v.i = out.length + gap.length
  dest_eq : v.dest = out.length
  src_eq : v.src = v.i
  was_eq : v.is_space = v.was_space
  short : v.s.length < 2 ^ 31

theorem increment_of_lt {x : ℕ} (h : x + 1 < 2 ^ 31) : increment x = some (x + 1) := if_pos h

theorem increment_eq_some {x y : ℕ} (h : increment x = some y) : y = x + 1 ∧ y < 2 ^ 31 := by
  rw [increment] at h
  split at h
  · obtain rfl := Option.some.inj h
    exact ⟨rfl, ‹_›⟩
  · cases h

theorem Spacing.turn_of_next (hread : v.s[v.i]? = some c) (hnext : v.next set c = some w) :
    v.turn set = some (.inl { w with i := wrap 32 (w.i + 1), was_space := w.is_space }) := by
  have hi : v.i < v.s.length := (List.getElem?_eq_some_iff.1 hread).1
  rw [Spacing.turn, if_pos hi, hread]
  simp only [Option.bind_eq_bind, Option.bind_some, hnext]

theorem Spacing.Reached.read (h : v.Reached out (c :: cs)) : v.s[v.i]? = some c := by
  obtain ⟨gap, hs, hi⟩ := h.parts
  rw [hs, hi, ← List.length_append, List.getElem?_append_right (Nat.le_refl _), Nat.sub_self,
    List.getElem?_cons_zero]

/-- The positions do not overflow in front of a character. -/
theorem Spacing.Reached.room (h : v.Reached out (c :: cs)) :
    increment v.src = some (v.i + 1) ∧ increment out.length = some (out.length + 1) ∧
      wrap 32 (v.i + 1) = v.i + 1 := by
  obtain ⟨gap, hs, hi⟩ := h.parts
  have hshort := h.short
  rw [hs] at hshort
  simp only [List.length_append, List.length_cons] at hshort
  rw [h.src_eq]
  exact ⟨increment_of_lt (by omega), increment_of_lt (by omega), wrap_of_lt (by omega)⟩

/-- **A turn over a separator.** -/
theorem Spacing.Reached.turn_sep (h : v.Reached out (c :: cs)) (hc : stringHasChar set c = true) :
    ∃ w, v.turn set = some (.inl w) ∧
      w.Reached (if !v.was_space && v.started then out ++ [' '] else out) cs ∧
      w.was_space = true ∧ w.started = v.started := by
  obtain ⟨hsrc', hdest', hwrap⟩ := h.room
  have hread := h.read
  obtain ⟨⟨gap, hs, hi⟩, hdest, hsrc, hwas, hshort⟩ := h
  by_cases hspace : (!v.was_space && v.started) = true
  · obtain ⟨gap', hgap, hstore⟩ := store_gap out gap c cs ' '
    have hnext : v.next set c =
        some { v with s := out ++ [' '] ++ gap' ++ cs, src := v.i + 1, dest := out.length + 1,
                      is_space := true } := by
      rw [Spacing.next, if_pos hc, hsrc', Option.bind_eq_bind, Option.bind_some, if_pos hspace, hs,
        hdest, hstore, Option.bind_eq_bind, Option.bind_some, hdest']
      rfl
    refine ⟨_, Spacing.turn_of_next hread hnext, ?_, rfl, rfl⟩
    rw [if_pos hspace]
    have hlen : (out ++ [' '] ++ gap' ++ cs).length = v.s.length := by
      rw [hs]
      simp only [List.length_append, List.length_cons, List.length_nil]
      omega
    refine ⟨⟨gap', rfl, ?_⟩, by simp, hwrap.symm, rfl, by rw [hlen]; exact hshort⟩
    rw [hwrap]
    simp only [List.length_append, List.length_singleton]
    omega
  · have hnext : v.next set c = some { v with src := v.i + 1, is_space := true } := by
      rw [Spacing.next, if_pos hc, hsrc', Option.bind_eq_bind, Option.bind_some, if_neg hspace]
    refine ⟨_, Spacing.turn_of_next hread hnext, ?_, rfl, rfl⟩
    rw [if_neg hspace]
    refine ⟨⟨gap ++ [c], by simp [hs], ?_⟩, hdest, hwrap.symm, rfl, hshort⟩
    rw [hwrap]
    simp only [List.length_append, List.length_singleton]
    omega

/-- **A turn over any other character.** -/
theorem Spacing.Reached.turn_char (h : v.Reached out (c :: cs)) (hc : stringHasChar set c = false) :
    ∃ w, v.turn set = some (.inl w) ∧ w.Reached (out ++ [c]) cs ∧ w.was_space = false ∧
      w.started = true := by
  obtain ⟨hsrc', hdest', hwrap⟩ := h.room
  have hread := h.read
  obtain ⟨⟨gap, hs, hi⟩, hdest, hsrc, hwas, hshort⟩ := h
  obtain ⟨gap', hgap, hstore⟩ := store_gap out gap c cs c
  rw [← hs, ← hdest] at hstore
  rw [← hdest] at hdest'
  have hnext : v.next set c =
      some { v with s := out ++ [c] ++ gap' ++ cs, src := v.i + 1, dest := v.dest + 1,
                    is_space := false, started := true } := by
    rw [← hsrc] at hread
    simp only [Spacing.next, hc, Bool.false_eq_true, if_false, hread, hstore, hsrc', hdest',
      Option.bind_eq_bind, Option.bind_some]
  refine ⟨_, Spacing.turn_of_next hread hnext, ?_, rfl, rfl⟩
  have hlen : (out ++ [c] ++ gap' ++ cs).length = v.s.length := by
    rw [hs]
    simp only [List.length_append, List.length_cons, List.length_nil]
    omega
  refine ⟨⟨gap', rfl, ?_⟩, by simp [hdest], hwrap.symm, rfl, by rw [hlen]; exact hshort⟩
  rw [hwrap]
  simp only [List.length_append, List.length_singleton]
  omega

/-- What stands behind the loop. -/
theorem Spacing.Reached.turn_end (h : v.Reached out []) :
    v.turn set = some (.inr (squeeze set out v.was_space v.started [])) := by
  obtain ⟨⟨gap, hs, hi⟩, hdest, -, hwas, -⟩ := h
  rw [List.append_nil] at hs
  have hlen : v.s.length = out.length + gap.length := by rw [hs, List.length_append]
  simp only [Spacing.turn, if_neg (show ¬v.i < v.s.length by omega), hwas, hdest, erase, squeeze]
  by_cases hlast : (out ≠ [] && v.was_space) = true
  · have hlast' : (decide (out.length ≠ 0) && v.was_space) = true := by simpa using hlast
    rw [if_pos hlast, if_pos hlast', if_pos (by omega), hs, List.dropLast_eq_take]
    simp [List.take_append_of_le_length]
  · have hlast' : ¬(decide (out.length ≠ 0) && v.was_space) = true := by simpa using hlast
    rw [if_neg hlast, if_neg hlast', if_pos (by omega), hs]
    simp

/-- **The loop squeezes the string in place.** -/
theorem Spacing.Reached.loop_eq (h : v.Reached out rest) {turns : ℕ}
    (hturns : rest.length < turns) :
    loop (Spacing.turn set) turns v = some (squeeze set out v.was_space v.started rest) := by
  induction rest generalizing v out turns with
  | nil =>
    cases turns with
    | zero => omega
    | succ turns => rw [loop, h.turn_end]
  | cons c cs ih =>
    cases turns with
    | zero => omega
    | succ turns =>
      rw [List.length_cons] at hturns
      rw [loop, squeeze]
      cases hc : stringHasChar set c with
      | true =>
        obtain ⟨w, hw, hreached, hwas, hstarted⟩ := h.turn_sep hc
        rw [hw, if_pos rfl]
        exact (ih hreached (by omega)).trans (by rw [hwas, hstarted])
      | false =>
        obtain ⟨w, hw, hreached, hwas, hstarted⟩ := h.turn_char hc
        rw [hw, if_neg (by decide)]
        exact (ih hreached (by omega)).trans (by rw [hwas, hstarted])

/-- **What is squeezed** are the pieces: behind a character the rest of its piece and the pieces
after it, behind a space the pieces that are left, and all of them at the start. -/
theorem squeeze_eq (set rest : Str) :
    (∀ out, out ≠ [] → squeeze set out false true rest =
      out ++ rest.takeWhile (fun c => !stringHasChar set c) ++
        spaced ' ' (piecesFrom (stringHasChar set) false rest)) ∧
      (∀ out, squeeze set (out ++ [' ']) true true rest =
        out ++ spaced ' ' (pieces (stringHasChar set) rest)) ∧
      ∀ was_space, squeeze set [] was_space false rest =
        joined ' ' (pieces (stringHasChar set) rest) := by
  induction rest with
  | nil =>
    refine ⟨fun out _ => ?_, fun out => ?_, fun was_space => ?_⟩
    · simp [squeeze, piecesFrom]
    · simp [squeeze, pieces, piecesFrom]
    · simp [squeeze, pieces, piecesFrom, joined]
  | cons c cs ih =>
    obtain ⟨hin, hbehind, hstart⟩ := ih
    cases hc : stringHasChar set c with
    | true =>
      refine ⟨fun out hout => ?_, fun out => ?_, fun was_space => ?_⟩
      · rw [squeeze, if_pos hc, if_pos (by decide), hbehind, pieces_cons_of_sep _ hc,
          List.takeWhile_cons_of_neg (by simp [hc]), List.append_nil]
      · rw [squeeze, if_pos hc, if_neg (by decide), hbehind, pieces, pieces,
          pieces_cons_of_sep _ hc, pieces]
      · rw [squeeze, if_pos hc, if_neg (by simp), hstart, pieces, pieces, pieces_cons_of_sep _ hc,
          pieces]
    | false =>
      refine ⟨fun out hout => ?_, fun out => ?_, fun was_space => ?_⟩
      · rw [squeeze, if_neg (by simp [hc]), hin _ (by simp), piecesFrom_cons_of_not_sep _ hc,
          List.takeWhile_cons_of_pos (by simp [hc])]
        simp
      · rw [squeeze, if_neg (by simp [hc]), hin _ (by simp), pieces_cons_of_not_sep _ hc,
          spaced_cons]
        simp
      · rw [squeeze, if_neg (by simp [hc]), hin _ (by simp), pieces_cons_of_not_sep _ hc,
          joined_cons]
        simp

/-- **What `StringSingleSpaces` leaves.** -/
theorem stringSingleSpaces_eq (set : Str) (hshort : s.length < 2 ^ 31) {turns : ℕ}
    (hturns : s.length < turns) :
    stringSingleSpaces turns s set = some (joined ' ' (pieces (stringHasChar set) s)) := by
  have hreached : Spacing.Reached { s := s } [] s :=
    ⟨⟨[], by simp, rfl⟩, rfl, rfl, rfl, hshort⟩
  rw [stringSingleSpaces, hreached.loop_eq hturns]
  exact congrArg some ((squeeze_eq set s).2.2 false)

/-- What a character does to the length and the position, whatever it is. -/
theorem Spacing.next_spec (h : v.next set c = some w) :
    w.s.length = v.s.length ∧ w.src = v.src + 1 ∧ w.src < 2 ^ 31 ∧ w.i = v.i := by
  rw [Spacing.next] at h
  split at h
  · obtain ⟨src, hsrc, h⟩ := Option.bind_eq_some_iff.1 h
    obtain ⟨rfl, hlt⟩ := increment_eq_some hsrc
    split at h
    · obtain ⟨s, hs, h⟩ := Option.bind_eq_some_iff.1 h
      obtain ⟨dest, -, h⟩ := Option.bind_eq_some_iff.1 h
      obtain rfl := Option.some.inj h
      exact ⟨length_of_store hs, rfl, hlt, rfl⟩
    · obtain rfl := Option.some.inj h
      exact ⟨rfl, rfl, hlt, rfl⟩
  · obtain ⟨x, -, h⟩ := Option.bind_eq_some_iff.1 h
    obtain ⟨s, hs, h⟩ := Option.bind_eq_some_iff.1 h
    obtain ⟨src, hsrc, h⟩ := Option.bind_eq_some_iff.1 h
    obtain ⟨rfl, hlt⟩ := increment_eq_some hsrc
    obtain ⟨dest, -, h⟩ := Option.bind_eq_some_iff.1 h
    obtain rfl := Option.some.inj h
    exact ⟨length_of_store hs, rfl, hlt, rfl⟩

theorem length_of_erase {t : Str} {dest : ℕ} (h : erase s dest = some t) : t.length ≤ s.length := by
  rw [erase] at h
  split at h
  · rw [← Option.some.inj h]
    exact List.length_take_le' _ _
  · cases h

/-- **What comes out** is no longer than what went in. -/
theorem length_stringSingleSpaces {turns : ℕ} {r : Str}
    (h : stringSingleSpaces turns s set = some r) : r.length ≤ s.length := by
  refine loop_rule (fun v => v.s.length = s.length) (fun r => r.length ≤ s.length) ?_ ?_ rfl h
  · intro v t hlen h
    rw [Spacing.turn] at h
    split at h
    · obtain ⟨c, -, h⟩ := Option.bind_eq_some_iff.1 h
      obtain ⟨w, hw, h⟩ := Option.bind_eq_some_iff.1 h
      obtain rfl := Sum.inl.inj (Option.some.inj h)
      exact (Spacing.next_spec hw).1.trans hlen
    · obtain ⟨r, -, h⟩ := Option.bind_eq_some_iff.1 h
      cases Option.some.inj h
  · intro v r hlen h
    rw [Spacing.turn] at h
    split at h
    · obtain ⟨c, -, h⟩ := Option.bind_eq_some_iff.1 h
      obtain ⟨w, -, h⟩ := Option.bind_eq_some_iff.1 h
      cases Option.some.inj h
    · obtain ⟨t, ht, h⟩ := Option.bind_eq_some_iff.1 h
      obtain rfl := Sum.inr.inj (Option.some.inj h)
      rw [← hlen]
      exact length_of_erase ht

/-- **A string that is too long** never comes out: a position overflows first. -/
theorem stringSingleSpaces_long (set : Str) (hlong : 2 ^ 31 ≤ s.length) (turns : ℕ) :
    stringSingleSpaces turns s set = none := by
  rw [Option.eq_none_iff_forall_ne_some]
  intro r hr
  refine loop_rule (fun v => v.s.length = s.length ∧ v.src = v.i ∧ v.i < 2 ^ 31) (fun _ => False)
    ?_ ?_ ⟨rfl, rfl, Nat.two_pow_pos 31⟩ hr
  · rintro v t ⟨hlen, hsrc, hi⟩ h
    rw [Spacing.turn, if_pos (by omega)] at h
    obtain ⟨c, -, h⟩ := Option.bind_eq_some_iff.1 h
    obtain ⟨w, hw, h⟩ := Option.bind_eq_some_iff.1 h
    obtain ⟨hlen', hsrc', hlt, hi'⟩ := Spacing.next_spec hw
    obtain rfl := Sum.inl.inj (Option.some.inj h)
    have hwrap : wrap 32 (w.i + 1) = w.i + 1 := wrap_of_lt (by omega)
    exact ⟨hlen'.trans hlen, by simp only [hwrap]; omega, by simp only [hwrap]; omega⟩
  · rintro v a ⟨hlen, hsrc, hi⟩ h
    rw [Spacing.turn, if_pos (by omega)] at h
    obtain ⟨c, -, h⟩ := Option.bind_eq_some_iff.1 h
    obtain ⟨w, -, h⟩ := Option.bind_eq_some_iff.1 h
    cases Option.some.inj h

/-! ### What single spaces are -/

/-- A string with single spaces: none at the ends, no two next to each other, and no other
separator. -/
structure SinglySpaced (set r : Str) : Prop where
  head : r.head? ≠ some ' '
  last : r.getLast? ≠ some ' '
  doubled : r.IsChain fun a b => ¬(a = ' ' ∧ b = ' ')
  other : ∀ c ∈ r, stringHasChar set c = true → c = ' '

section Joined

variable {ws : List Str}

theorem ne_space (hset : stringHasChar set ' ' = true)
    (hs : ∀ c ∈ s, stringHasChar set c = false) : ∀ c ∈ s, c ≠ ' ' := by
  rintro c hc rfl
  rw [hs _ hc] at hset
  cases hset

theorem getLast?_spaced (hset : stringHasChar set ' ' = true)
    (hs : ∀ c ∈ s, stringHasChar set c = false) (hws : ∀ w ∈ ws, IsPiece (stringHasChar set) w) :
    (s ++ spaced ' ' ws).getLast? ≠ some ' ' := by
  induction ws generalizing s with
  | nil =>
    rw [spaced_nil, List.append_nil]
    exact fun h => ne_space hset hs ' ' (List.mem_of_getLast? h) rfl
  | cons w ws ih =>
    obtain ⟨hne, hw⟩ := hws w List.mem_cons_self
    have hrest := ih hw fun v hv => hws v (List.mem_cons_of_mem w hv)
    have hsplit : s ++ spaced ' ' (w :: ws) = s ++ [' '] ++ (w ++ spaced ' ' ws) := by simp
    rw [hsplit, List.getLast?_append_of_ne_nil _ (by simp [hne])]
    exact hrest

theorem isChain_spaced (hset : stringHasChar set ' ' = true)
    (hs : ∀ c ∈ s, stringHasChar set c = false) (hws : ∀ w ∈ ws, IsPiece (stringHasChar set) w) :
    (s ++ spaced ' ' ws).IsChain fun a b => ¬(a = ' ' ∧ b = ' ') := by
  have hpiece : ∀ t : Str, (∀ c ∈ t, stringHasChar set c = false) →
      t.IsChain fun a b => ¬(a = ' ' ∧ b = ' ') := fun t ht =>
    List.Pairwise.isChain
      (List.pairwise_of_forall_mem_list fun a ha _ _ h => ne_space hset ht a ha h.1)
  induction ws generalizing s with
  | nil =>
    rw [spaced_nil, List.append_nil]
    exact hpiece s hs
  | cons w ws ih =>
    obtain ⟨hne, hw⟩ := hws w List.mem_cons_self
    have hnext := ih hw fun v hv => hws v (List.mem_cons_of_mem w hv)
    rw [spaced_cons, List.cons_append]
    refine List.isChain_append.2 ⟨hpiece s hs, List.isChain_cons.2 ⟨?_, hnext⟩, ?_⟩
    · intro c hc hboth
      rw [List.head?_append_of_ne_nil _ hne] at hc
      exact ne_space hset hw c (List.mem_of_mem_head? hc) hboth.2
    · intro c hc d _ hboth
      exact ne_space hset hs c (List.mem_of_mem_getLast? hc) hboth.1

/-- **Joined pieces are singly spaced.** -/
theorem singlySpaced_joined (hset : stringHasChar set ' ' = true)
    (hws : ∀ w ∈ ws, IsPiece (stringHasChar set) w) : SinglySpaced set (joined ' ' ws) := by
  cases ws with
  | nil => exact ⟨by simp [joined], by simp [joined], List.isChain_nil, by simp [joined]⟩
  | cons w ws =>
    obtain ⟨hne, hw⟩ := hws w List.mem_cons_self
    have hrest : ∀ v ∈ ws, IsPiece (stringHasChar set) v :=
      fun v hv => hws v (List.mem_cons_of_mem w hv)
    rw [joined_cons]
    constructor
    · rw [List.head?_append_of_ne_nil _ hne]
      exact fun h => ne_space hset hw ' ' (List.mem_of_mem_head? h) rfl
    · exact getLast?_spaced hset hw hrest
    · exact isChain_spaced hset hw hrest
    · intro c hc hsep
      rcases List.mem_append.1 hc with hc | hc
      · rw [hw c hc] at hsep
        cases hsep
      · obtain ⟨v, hv, hc⟩ := List.mem_flatMap.1 hc
        rcases List.mem_cons.1 hc with rfl | hc
        · rfl
        · rw [(hrest v hv).2 c hc] at hsep
          cases hsep

end Joined

/-! ### Tokens -/

/-- The pieces that `StringTokenize` takes, where the string starts at `i`: behind the first that
starts where an `int` does not reach it takes no more. -/
def taken (set : Str) : Bool → ℕ → Str → List Str
  | _, _, [] => []
  | fresh, i, c :: cs =>
    if stringHasChar set c then taken set true (i + 1) cs
    else if fresh then
      if i < 2 ^ 31 then
        (c :: cs).takeWhile (fun c => !stringHasChar set c) :: taken set false (i + 1) cs
      else []
    else taken set false (i + 1) cs

/-- **All pieces are taken** exactly if all start where an `int` reaches. -/
theorem taken_eq_iff (set : Str) (fresh : Bool) (i : ℕ) (l : Str) :
    taken set fresh i l = piecesFrom (stringHasChar set) fresh l ↔
      ∀ p ∈ pieceStarts (stringHasChar set) fresh i l, p < 2 ^ 31 := by
  induction l generalizing fresh i with
  | nil => simp [taken, piecesFrom, pieceStarts]
  | cons c cs ih =>
    rw [taken, piecesFrom, pieceStarts]
    cases stringHasChar set c with
    | true => exact ih true (i + 1)
    | false =>
      cases fresh with
      | false => exact ih false (i + 1)
      | true =>
        simp only [Bool.false_eq_true, if_false, if_true, List.forall_mem_cons]
        by_cases hi : i < 2 ^ 31
        · rw [if_pos hi, List.cons_inj_right, ih false (i + 1)]
          exact ⟨fun h => ⟨hi, h⟩, fun h => h.2⟩
        · rw [if_neg hi]
          exact ⟨fun h => absurd h.symm (List.cons_ne_nil _ _), fun h => absurd h.1 hi⟩

section Turns

variable {v : Tokenizing}

/-- A separator where no token is open, or one is lost. -/
theorem Tokenizing.turn_sep_closed (hread : s[v.i]? = some c) (hc : stringHasChar set c = true)
    (hstart : v.token_start ≤ -1) :
    v.turn s set = some (.inl { v with i := wrap 32 (v.i + 1) }) := by
  have hi : v.i < s.length := (List.getElem?_eq_some_iff.1 hread).1
  simp [Tokenizing.turn, hread, hc, Nat.le_of_lt hi, Int.not_lt.2 hstart]

/-- A separator behind a token. -/
theorem Tokenizing.turn_sep_open (hread : s[v.i]? = some c) (hc : stringHasChar set c = true)
    (hstart : -1 < v.token_start) :
    v.turn s set = some (.inl {
      tokens := v.tokens ++ [substr s v.token_start.toNat ((v.i - v.token_start) % 2 ^ 32).toNat],
      i := wrap 32 (v.i + 1), token_start := -1 }) := by
  have hi : v.i < s.length := (List.getElem?_eq_some_iff.1 hread).1
  simp [Tokenizing.turn, hread, hc, Nat.le_of_lt hi, hstart]

/-- The first character of a token. -/
theorem Tokenizing.turn_char_closed (hread : s[v.i]? = some c) (hc : stringHasChar set c = false)
    (hstart : v.token_start = -1) :
    v.turn s set =
      some (.inl { v with i := wrap 32 (v.i + 1), token_start := Int.bmod v.i (2 ^ 32) }) := by
  have hi : v.i < s.length := (List.getElem?_eq_some_iff.1 hread).1
  simp [Tokenizing.turn, hread, hc, Nat.le_of_lt hi, Nat.ne_of_lt hi, hstart]

/-- Any other character. -/
theorem Tokenizing.turn_char_open (hread : s[v.i]? = some c) (hc : stringHasChar set c = false)
    (hstart : v.token_start ≠ -1) :
    v.turn s set = some (.inl { v with i := wrap 32 (v.i + 1) }) := by
  have hi : v.i < s.length := (List.getElem?_eq_some_iff.1 hread).1
  simp [Tokenizing.turn, hread, hc, Nat.le_of_lt hi, Nat.ne_of_lt hi, hstart]

/-- The end of the string where no token is open, or one is lost. -/
theorem Tokenizing.turn_end_closed (hi : v.i = s.length) (hstart : v.token_start ≤ -1) :
    v.turn s set = some (.inl { v with i := wrap 32 (v.i + 1) }) := by
  simp [Tokenizing.turn, hi, Int.not_lt.2 hstart]

/-- The end of the string behind a token. -/
theorem Tokenizing.turn_end_open (hi : v.i = s.length) (hstart : -1 < v.token_start) :
    v.turn s set = some (.inl {
      tokens := v.tokens ++ [substr s v.token_start.toNat ((v.i - v.token_start) % 2 ^ 32).toNat],
      i := wrap 32 (v.i + 1), token_start := -1 }) := by
  simp [Tokenizing.turn, hi, hstart]

/-- What stands behind the loop. -/
theorem Tokenizing.turn_behind (hi : s.length < v.i) : v.turn s set = some (.inr v.tokens) := by
  rw [Tokenizing.turn, if_neg (by omega)]

/-- A turn goes to the next position as long as the string is not passed. -/
theorem Tokenizing.turn_cases (v : Tokenizing) (s set : Str) :
    (∃ w, v.turn s set = some (.inl w) ∧ w.i = wrap 32 (v.i + 1) ∧ v.i ≤ s.length) ∨
      (v.turn s set = some (.inr v.tokens) ∧ s.length < v.i) := by
  by_cases hi : v.i ≤ s.length
  · left
    rw [Tokenizing.turn, if_pos hi]
    dsimp only
    -- which token is open, and whether it ends here, does not matter
    split <;> split <;> exact ⟨_, rfl, rfl, hi⟩
  · exact .inr ⟨Tokenizing.turn_behind (Nat.not_le.1 hi), Nat.not_le.1 hi⟩

end Turns

/-- Where a token is cut out of the string. -/
theorem substr_eq (front mid rest : Str) (h : front.length + mid.length < 2 ^ 32) :
    substr (front ++ mid ++ rest) (front.length : ℤ).toNat
      ((((front.length + mid.length : ℕ) : ℤ) - (front.length : ℤ)) % 2 ^ 32).toNat = mid := by
  have hcount : ((((front.length + mid.length : ℕ) : ℤ) - (front.length : ℤ)) % 2 ^ 32).toNat =
      mid.length := by
    omega
  rw [hcount, Int.toNat_natCast, substr, List.append_assoc, List.drop_left, List.take_left]

/-- **What the loop appends at the end of the string.** -/
theorem loop_tokenize_end (set : Str) (hs : s.length + 1 < 2 ^ 32) (tokens : List Str) (turns : ℕ) :
    (∀ t : ℤ, t ≤ -1 →
      loop (Tokenizing.turn s set) (turns + 2) ⟨tokens, s.length, t⟩ = some tokens) ∧
      ∀ front mid, s = front ++ mid →
        loop (Tokenizing.turn s set) (turns + 2) ⟨tokens, s.length, front.length⟩ =
          some (tokens ++ [mid]) := by
  have hwrap : wrap 32 (s.length + 1) = s.length + 1 := wrap_of_lt hs
  constructor
  · intro t ht
    rw [loop, Tokenizing.turn_end_closed rfl ht]
    simp only [hwrap]
    rw [loop, Tokenizing.turn_behind (Nat.lt_succ_self _)]
  · intro front mid hsplit
    have hlen : s.length = front.length + mid.length := by rw [hsplit, List.length_append]
    have hcut := substr_eq front mid [] (by omega)
    rw [List.append_nil, ← hsplit, ← hlen] at hcut
    rw [loop, Tokenizing.turn_end_open rfl (by change -1 < (front.length : ℤ); omega)]
    simp only [hwrap, hcut]
    rw [loop, Tokenizing.turn_behind (Nat.lt_succ_self _)]

/-- **What the loop appends** with no token open, with one open, and where one is lost. -/
theorem loop_tokenize (set : Str) (hs : s.length + 1 < 2 ^ 32) {turns : ℕ}
    (hturns : rest.length + 2 ≤ turns) :
    (∀ front tokens, s = front ++ rest →
      loop (Tokenizing.turn s set) turns ⟨tokens, front.length, -1⟩ =
        some (tokens ++ taken set true front.length rest)) ∧
      (∀ front mid tokens, s = front ++ mid ++ rest → front.length < 2 ^ 31 →
        loop (Tokenizing.turn s set) turns ⟨tokens, front.length + mid.length, front.length⟩ =
          some (tokens ++ (mid ++ rest.takeWhile fun c => !stringHasChar set c) ::
            taken set false (front.length + mid.length) rest)) ∧
      ∀ front tokens t, s = front ++ rest → t < -1 →
        loop (Tokenizing.turn s set) turns ⟨tokens, front.length, t⟩ = some tokens := by
  induction rest generalizing turns with
  | nil =>
    obtain ⟨turns, rfl⟩ := Nat.exists_eq_add_of_le' hturns
    rw [List.length_nil, Nat.zero_add]
    refine ⟨fun front tokens hsplit => ?_, fun front mid tokens hsplit hfront => ?_,
      fun front tokens t hsplit ht => ?_⟩
    · rw [List.append_nil] at hsplit
      subst hsplit
      rw [(loop_tokenize_end set hs tokens turns).1 _ (Int.le_refl _), taken, List.append_nil]
    · rw [List.append_nil] at hsplit
      have hlen : s.length = front.length + mid.length := by rw [hsplit, List.length_append]
      rw [← hlen, (loop_tokenize_end set hs tokens turns).2 front mid hsplit, taken]
      simp
    · rw [List.append_nil] at hsplit
      subst hsplit
      exact (loop_tokenize_end set hs tokens turns).1 t (by omega)
  | cons c cs ih =>
    cases turns with
    | zero => omega
    | succ turns =>
      rw [List.length_cons] at hturns
      obtain ⟨hidle, hopen, hlost⟩ := @ih turns (by omega)
      refine ⟨fun front tokens hsplit => ?_, fun front mid tokens hsplit hfront => ?_,
        fun front tokens t hsplit ht => ?_⟩
      · have hread : s[front.length]? = some c := by simp [hsplit]
        have hlen : s.length = front.length + cs.length + 1 := by simp [hsplit]; omega
        have hwrap : wrap 32 (front.length + 1) = front.length + 1 := wrap_of_lt (by omega)
        have hsplit' : s = front ++ [c] ++ cs := by simp [hsplit]
        rw [loop, taken]
        cases hc : stringHasChar set c with
        | true =>
          rw [Tokenizing.turn_sep_closed hread hc (Int.le_refl _), if_pos rfl]
          simpa [hwrap] using hidle (front ++ [c]) tokens hsplit'
        | false =>
          rw [Tokenizing.turn_char_closed hread hc rfl, if_neg (by decide), if_pos rfl]
          by_cases hfront : front.length < 2 ^ 31
          · -- the position fits: the token is open
            have hstart : Int.bmod front.length (2 ^ 32) = front.length :=
              Int.bmod_eq_of_le (by omega) (by omega)
            rw [if_pos hfront, List.takeWhile_cons_of_pos (by simp [hc])]
            rw [hwrap, hstart]
            exact hopen front [c] tokens hsplit' hfront
          · -- it is taken for a negative one: the token is lost
            have hstart : Int.bmod front.length (2 ^ 32) < -1 := by
              rw [Int.bmod_def, if_neg] <;> omega
            rw [if_neg hfront, List.append_nil]
            simpa [hwrap] using hlost (front ++ [c]) tokens _ hsplit' hstart
      · have hread : s[front.length + mid.length]? = some c := by
          rw [hsplit, ← List.length_append, List.getElem?_append_right (Nat.le_refl _),
            Nat.sub_self,
            List.getElem?_cons_zero]
        have hlen : s.length = front.length + mid.length + cs.length + 1 := by simp [hsplit]; omega
        have hwrap : wrap 32 (front.length + mid.length + 1) = front.length + mid.length + 1 :=
          wrap_of_lt (by omega)
        rw [loop, taken]
        cases hc : stringHasChar set c with
        | true =>
          have hcut := substr_eq front mid (c :: cs) (by omega)
          rw [← hsplit] at hcut
          rw [Tokenizing.turn_sep_open hread hc (by change -1 < (front.length : ℤ); omega),
            if_pos rfl,
            List.takeWhile_cons_of_neg (by simp [hc])]
          simp only [hcut, hwrap]
          simpa [Nat.add_assoc] using hidle (front ++ mid ++ [c]) (tokens ++ [mid])
            (by simp [hsplit])
        | false =>
          rw [Tokenizing.turn_char_open hread hc (by change (front.length : ℤ) ≠ -1; omega),
            if_neg (by decide), if_neg (by decide), List.takeWhile_cons_of_pos (by simp [hc])]
          simp only [hwrap]
          simpa [Nat.add_assoc] using hopen front (mid ++ [c]) tokens (by simp [hsplit]) hfront
      · have hread : s[front.length]? = some c := by simp [hsplit]
        have hlen : s.length = front.length + cs.length + 1 := by simp [hsplit]; omega
        have hwrap : wrap 32 (front.length + 1) = front.length + 1 := wrap_of_lt (by omega)
        have hnext := hlost (front ++ [c]) tokens t (by simp [hsplit]) ht
        rw [loop]
        cases hc : stringHasChar set c with
        | true =>
          rw [Tokenizing.turn_sep_closed hread hc (by change t ≤ -1; omega)]
          simpa [hwrap] using hnext
        | false =>
          rw [Tokenizing.turn_char_open hread hc (by change t ≠ -1; omega)]
          simpa [hwrap] using hnext

/-- **What `StringTokenize` appends.** -/
theorem stringTokenize_eq (set : Str) (hs : s.length + 1 < 2 ^ 32) (tokens : List Str) {turns : ℕ}
    (hturns : s.length + 2 ≤ turns) :
    stringTokenize turns s tokens set = some (tokens ++ taken set true 0 s) :=
  (loop_tokenize set hs hturns).1 [] tokens rfl

/-- **A string that is too long** is read for ever: the position never passes its end. -/
theorem stringTokenize_long (set : Str) (hs : 2 ^ 32 ≤ s.length + 1) (tokens : List Str)
    (turns : ℕ) : stringTokenize turns s tokens set = none := by
  rw [Option.eq_none_iff_forall_ne_some]
  intro r hr
  refine loop_rule (fun v => v.i < 2 ^ 32) (fun _ => False) ?_ ?_ (Nat.two_pow_pos 32) hr
  · intro v t _ h
    obtain ⟨w, hw, hi, -⟩ | ⟨hend, -⟩ := v.turn_cases s set
    · rw [hw] at h
      rw [← Sum.inl.inj (Option.some.inj h), hi]
      exact wrap_lt 32 _
    · rw [hend] at h
      cases Option.some.inj h
  · intro v a hv h
    obtain ⟨w, hw, -, -⟩ | ⟨-, hi⟩ := v.turn_cases s set
    · rw [hw] at h
      cases Option.some.inj h
    · omega

/-- The tokens of a string whose positions fit are its pieces. -/
theorem stringTokenize_short (set : Str) (hs : s.length < 2 ^ 31) (tokens : List Str) {turns : ℕ}
    (hturns : s.length + 2 ≤ turns) :
    stringTokenize turns s tokens set = some (tokens ++ pieces (stringHasChar set) s) := by
  have hstarts : ∀ p ∈ pieceStarts (stringHasChar set) true 0 s, p < 2 ^ 31 := fun p hp =>
    Nat.lt_trans (Nat.zero_add s.length ▸ lt_of_mem_pieceStarts hp) hs
  rw [stringTokenize_eq set (by omega) tokens hturns, pieces, (taken_eq_iff set true 0 s).2 hstarts]

/-! ### What the two are for -/

/-- `StringSingleSpaces` on a string: it leaves one with single spaces, whose tokens are those of
the string, and which it does not change. -/
def SinglesSpaces (set s : Str) : Prop :=
  ∃ turns r, stringSingleSpaces turns s set = some r ∧ SinglySpaced set r ∧
    (∃ more tokens, stringTokenize more s [] set = some tokens ∧
      stringTokenize more r [] set = some tokens) ∧
    ∃ more, stringSingleSpaces more r set = some r

/-- `StringTokenize` on a string: it appends the pieces between separators. -/
def Tokenizes (set s : Str) : Prop :=
  ∀ tokens, ∃ turns,
    stringTokenize turns s tokens set = some (tokens ++ pieces (stringHasChar set) s)

theorem singlesSpaces_of_short (hset : stringHasChar set ' ' = true) (hs : s.length < 2 ^ 31) :
    SinglesSpaces set s := by
  have hpieces : ∀ w ∈ pieces (stringHasChar set) s, IsPiece (stringHasChar set) w :=
    fun w hw => isPiece_of_mem_pieces hw
  have hsqueeze := stringSingleSpaces_eq set hs (Nat.lt_succ_self _)
  have hcut := pieces_joined hset hpieces
  have hshort : (joined ' ' (pieces (stringHasChar set) s)).length < 2 ^ 31 :=
    Nat.lt_of_le_of_lt (length_stringSingleSpaces hsqueeze) hs
  refine ⟨_, _, hsqueeze, singlySpaced_joined hset hpieces, ?_, ?_⟩
  · refine ⟨s.length + (joined ' ' (pieces (stringHasChar set) s)).length + 2, _,
      stringTokenize_short set hs [] (by omega), ?_⟩
    rw [stringTokenize_short set hshort [] (by omega), hcut]
  · refine ⟨_, (stringSingleSpaces_eq set hshort (Nat.lt_succ_self _)).trans ?_⟩
    rw [hcut]

/-- **Single spaces and tokens.**  Where the space is a separator, `StringSingleSpaces` does what it
is for exactly on strings of fewer than `2 ^ 31` characters, and `StringTokenize` exactly on those
of fewer than `2 ^ 32 - 1` in which every piece starts below `2 ^ 31`. -/
theorem spaces_and_tokens_iff (set s : Str) :
    (stringHasChar set ' ' = true → (SinglesSpaces set s ↔ s.length < 2 ^ 31)) ∧
      (Tokenizes set s ↔
        s.length < 2 ^ 32 - 1 ∧ ∀ p ∈ pieceStarts (stringHasChar set) true 0 s, p < 2 ^ 31) := by
  constructor
  · intro hset
    refine ⟨fun ⟨turns, r, hr, _⟩ => ?_, singlesSpaces_of_short hset⟩
    by_contra hlong
    rw [stringSingleSpaces_long set (Nat.not_lt.1 hlong)] at hr
    cases hr
  · constructor
    · intro h
      obtain ⟨turns, hturns⟩ := h []
      by_cases hs : s.length + 1 < 2 ^ 32
      · refine ⟨by omega, (taken_eq_iff set true 0 s).1 ?_⟩
        exact loop_unique (stringTokenize_eq set hs [] (Nat.le_refl _)) hturns
      · rw [stringTokenize_long set (Nat.not_lt.1 hs)] at hturns
        cases hturns
    · rintro ⟨hs, hstarts⟩ tokens
      refine ⟨_, (stringTokenize_eq set (by omega) tokens (Nat.le_refl _)).trans ?_⟩
      rw [(taken_eq_iff set true 0 s).2 hstarts, pieces]

/-- Runs at both ends of a string. -/
theorem spaces_and_tokens_iff_runs :
    SinglesSpaces [' ', '\t'] [' ', '\t', 'a', '\t', ' ', 'b', ' '] :=
  ((spaces_and_tokens_iff [' ', '\t'] [' ', '\t', 'a', '\t', ' ', 'b', ' ']).1 (by decide)).2
    (by decide)

/-- **A string that does not fit**: a character behind `2 ^ 31` spaces makes a position of
`StringSingleSpaces` overflow, and is a token that `StringTokenize` loses. -/
theorem spaces_too_long :
    stringHasChar [' '] ' ' = true ∧
      ¬SinglesSpaces [' '] (List.replicate (2 ^ 31) ' ' ++ ['a']) ∧
      ¬Tokenizes [' '] (List.replicate (2 ^ 31) ' ' ++ ['a']) := by
  have hstarts : ∀ n i : ℕ,
      pieceStarts (stringHasChar [' ']) true i (List.replicate n ' ' ++ ['a']) = [i + n] := by
    intro n
    induction n with
    | zero => intro i; rfl
    | succ n ih =>
      intro i
      rw [List.replicate_succ, List.cons_append, pieceStarts, if_pos (by decide), ih (i + 1),
        Nat.add_right_comm, Nat.add_assoc]
  have hlong : ∀ n, n = 2 ^ 31 → ¬SinglesSpaces [' '] (List.replicate n ' ' ++ ['a']) ∧
      ¬Tokenizes [' '] (List.replicate n ' ' ++ ['a']) := by
    intro n hn
    have hlen : (List.replicate n ' ' ++ ['a']).length = n + 1 := by
      rw [List.length_append, List.length_replicate, List.length_singleton]
    constructor
    · rintro ⟨turns, r, hr, -⟩
      rw [stringSingleSpaces_long [' '] (by omega)] at hr
      cases hr
    · intro h
      obtain ⟨turns, hturns⟩ := h []
      have hall := loop_unique (stringTokenize_eq [' '] (by omega) [] (Nat.le_refl _)) hturns
      have hlt := (taken_eq_iff [' '] true 0 _).1 hall (0 + n) (by rw [hstarts]; simp)
      omega
  exact ⟨by decide, hlong _ rfl⟩

end Codrive.Strings
