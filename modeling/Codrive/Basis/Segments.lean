/-
# Values on intervals

A map from numbers to values that is constant on intervals, kept as a list of segments: an
interval tree with data, a table of address ranges with attributes.  `overlay` is the update of
such a map on an interval `[lo, hi]`: segments that stick out are cut, values inside are changed
by `g`, and the gaps get the value `w`.  What the map says afterwards at every point is
`at_overlay`, that it is a map again is `Separated.overlay`.
-/

import Mathlib.Data.List.Pairwise
import Mathlib.Data.List.Basic
import Mathlib.Order.Lattice
import Mathlib.Tactic.Common

namespace Codrive.Basis

/-- The numbers from `start` to `last`, with a value. -/
structure Seg (α : Type*) where
  start : ℕ
  last : ℕ
  val : α

variable {α β : Type*}

/-- `v` lies in the segment. -/
def Seg.Has (a : Seg α) (v : ℕ) : Prop := a.start ≤ v ∧ v ≤ a.last

/-- The segments have no number in common. -/
def Apart (a b : Seg α) : Prop := a.last < b.start ∨ b.last < a.start

theorem Apart.symm {a b : Seg α} (h : Apart a b) : Apart b a := Or.symm h

instance : Std.Symm (@Apart α) := ⟨fun _ _ => Apart.symm⟩

/-- A list of segments that gives every number one value at most, whatever its order. -/
structure Separated (l : List (Seg α)) : Prop where
  nonempty : ∀ a ∈ l, a.start ≤ a.last
  apart : l.Pairwise Apart

/-- Segments in increasing order. -/
structure Ascending (l : List (Seg α)) : Prop where
  nonempty : ∀ a ∈ l, a.start ≤ a.last
  lt : l.Pairwise fun a b => a.last < b.start

/-- The list gives `v` the value `x`. -/
def At (l : List (Seg α)) (v : ℕ) (x : α) : Prop := ∃ a ∈ l, a.Has v ∧ a.val = x

/-! ### Lists of segments -/

theorem Ascending.separated {l : List (Seg α)} (h : Ascending l) : Separated l :=
  ⟨h.nonempty, h.lt.imp Or.inl⟩

theorem Ascending.nil : Ascending ([] : List (Seg α)) := ⟨by simp, .nil⟩

theorem ascending_cons {a : Seg α} {l : List (Seg α)} : Ascending (a :: l) ↔
    a.start ≤ a.last ∧ (∀ b ∈ l, a.last < b.start) ∧ Ascending l := by
  constructor
  · intro h
    obtain ⟨ha, hl⟩ := List.forall_mem_cons.1 h.nonempty
    obtain ⟨hal, hp⟩ := List.pairwise_cons.1 h.lt
    exact ⟨ha, hal, hl, hp⟩
  · rintro ⟨ha, hal, hl, hp⟩
    exact ⟨List.forall_mem_cons.2 ⟨ha, hl⟩, .cons hal hp⟩

theorem ascending_append {l l' : List (Seg α)} : Ascending (l ++ l') ↔
    Ascending l ∧ Ascending l' ∧ ∀ a ∈ l, ∀ b ∈ l', a.last < b.start := by
  constructor
  · intro h
    obtain ⟨hl, hl', hc⟩ := List.pairwise_append.1 h.lt
    exact ⟨⟨fun a ha => h.nonempty a (List.mem_append_left _ ha), hl⟩,
      ⟨fun a ha => h.nonempty a (List.mem_append_right _ ha), hl'⟩, hc⟩
  · rintro ⟨hl, hl', hc⟩
    refine ⟨fun a ha => ?_, List.pairwise_append.2 ⟨hl.lt, hl'.lt, hc⟩⟩
    rcases List.mem_append.1 ha with ha | ha
    · exact hl.nonempty a ha
    · exact hl'.nonempty a ha

theorem separated_append {l l' : List (Seg α)} : Separated (l ++ l') ↔
    Separated l ∧ Separated l' ∧ ∀ a ∈ l, ∀ b ∈ l', Apart a b := by
  constructor
  · intro h
    obtain ⟨hl, hl', hc⟩ := List.pairwise_append.1 h.apart
    exact ⟨⟨fun a ha => h.nonempty a (List.mem_append_left _ ha), hl⟩,
      ⟨fun a ha => h.nonempty a (List.mem_append_right _ ha), hl'⟩, hc⟩
  · rintro ⟨hl, hl', hc⟩
    refine ⟨fun a ha => ?_, List.pairwise_append.2 ⟨hl.apart, hl'.apart, hc⟩⟩
    rcases List.mem_append.1 ha with ha | ha
    · exact hl.nonempty a ha
    · exact hl'.nonempty a ha

theorem Separated.perm {l l' : List (Seg α)} (h : Separated l) (hp : l.Perm l') : Separated l' :=
  ⟨fun a ha => h.nonempty a (hp.mem_iff.2 ha), (hp.pairwise_iff Apart.symm).1 h.apart⟩

theorem Ascending.filter {l : List (Seg α)} (h : Ascending l) (p : Seg α → Bool) :
    Ascending (l.filter p) :=
  ⟨fun a ha => h.nonempty a (List.mem_of_mem_filter ha), h.lt.filter p⟩

/-- Separated segments in the order of their starts are in increasing order. -/
theorem Separated.ascending {l : List (Seg α)} (h : Separated l)
    (hs : l.Pairwise fun a b => a.start ≤ b.start) : Ascending l := by
  refine ⟨h.nonempty, (h.apart.and hs).imp_of_mem fun {a b} ha hb hab => ?_⟩
  have := h.nonempty a ha
  have := h.nonempty b hb
  obtain ⟨hap | hap, hle⟩ := hab <;> omega

/-- Two different segments of a separated list have no number in common. -/
theorem Separated.eq_of_has {l : List (Seg α)} (h : Separated l) {a b : Seg α} (ha : a ∈ l)
    (hb : b ∈ l) {v : ℕ} (hav : a.Has v) (hbv : b.Has v) : a = b := by
  by_contra hne
  have hap : Apart a b := h.apart.forall ha hb hne
  obtain ⟨h₁, h₂⟩ := hav
  obtain ⟨h₃, h₄⟩ := hbv
  rcases hap with hlt | hlt <;> omega

/-- A separated list gives a number one value at most. -/
theorem Separated.at_unique {l : List (Seg α)} (h : Separated l) {v : ℕ} {x y : α}
    (hx : At l v x) (hy : At l v y) : x = y := by
  obtain ⟨a, ha, hav, rfl⟩ := hx
  obtain ⟨b, hb, hbv, rfl⟩ := hy
  rw [h.eq_of_has ha hb hav hbv]

@[simp] theorem at_nil {v : ℕ} {x : α} : ¬At ([] : List (Seg α)) v x := by
  simp [At]

theorem at_cons {a : Seg α} {l : List (Seg α)} {v : ℕ} {x : α} :
    At (a :: l) v x ↔ a.Has v ∧ a.val = x ∨ At l v x := by
  simp [At]

theorem at_append {l l' : List (Seg α)} {v : ℕ} {x : α} :
    At (l ++ l') v x ↔ At l v x ∨ At l' v x := by
  simp [At, or_and_right, exists_or]

theorem at_perm {l l' : List (Seg α)} (h : l.Perm l') {v : ℕ} {x : α} :
    At l v x ↔ At l' v x := by
  simp [At, h.mem_iff]

/-- A segment there is if the condition holds. -/
theorem at_ite {c : Prop} [Decidable c] {a : Seg α} {v : ℕ} {x : α} :
    At (if c then [a] else []) v x ↔ c ∧ a.Has v ∧ a.val = x := by
  split_ifs with h <;> simp [At, h]

theorem ascending_ite {c : Prop} [Decidable c] {a : Seg α} (h : c → a.start ≤ a.last) :
    Ascending (if c then [a] else []) := by
  split_ifs with hc
  · exact ascending_cons.2 ⟨h hc, by simp, .nil⟩
  · exact .nil

theorem mem_ite_singleton {c : Prop} [Decidable c] {a b : Seg α} :
    b ∈ (if c then [a] else []) ↔ c ∧ b = a := by
  split_ifs with h <;> simp [h]

/-! ### Overlay -/

section Overlay

variable (g : α → α) (w : α)

/-- A segment that meets `[lo, hi]`, cut at its ends: the middle part gets a new value. -/
def cut (lo hi : ℕ) (a : Seg α) : List (Seg α) :=
  (if a.start < lo then [⟨a.start, lo - 1, a.val⟩] else []) ++
    (⟨max lo a.start, min hi a.last, g a.val⟩ ::
      if hi < a.last then [⟨hi + 1, a.last, a.val⟩] else [])

/-- The part of `[lo, hi]` in front of the segment `a`. -/
def gap (lo : ℕ) (a : Seg α) : List (Seg α) :=
  if lo < a.start then [⟨lo, a.start - 1, w⟩] else []

/-- The segments that meet `[lo, hi]`, cut at its ends, and the gaps between them filled. -/
def fill (hi : ℕ) : ℕ → List (Seg α) → List (Seg α)
  | lo, [] => if lo ≤ hi then [⟨lo, hi, w⟩] else []
  | lo, a :: l => gap w lo a ++ cut g lo hi a ++ fill hi (min a.last hi + 1) l

/-- The segment meets `[lo, hi]`. -/
def Meets (lo hi : ℕ) (a : Seg α) : Prop := a.start ≤ hi ∧ lo ≤ a.last

instance (lo hi : ℕ) (a : Seg α) : Decidable (Meets lo hi a) :=
  inferInstanceAs (Decidable (_ ∧ _))

/-- The update of a map on `[lo, hi]`. -/
def overlay (lo hi : ℕ) (l : List (Seg α)) : List (Seg α) :=
  l.filter (¬Meets lo hi ·) ++ fill g w hi lo (l.filter (Meets lo hi ·))

variable {g w} {lo hi : ℕ} {a : Seg α} {l : List (Seg α)}

/-- What the segments behind `a` have to do with what is left of `[lo, hi]`. -/
theorem meets_rest (h : Ascending (a :: l)) (hm : ∀ b ∈ a :: l, Meets lo hi b) :
    ∀ b ∈ l, min a.last hi + 1 ≤ b.start ∧ Meets (min a.last hi + 1) hi b := by
  intro b hb
  obtain ⟨-, hal, hl⟩ := ascending_cons.1 h
  have h₁ := hal b hb
  have h₂ := hl.nonempty b hb
  have h₃ := (hm b (List.mem_cons_of_mem _ hb)).1
  refine ⟨by omega, h₃, by omega⟩

/-- There is room for the segments behind `a`, if there are any. -/
theorem room_rest (h : Ascending (a :: l)) (hm : ∀ b ∈ a :: l, Meets lo hi b) :
    l = [] ∨ min a.last hi + 1 ≤ hi := by
  cases l with
  | nil => exact .inl rfl
  | cons b l =>
    obtain ⟨h₁, h₂, -⟩ := meets_rest h hm b List.mem_cons_self
    exact .inr (Nat.le_trans h₁ h₂)

theorem mem_gap {b : Seg α} : b ∈ gap w lo a ↔ lo < a.start ∧ b = ⟨lo, a.start - 1, w⟩ :=
  mem_ite_singleton

theorem mem_cut {b : Seg α} : b ∈ cut g lo hi a ↔
    (a.start < lo ∧ b = ⟨a.start, lo - 1, a.val⟩) ∨
      b = ⟨max lo a.start, min hi a.last, g a.val⟩ ∨
        (hi < a.last ∧ b = ⟨hi + 1, a.last, a.val⟩) := by
  rw [cut, List.mem_append, mem_ite_singleton, List.mem_cons, mem_ite_singleton]

/-- A part of a segment lies in it, one of a gap before it. -/
theorem cut_within (ha : a.start ≤ a.last) (hm : Meets lo hi a) (hlh : lo ≤ hi) {b : Seg α}
    (hb : b ∈ cut g lo hi a) : a.start ≤ b.start ∧ b.start ≤ b.last ∧ b.last ≤ a.last := by
  obtain ⟨h₁, h₂⟩ := hm
  rcases mem_cut.1 hb with ⟨hlt, rfl⟩ | rfl | ⟨hlt, rfl⟩ <;> dsimp only <;> omega

/-- **Every part lies in `[lo, hi]` or in one of the segments.** -/
theorem fill_within (h : Ascending l) (hm : ∀ b ∈ l, Meets lo hi b) (hlh : l = [] ∨ lo ≤ hi)
    {b : Seg α} (hb : b ∈ fill g w hi lo l) : b.start ≤ b.last ∧
      (lo ≤ b.start ∧ b.last ≤ hi ∨ ∃ a ∈ l, a.start ≤ b.start ∧ b.last ≤ a.last) := by
  induction l generalizing lo with
  | nil =>
    obtain ⟨hle, rfl⟩ := mem_ite_singleton.1 hb
    exact ⟨hle, .inl ⟨Nat.le_refl _, Nat.le_refl _⟩⟩
  | cons a l ih =>
    obtain ⟨ha, -, hl⟩ := ascending_cons.1 h
    have hma := hm a List.mem_cons_self
    have hlh' : lo ≤ hi := hlh.resolve_left (by simp)
    rcases List.mem_append.1 hb with hb | hb
    · rcases List.mem_append.1 hb with hb | hb
      · obtain ⟨hlt, rfl⟩ := mem_gap.1 hb
        obtain ⟨h₁, h₂⟩ := hma
        exact ⟨by dsimp only; omega, .inl ⟨Nat.le_refl _, by dsimp only; omega⟩⟩
      · obtain ⟨h₁, h₂, h₃⟩ := cut_within ha hma hlh' hb
        exact ⟨h₂, .inr ⟨a, List.mem_cons_self, h₁, h₃⟩⟩
    · obtain ⟨hle, h₁ | ⟨c, hc, h₁⟩⟩ :=
        ih hl (fun b hb => (meets_rest h hm b hb).2) (room_rest h hm) hb
      · exact ⟨hle, .inl ⟨by have := hma.2; omega, h₁.2⟩⟩
      · exact ⟨hle, .inr ⟨c, List.mem_cons_of_mem _ hc, h₁⟩⟩

theorem cut_ascending (ha : a.start ≤ a.last) (hm : Meets lo hi a) (hlh : lo ≤ hi) :
    Ascending (cut g lo hi a) := by
  obtain ⟨h₁, h₂⟩ := hm
  refine ascending_append.2 ⟨ascending_ite fun h => by dsimp only; omega,
    ascending_cons.2 ⟨by dsimp only; omega, fun b hb => ?_,
      ascending_ite fun h => by dsimp only; omega⟩, fun b hb c hc => ?_⟩
  · obtain ⟨hlt, rfl⟩ := mem_ite_singleton.1 hb
    dsimp only
    omega
  · obtain ⟨hlt, rfl⟩ := mem_ite_singleton.1 hb
    rcases List.mem_cons.1 hc with rfl | hc
    · dsimp only
      omega
    · obtain ⟨hlt, rfl⟩ := mem_ite_singleton.1 hc
      dsimp only
      omega

/-- **The parts are in order.** -/
theorem fill_ascending (h : Ascending l) (hm : ∀ b ∈ l, Meets lo hi b) (hlh : l = [] ∨ lo ≤ hi) :
    Ascending (fill g w hi lo l) := by
  induction l generalizing lo with
  | nil => exact ascending_ite id
  | cons a l ih =>
    obtain ⟨ha, hal, hl⟩ := ascending_cons.1 h
    have hma := hm a List.mem_cons_self
    have hrest := meets_rest h hm
    have hroom := room_rest h hm
    have hlh' : lo ≤ hi := hlh.resolve_left (by simp)
    have hgap : Ascending (gap w lo a) := ascending_ite fun h => by dsimp only; omega
    refine ascending_append.2 ⟨ascending_append.2 ⟨hgap, cut_ascending ha hma hlh', ?_⟩,
      ih hl (fun b hb => (hrest b hb).2) hroom, ?_⟩
    · intro b hb c hc
      obtain ⟨hlt, rfl⟩ := mem_gap.1 hb
      have := (cut_within ha hma hlh' hc).1
      dsimp only
      omega
    · intro b hb c hc
      -- a part behind `hi` means that nothing is left to fill
      have hc' : min a.last hi + 1 ≤ c.start ∧ min a.last hi + 1 ≤ hi := by
        obtain ⟨hle, h₁ | ⟨d, hd, h₁⟩⟩ :=
          fill_within hl (fun b hb => (hrest b hb).2) hroom hc
        · exact ⟨h₁.1, by omega⟩
        · obtain ⟨h₂, h₃, -⟩ := hrest d hd
          exact ⟨by omega, by omega⟩
      obtain ⟨h₁, h₂⟩ := hma
      rcases List.mem_append.1 hb with hb | hb
      · obtain ⟨hlt, rfl⟩ := mem_gap.1 hb
        dsimp only
        omega
      · have := cut_within ha ⟨h₁, h₂⟩ hlh' hb
        omega

theorem at_gap {v : ℕ} {x : α} : At (gap w lo a) v x ↔ lo ≤ v ∧ v < a.start ∧ x = w := by
  rw [gap, at_ite]
  constructor
  · rintro ⟨hlt, ⟨h₁, h₂⟩, rfl⟩
    dsimp only at h₁ h₂
    exact ⟨h₁, by omega, rfl⟩
  · rintro ⟨h₁, h₂, rfl⟩
    exact ⟨by omega, ⟨h₁, by dsimp only; omega⟩, rfl⟩

theorem at_cut (hm : Meets lo hi a) {v : ℕ} {x : α} : At (cut g lo hi a) v x ↔
    a.Has v ∧ x = if lo ≤ v ∧ v ≤ hi then g a.val else a.val := by
  rw [cut, at_append, at_ite, at_cons, at_ite]
  obtain ⟨h₁, h₂⟩ := hm
  unfold Seg.Has
  constructor
  · rintro (⟨hlt, hv, rfl⟩ | ⟨hv, rfl⟩ | ⟨hlt, hv, rfl⟩) <;> dsimp only at hv
    · rw [if_neg (by omega)]
      exact ⟨by omega, rfl⟩
    · rw [if_pos (by omega)]
      exact ⟨by omega, rfl⟩
    · rw [if_neg (by omega)]
      exact ⟨by omega, rfl⟩
  · rintro ⟨hv, rfl⟩
    rcases Nat.lt_or_ge v lo with h₃ | h₃
    · rw [if_neg (by omega)]
      exact .inl ⟨by omega, by dsimp only; omega, rfl⟩
    rcases Nat.lt_or_ge hi v with h₄ | h₄
    · rw [if_neg (by omega)]
      exact .inr (.inr ⟨by omega, by dsimp only; omega, rfl⟩)
    · rw [if_pos ⟨h₃, h₄⟩]
      exact .inr (.inl ⟨by dsimp only; omega, rfl⟩)

/-- **What the filled list says**, at a point of `[lo, hi]` and at one outside. -/
theorem at_fill (h : Ascending l) (hm : ∀ b ∈ l, Meets lo hi b) (hlh : l = [] ∨ lo ≤ hi) {v : ℕ}
    {x : α} : At (fill g w hi lo l) v x ↔
      if lo ≤ v ∧ v ≤ hi then (∃ y, At l v y ∧ x = g y) ∨ (∀ y, ¬At l v y) ∧ x = w
      else At l v x := by
  induction l generalizing lo with
  | nil =>
    rw [fill, at_ite]
    split_ifs with hv
    · constructor
      · rintro ⟨-, -, rfl⟩
        exact .inr ⟨fun _ => at_nil, rfl⟩
      · rintro (⟨y, hy, -⟩ | ⟨-, rfl⟩)
        · exact absurd hy at_nil
        · exact ⟨by omega, hv, rfl⟩
    · constructor
      · rintro ⟨-, hv', -⟩
        exact absurd hv' hv
      · intro hx
        exact absurd hx at_nil
  | cons a l ih =>
    obtain ⟨ha, hal, hl⟩ := ascending_cons.1 h
    have hma := hm a List.mem_cons_self
    have hrest := meets_rest h hm
    rw [fill, at_append, at_append, at_gap, at_cut hma,
      ih hl (fun b hb => (hrest b hb).2) (room_rest h hm)]
    obtain ⟨h₁, h₂⟩ := hma
    -- the segments behind `a` say nothing up to its end
    have hbehind : v ≤ a.last → ∀ y, ¬At l v y := by
      rintro hv y ⟨b, hb, hbv, -⟩
      have := hal b hb
      have := hbv.1
      omega
    simp only [at_cons]
    rcases Nat.lt_or_ge a.last v with hv | hv
    · -- behind the segment, what is left decides
      have hav : ¬a.Has v := fun hc => by have := hc.2; omega
      have hgap : ¬(lo ≤ v ∧ v < a.start ∧ x = w) := fun hc => by omega
      have hiff : (min a.last hi + 1 ≤ v ∧ v ≤ hi) ↔ lo ≤ v ∧ v ≤ hi := by omega
      simp only [hav, hgap, hiff, false_and, false_or]
    · have hno := hbehind hv
      have hiff : ¬(min a.last hi + 1 ≤ v ∧ v ≤ hi) := by omega
      simp only [hno, hiff, if_false, or_false]
      rcases Nat.lt_or_ge v a.start with hva | hva
      · -- before it, the gap
        have hav : ¬a.Has v := fun hc => by have := hc.1; omega
        simp only [hav, hva, false_and, or_false, true_and, exists_false, false_or,
          not_false_eq_true, implies_true]
        split_ifs with hin
        · simp only [hin.1, true_and]
        · simp only [iff_false]
          rintro ⟨hlo, -⟩
          exact hin ⟨hlo, by omega⟩
      · have hav : a.Has v := ⟨hva, hv⟩
        have hgap : ¬(lo ≤ v ∧ v < a.start ∧ x = w) := fun hc => by omega
        simp only [hav, hgap, true_and, false_or]
        split_ifs with hin
        · constructor
          · intro hx
            exact .inl ⟨a.val, rfl, hx⟩
          · rintro (⟨y, rfl, hx⟩ | ⟨hy, -⟩)
            · exact hx
            · exact absurd rfl (hy a.val)
        · exact eq_comm

/-- The segments that meet `[lo, hi]` and those that do not. -/
theorem at_filter_meets (lo hi : ℕ) (l : List (Seg α)) (v : ℕ) (x : α) :
    At l v x ↔ At (l.filter (¬Meets lo hi ·)) v x ∨ At (l.filter (Meets lo hi ·)) v x := by
  simp only [At, List.mem_filter, decide_eq_true_eq]
  constructor
  · rintro ⟨a, ha, hv⟩
    by_cases hm : Meets lo hi a
    · exact .inr ⟨a, ⟨ha, hm⟩, hv⟩
    · exact .inl ⟨a, ⟨ha, hm⟩, hv⟩
  · rintro (⟨a, ⟨ha, -⟩, hv⟩ | ⟨a, ⟨ha, -⟩, hv⟩) <;> exact ⟨a, ha, hv⟩

theorem not_at_filter_not_meets {v : ℕ} (hv : lo ≤ v ∧ v ≤ hi) (x : α) :
    ¬At (l.filter (¬Meets lo hi ·)) v x := by
  rintro ⟨a, ha, hav, -⟩
  obtain ⟨-, hm⟩ := List.mem_filter.1 ha
  exact (of_decide_eq_true hm) ⟨by have := hav.1; omega, by have := hav.2; omega⟩

theorem meets_of_mem_filter : ∀ a ∈ l.filter (Meets lo hi ·), Meets lo hi a :=
  fun _ ha => of_decide_eq_true (List.mem_filter.1 ha).2

/-- **The updated list gives every number one value at most.** -/
theorem Ascending.separated_overlay (h : Ascending l) (hlh : lo ≤ hi) :
    Separated (overlay g w lo hi l) := by
  have hm := h.filter (Meets lo hi ·)
  refine separated_append.2 ⟨(h.filter _).separated,
    (fill_ascending hm meets_of_mem_filter (.inr hlh)).separated, ?_⟩
  intro a ha b hb
  obtain ⟨ha, hna⟩ := List.mem_filter.1 ha
  have hna : ¬(a.start ≤ hi ∧ lo ≤ a.last) := of_decide_eq_true hna
  have hle := h.nonempty a ha
  obtain ⟨hbl, hb | ⟨c, hc, hcb⟩⟩ := fill_within hm meets_of_mem_filter (.inr hlh) hb
  · unfold Apart
    omega
  · obtain ⟨hc, hmc⟩ := List.mem_filter.1 hc
    have hne : a ≠ c := by
      rintro rfl
      exact hna (of_decide_eq_true hmc)
    have hap : a.last < c.start ∨ c.last < a.start := h.separated.apart.forall ha hc hne
    unfold Apart
    omega

/-- **What the updated list says**, at a point of `[lo, hi]` and at one outside. -/
theorem Ascending.at_overlay (h : Ascending l) (hlh : lo ≤ hi) {v : ℕ} {x : α} :
    At (overlay g w lo hi l) v x ↔
      if lo ≤ v ∧ v ≤ hi then (∃ y, At l v y ∧ x = g y) ∨ (∀ y, ¬At l v y) ∧ x = w
      else At l v x := by
  rw [overlay, Basis.at_append, at_fill (h.filter _) meets_of_mem_filter (.inr hlh)]
  split_ifs with hv
  · have hno := not_at_filter_not_meets (l := l) hv
    have hiff : ∀ y, At l v y ↔ At (l.filter (Meets lo hi ·)) v y := fun y => by
      rw [at_filter_meets lo hi l v y]
      simp only [hno, false_or]
    simp only [hno, hiff, false_or]
  · exact (at_filter_meets lo hi l v x).symm

end Overlay

end Codrive.Basis
