/-
# Page tables in memory

Tables of several levels in one memory.  A table of level `n` has `fan n` entries; an entry of level
0 links to what a key is mapped to, an entry of a level above links to a table of the level below,
by the number of the page that it is in.  The keys below one entry of level `n` are `weight n` many.

A table is written in pages that other tables can share by mistake, so what is proved of one table
needs that no page is used twice (`Tree`).  Then a new or changed table below one entry leaves the
keys of the other entries as they are (`tree_set`, `walk_set`), and a write to a page that is used
by no table below leaves all of them (`congr_of_owns`).
-/

import Mathlib.Data.Nat.Basic
import Mathlib.Logic.Function.Basic
import Mathlib.Tactic.Common

namespace Codrive.Basis.PageTree

variable {ε : Type} (link : ε → Option ℕ) (fan : ℕ → ℕ)

/-- How many keys an entry of level `n` is for. -/
def weight : ℕ → ℕ
  | 0 => 1
  | n + 1 => fan n * weight n

/-- The entry of a key in its table of level `n`. -/
def digit (n v : ℕ) : ℕ := v / weight fan n % fan n

/-- What a key is mapped to, from a table of level `n` with these entries. -/
def walk : ℕ → (ℕ → ℕ → ε) → (ℕ → ε) → ℕ → Option ℕ
  | 0, _, page, v => link (page (digit fan 0 v))
  | n + 1, mem, page, v =>
    (link (page (digit fan (n + 1) v))).bind fun f => walk n mem (mem f) v

/-- The page is used by a table below. -/
def Owns : ℕ → (ℕ → ℕ → ε) → (ℕ → ε) → ℕ → Prop
  | 0, _, _, _ => False
  | n + 1, mem, page, g =>
    ∃ i < fan (n + 1), ∃ f, link (page i) = some f ∧ (g = f ∨ Owns n mem (mem f) g)

/-- The page is used by the table in page `f`, or by one below it. -/
def Sub (n : ℕ) (mem : ℕ → ℕ → ε) (f g : ℕ) : Prop := g = f ∨ Owns link fan n mem (mem f) g

/-- No page is used twice below. -/
def Tree : ℕ → (ℕ → ℕ → ε) → (ℕ → ε) → Prop
  | 0, _, _ => True
  | n + 1, mem, page =>
    (∀ i < fan (n + 1), ∀ f, link (page i) = some f →
      Tree n mem (mem f) ∧ ¬Owns link fan n mem (mem f) f) ∧
    ∀ i < fan (n + 1), ∀ j < fan (n + 1), i ≠ j → ∀ f f', link (page i) = some f →
      link (page j) = some f' → ∀ g, Sub link fan n mem f g → ¬Sub link fan n mem f' g

variable {link fan} {n : ℕ} {mem mem' : ℕ → ℕ → ε} {page : ℕ → ε}

/-- With no entry that links, nothing is used and nothing is mapped. -/
theorem empty_table (h : ∀ i, link (page i) = none) :
    Tree link fan n mem page ∧ (∀ g, ¬Owns link fan n mem page g) ∧
      ∀ v, walk link fan n mem page v = none := by
  cases n with
  | zero => exact ⟨trivial, fun _ => id, fun v => h _⟩
  | succ n =>
    refine ⟨⟨fun i _ f hf => ?_, fun i _ j _ _ f f' hf => ?_⟩, ?_, fun v => ?_⟩
    · rw [h] at hf
      cases hf
    · rw [h] at hf
      cases hf
    · rintro g ⟨i, -, f, hf, -⟩
      rw [h] at hf
      cases hf
    · rw [walk, h, Option.bind_none]

/-! ### Writes elsewhere -/

/-- Where no table below uses a page, the page does not count. -/
theorem congr_of_owns (hfan : ∀ n, 0 < fan n)
    (h : ∀ g, Owns link fan n mem page g → mem' g = mem g) :
    (∀ g, Owns link fan n mem' page g ↔ Owns link fan n mem page g) ∧
      (Tree link fan n mem' page ↔ Tree link fan n mem page) ∧
        walk link fan n mem' page = walk link fan n mem page := by
  induction n generalizing page with
  | zero => exact ⟨fun _ => Iff.rfl, Iff.rfl, rfl⟩
  | succ n ih =>
    have hmem : ∀ i < fan (n + 1), ∀ f, link (page i) = some f → mem' f = mem f :=
      fun i hi f hf => h f ⟨i, hi, f, hf, .inl rfl⟩
    have hbelow : ∀ i < fan (n + 1), ∀ f, link (page i) = some f →
        (∀ g, Owns link fan n mem' (mem f) g ↔ Owns link fan n mem (mem f) g) ∧
          (Tree link fan n mem' (mem f) ↔ Tree link fan n mem (mem f)) ∧
            walk link fan n mem' (mem f) = walk link fan n mem (mem f) :=
      fun i hi f hf => ih fun g hg => h g ⟨i, hi, f, hf, .inr hg⟩
    have hsub : ∀ i < fan (n + 1), ∀ f, link (page i) = some f → ∀ g,
        (Sub link fan n mem' f g ↔ Sub link fan n mem f g) := fun i hi f hf g => by
      rw [Sub, Sub, hmem i hi f hf, (hbelow i hi f hf).1]
    refine ⟨fun g => ?_, ?_, ?_⟩
    · constructor
      · rintro ⟨i, hi, f, hf, hg⟩
        exact ⟨i, hi, f, hf, (hsub i hi f hf g).1 hg⟩
      · rintro ⟨i, hi, f, hf, hg⟩
        exact ⟨i, hi, f, hf, (hsub i hi f hf g).2 hg⟩
    · refine and_congr (forall₂_congr fun i hi => forall₂_congr fun f hf => ?_)
        (forall₂_congr fun i hi => forall₂_congr fun j hj => forall_congr' fun _ =>
          forall₂_congr fun f f' => forall₂_congr fun hf hf' => forall_congr' fun g => ?_)
      · rw [hmem i hi f hf, (hbelow i hi f hf).2.1, (hbelow i hi f hf).1]
      · rw [hsub i hi f hf, hsub j hj f' hf']
    · funext v
      rw [walk, walk]
      cases hl : link (page (digit fan (n + 1) v)) with
      | none => rfl
      | some f =>
        have hi : digit fan (n + 1) v < fan (n + 1) := Nat.mod_lt _ (hfan _)
        rw [Option.bind_some, Option.bind_some, hmem _ hi f hl, (hbelow _ hi f hl).2.2]

/-- A write to a page that no table below uses leaves what is below. -/
theorem congr_of_update (hfan : ∀ n, 0 < fan n) {f : ℕ} (hf : ¬Owns link fan n mem page f)
    (new : ℕ → ε) :
    (∀ g, Owns link fan n (Function.update mem f new) page g ↔ Owns link fan n mem page g) ∧
      (Tree link fan n (Function.update mem f new) page ↔ Tree link fan n mem page) ∧
        walk link fan n (Function.update mem f new) page = walk link fan n mem page :=
  congr_of_owns hfan fun g hg => by
    have hne : g ≠ f := by
      rintro rfl
      exact hf hg
    exact Function.update_of_ne hne ..

/-! ### A new table below one entry -/

/-- Entry `i` of the table is to link to the table in page `f`; what that table uses, and what was
written, was below the entry before, or below none. -/
structure Replaced (link : ε → Option ℕ) (fan : ℕ → ℕ) (n : ℕ) (mem mem' : ℕ → ℕ → ε)
    (page : ℕ → ε) (i f : ℕ) : Prop where
  tree : Tree link fan n mem' (mem' f)
  not_owns : ¬Owns link fan n mem' (mem' f) f
  touched : ∀ g, Sub link fan n mem' f g ∨ mem' g ≠ mem g →
    (link (page i) = some f ∧ Sub link fan n mem f g) ∨ ¬Owns link fan (n + 1) mem page g

variable {i f : ℕ} {e : ε}

/-- The tables below the other entries are not written. -/
theorem Replaced.other (h : Replaced link fan n mem mem' page i f)
    (ht : Tree link fan (n + 1) mem page) (hi : i < fan (n + 1)) {j f' : ℕ} (hj : j < fan (n + 1))
    (hij : j ≠ i) (hf' : link (page j) = some f') {g : ℕ} (hg : Sub link fan n mem f' g) :
    ¬Sub link fan n mem' f g ∧ mem' g = mem g := by
  have hnot : ¬(Sub link fan n mem' f g ∨ mem' g ≠ mem g) := by
    intro htouched
    obtain ⟨hf, hold⟩ | hnew := h.touched g htouched
    · exact ht.2 j hj i hi hij f' f hf' hf g hg hold
    · exact hnew ⟨j, hj, f', hf', hg⟩
  exact ⟨fun hsub => hnot (.inl hsub), not_not.1 fun hne => hnot (.inr hne)⟩

/-- What is below another entry is as it was. -/
theorem Replaced.congr (h : Replaced link fan n mem mem' page i f) (hfan : ∀ n, 0 < fan n)
    (ht : Tree link fan (n + 1) mem page) (hi : i < fan (n + 1)) {j f' : ℕ} (hj : j < fan (n + 1))
    (hij : j ≠ i) (hf' : link (page j) = some f') :
    (∀ g, Owns link fan n mem' (mem' f') g ↔ Owns link fan n mem (mem f') g) ∧
      (Tree link fan n mem' (mem' f') ↔ Tree link fan n mem (mem f')) ∧
        walk link fan n mem' (mem' f') = walk link fan n mem (mem f') := by
  have hmem : mem' f' = mem f' := (h.other ht hi hj hij hf' (.inl rfl)).2
  rw [hmem]
  exact congr_of_owns hfan fun g hg => (h.other ht hi hj hij hf' (.inr hg)).2

/-- The pages of the table below another entry are those it had. -/
theorem Replaced.sub_iff (h : Replaced link fan n mem mem' page i f) (hfan : ∀ n, 0 < fan n)
    (ht : Tree link fan (n + 1) mem page) (hi : i < fan (n + 1)) {j f' : ℕ} (hj : j < fan (n + 1))
    (hij : j ≠ i) (hf' : link (page j) = some f') (g : ℕ) :
    Sub link fan n mem' f' g ↔ Sub link fan n mem f' g :=
  or_congr Iff.rfl ((h.congr hfan ht hi hj hij hf').1 g)

/-- **A new table below one entry** keeps it that no page is used twice. -/
theorem tree_set (h : Replaced link fan n mem mem' page i f) (hfan : ∀ n, 0 < fan n)
    (ht : Tree link fan (n + 1) mem page) (hi : i < fan (n + 1)) (he : link e = some f) :
    Tree link fan (n + 1) mem' (Function.update page i e) := by
  constructor
  · intro j hj f' hf'
    by_cases hij : j = i
    · subst hij
      rw [Function.update_self, he] at hf'
      cases hf'
      exact ⟨h.tree, h.not_owns⟩
    · rw [Function.update_of_ne hij] at hf'
      obtain ⟨howns, htree, -⟩ := h.congr hfan ht hi hj hij hf'
      obtain ⟨hold, hnot⟩ := ht.1 j hj f' hf'
      exact ⟨htree.2 hold, fun hcon => hnot ((howns f').1 hcon)⟩
  · intro j hj k hk hjk f₁ f₂ h₁ h₂ g hg
    by_cases hji : j = i
    · subst hji
      have hkj : k ≠ j := fun heq => hjk heq.symm
      rw [Function.update_self, he] at h₁
      rw [Function.update_of_ne hkj] at h₂
      cases h₁
      rw [h.sub_iff hfan ht hi hk hkj h₂]
      exact fun hsub => (h.other ht hi hk hkj h₂ hsub).1 hg
    · rw [Function.update_of_ne hji] at h₁
      rw [h.sub_iff hfan ht hi hj hji h₁] at hg
      by_cases hki : k = i
      · subst hki
        rw [Function.update_self, he] at h₂
        cases h₂
        exact (h.other ht hi hj hji h₁ hg).1
      · rw [Function.update_of_ne hki] at h₂
        rw [h.sub_iff hfan ht hi hk hki h₂]
        exact ht.2 j hj k hk hjk f₁ f₂ h₁ h₂ g hg

/-- What is used below then is what was used, and what the new table uses. -/
theorem owns_set (h : Replaced link fan n mem mem' page i f) (hfan : ∀ n, 0 < fan n)
    (ht : Tree link fan (n + 1) mem page) (hi : i < fan (n + 1)) (he : link e = some f) {g : ℕ}
    (hg : Owns link fan (n + 1) mem' (Function.update page i e) g) :
    Owns link fan (n + 1) mem page g ∨ Sub link fan n mem' f g := by
  obtain ⟨j, hj, f', hf', hg⟩ := hg
  by_cases hij : j = i
  · subst hij
    rw [Function.update_self, he] at hf'
    cases hf'
    exact .inr hg
  · rw [Function.update_of_ne hij] at hf'
    exact .inl ⟨j, hj, f', hf', (h.sub_iff hfan ht hi hj hij hf' g).1 hg⟩

/-- **The keys of the other entries** are mapped to what they were mapped to. -/
theorem walk_set (h : Replaced link fan n mem mem' page i f) (hfan : ∀ n, 0 < fan n)
    (ht : Tree link fan (n + 1) mem page) (hi : i < fan (n + 1)) (he : link e = some f) (v : ℕ) :
    walk link fan (n + 1) mem' (Function.update page i e) v =
      if digit fan (n + 1) v = i then walk link fan n mem' (mem' f) v
      else walk link fan (n + 1) mem page v := by
  by_cases hv : digit fan (n + 1) v = i
  · rw [if_pos hv, walk, hv, Function.update_self, he, Option.bind_some]
  · rw [if_neg hv, walk, walk, Function.update_of_ne hv]
    cases hl : link (page (digit fan (n + 1) v)) with
    | none => rfl
    | some f' =>
      have hj : digit fan (n + 1) v < fan (n + 1) := Nat.mod_lt _ (hfan _)
      rw [Option.bind_some, Option.bind_some, (h.congr hfan ht hi hj hv hl).2.2]

end Codrive.Basis.PageTree
