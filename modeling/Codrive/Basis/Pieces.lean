/-
# Pieces between separators

A list cut at the elements that are separators: its pieces are the longest stretches without one, in
their order, and `pieceStarts` tells where they start.  Pieces joined with single separators are the
pieces of what they are joined to (`pieces_joined`).
-/

import Mathlib.Data.List.Basic

namespace Codrive.Basis

variable {α : Type*} {sep : α → Bool} {space : α} {fresh : Bool} {i : ℕ} {l w : List α}
  {ws : List (List α)}

/-- The pieces that start in a list, where `fresh` tells that no piece runs into it: each is the
longest stretch without a separator from where it starts. -/
def piecesFrom (sep : α → Bool) : Bool → List α → List (List α)
  | _, [] => []
  | fresh, c :: cs =>
    if sep c then piecesFrom sep true cs
    else if fresh then (c :: cs).takeWhile (fun c => !sep c) :: piecesFrom sep false cs
    else piecesFrom sep false cs

/-- The pieces of a list. -/
def pieces (sep : α → Bool) (l : List α) : List (List α) := piecesFrom sep true l

/-- The positions where the pieces start, where the list itself starts at `i`. -/
def pieceStarts (sep : α → Bool) : Bool → ℕ → List α → List ℕ
  | _, _, [] => []
  | fresh, i, c :: cs =>
    if sep c then pieceStarts sep true (i + 1) cs
    else if fresh then i :: pieceStarts sep false (i + 1) cs
    else pieceStarts sep false (i + 1) cs

/-- What a piece can be. -/
def IsPiece (sep : α → Bool) (w : List α) : Prop := w ≠ [] ∧ ∀ c ∈ w, sep c = false

/-- Pieces with one separator between them. -/
def joined (space : α) (ws : List (List α)) : List α := [space].intercalate ws

/-- Pieces with one separator in front of each. -/
def spaced (space : α) (ws : List (List α)) : List α := ws.flatMap fun w => space :: w

@[simp] theorem spaced_nil : spaced space [] = [] := rfl

@[simp] theorem spaced_cons : spaced space (w :: ws) = space :: w ++ spaced space ws := by
  simp [spaced]

theorem joined_cons (w : List α) (ws : List (List α)) :
    joined space (w :: ws) = w ++ spaced space ws := by
  induction ws generalizing w with
  | nil => simp [joined]
  | cons v ws ih =>
    have hnext := ih v
    rw [joined] at hnext ⊢
    rw [List.intercalate_cons_cons, hnext, spaced_cons]
    simp

theorem lt_of_mem_pieceStarts {p : ℕ} (hp : p ∈ pieceStarts sep fresh i l) : p < i + l.length := by
  induction l generalizing fresh i with
  | nil => cases hp
  | cons c cs ih =>
    have hnext : ∀ {fresh : Bool}, p ∈ pieceStarts sep fresh (i + 1) cs →
        p < i + (c :: cs).length := by
      intro fresh hp
      have hlt := ih hp
      rw [List.length_cons]
      omega
    rw [pieceStarts] at hp
    split at hp
    · exact hnext hp
    · split at hp
      · rcases List.mem_cons.1 hp with rfl | hp
        · simp
        · exact hnext hp
      · exact hnext hp

theorem pieces_cons_of_sep {c : α} (cs : List α) (hc : sep c = true) :
    piecesFrom sep fresh (c :: cs) = pieces sep cs := by
  rw [piecesFrom, if_pos hc, pieces]

theorem pieces_cons_of_not_sep {c : α} (cs : List α) (hc : sep c = false) :
    pieces sep (c :: cs) =
      (c :: cs.takeWhile fun c => !sep c) :: piecesFrom sep false cs := by
  rw [pieces, piecesFrom, if_neg (by simp [hc]), if_pos rfl,
    List.takeWhile_cons_of_pos (by simp [hc])]

theorem piecesFrom_cons_of_not_sep {c : α} (cs : List α) (hc : sep c = false) :
    piecesFrom sep false (c :: cs) = piecesFrom sep false cs := by
  rw [piecesFrom, if_neg (by simp [hc]), if_neg (by decide)]

theorem isPiece_of_mem_piecesFrom (hw : w ∈ piecesFrom sep fresh l) : IsPiece sep w := by
  induction l generalizing fresh with
  | nil => cases hw
  | cons c cs ih =>
    rw [piecesFrom] at hw
    split at hw
    · exact ih hw
    · rename_i hc
      split at hw
      · rcases List.mem_cons.1 hw with rfl | hw
        · constructor
          · rw [List.takeWhile_cons_of_pos (by simpa using hc)]
            exact List.cons_ne_nil _ _
          · intro d hd
            simpa using List.all_eq_true.1 List.all_takeWhile d hd
        · exact ih hw
      · exact ih hw

/-- **Pieces have no separator in them**, and are not empty. -/
theorem isPiece_of_mem_pieces (hw : w ∈ pieces sep l) : IsPiece sep w :=
  isPiece_of_mem_piecesFrom hw

/-- The rest of a piece has no start of another. -/
theorem piecesFrom_append (hw : ∀ c ∈ w, sep c = false) (l : List α) :
    piecesFrom sep false (w ++ l) = piecesFrom sep false l := by
  induction w with
  | nil => rfl
  | cons c cs ih =>
    rw [List.cons_append, piecesFrom_cons_of_not_sep _ (hw c List.mem_cons_self)]
    exact ih fun d hd => hw d (List.mem_cons_of_mem c hd)

theorem takeWhile_spaced (hspace : sep space = true) (hw : ∀ c ∈ w, sep c = false) :
    (w ++ spaced space ws).takeWhile (fun c => !sep c) = w := by
  rw [List.takeWhile_append_of_pos (by simpa using hw)]
  cases ws with
  | nil => simp
  | cons v ws => simp [hspace]

theorem piecesFrom_spaced (hspace : sep space = true) (hws : ∀ w ∈ ws, IsPiece sep w) :
    piecesFrom sep fresh (spaced space ws) = ws := by
  induction ws generalizing fresh with
  | nil => rfl
  | cons w ws ih =>
    obtain ⟨hne, hw⟩ := hws w List.mem_cons_self
    rw [spaced_cons, List.cons_append, pieces_cons_of_sep _ hspace]
    cases w with
    | nil => exact absurd rfl hne
    | cons c cs =>
      have hrest : ∀ d ∈ cs, sep d = false := fun d hd => hw d (List.mem_cons_of_mem c hd)
      rw [List.cons_append, pieces_cons_of_not_sep _ (hw c List.mem_cons_self),
        takeWhile_spaced hspace hrest, piecesFrom_append hrest,
        ih fun v hv => hws v (List.mem_cons_of_mem _ hv)]

/-- **Joined pieces are cut into the pieces.** -/
theorem pieces_joined (hspace : sep space = true) (hws : ∀ w ∈ ws, IsPiece sep w) :
    pieces sep (joined space ws) = ws := by
  cases ws with
  | nil => rfl
  | cons w ws =>
    have hcut : piecesFrom sep true (spaced space (w :: ws)) = w :: ws :=
      piecesFrom_spaced hspace hws
    rw [spaced_cons, List.cons_append, pieces_cons_of_sep _ hspace, ← joined_cons] at hcut
    exact hcut

end Codrive.Basis
