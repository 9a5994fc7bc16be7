/-
# Words between delimiters

A list cut at a delimiter, with the empty pieces left out, and words joined with a delimiter behind
each.  Cutting gives words back (`tokens_unwords`), so that joined words are the same only if the
words are (`unwords_inj`).
-/

import Mathlib.Data.List.Basic

namespace Codrive.Basis

variable {α : Type*} {delim : α} {start w l : List α} {ws vs : List (List α)}

/-- Words with a delimiter behind each. -/
def unwords (delim : α) (ws : List (List α)) : List α := ws.flatMap fun w => w ++ [delim]

@[simp] theorem unwords_nil : unwords delim [] = [] := rfl

@[simp] theorem unwords_append : unwords delim (ws ++ vs) = unwords delim ws ++ unwords delim vs :=
  List.flatMap_append

variable [DecidableEq α]

/-- The pieces of a list between delimiters, where `start` is in front of the first one. -/
def tokensFrom (delim : α) (start : List α) : List α → List (List α)
  | [] => if start = [] then [] else [start]
  | c :: cs =>
    if c = delim then
      if start = [] then tokensFrom delim [] cs else start :: tokensFrom delim [] cs
    else tokensFrom delim (start ++ [c]) cs

/-- The pieces of a list between delimiters. -/
def tokens (delim : α) (l : List α) : List (List α) := tokensFrom delim [] l

/-- What a piece can be. -/
def IsWord (delim : α) (w : List α) : Prop := w ≠ [] ∧ delim ∉ w

theorem isWord_of_mem_tokensFrom (hstart : delim ∉ start) (hw : w ∈ tokensFrom delim start l) :
    IsWord delim w := by
  induction l generalizing start with
  | nil =>
    rw [tokensFrom] at hw
    split at hw
    · cases hw
    · rename_i hne
      obtain rfl := List.mem_singleton.1 hw
      exact ⟨hne, hstart⟩
  | cons c cs ih =>
    rw [tokensFrom] at hw
    split at hw
    · split at hw
      · exact ih List.not_mem_nil hw
      · rename_i hne
        rcases List.mem_cons.1 hw with rfl | hw
        · exact ⟨hne, hstart⟩
        · exact ih List.not_mem_nil hw
    · rename_i hc
      refine ih ?_ hw
      simp only [List.mem_append, List.mem_singleton, not_or]
      exact ⟨hstart, Ne.symm hc⟩

/-- **Pieces are words.** -/
theorem isWord_of_mem_tokens (hw : w ∈ tokens delim l) : IsWord delim w :=
  isWord_of_mem_tokensFrom List.not_mem_nil hw

theorem tokensFrom_append (hw : delim ∉ w) :
    tokensFrom delim start (w ++ delim :: l) =
      if start ++ w = [] then tokens delim l else (start ++ w) :: tokens delim l := by
  induction w generalizing start with
  | nil => rw [List.nil_append, tokensFrom, if_pos rfl, List.append_nil, tokens]
  | cons c cs ih =>
    obtain ⟨hc, hcs⟩ := not_or.1 (mt List.mem_cons.2 hw)
    rw [List.cons_append, tokensFrom, if_neg (Ne.symm hc), ih hcs]
    simp

/-- **Joined words are cut into the words.** -/
theorem tokens_unwords (h : ∀ w ∈ ws, IsWord delim w) : tokens delim (unwords delim ws) = ws := by
  induction ws with
  | nil => rfl
  | cons w ws ih =>
    obtain ⟨hne, hw⟩ := h w List.mem_cons_self
    have hcons : unwords delim (w :: ws) = w ++ delim :: unwords delim ws := by
      simp [unwords]
    rw [hcons, tokens, tokensFrom_append hw, List.nil_append, if_neg hne,
      ih fun v hv => h v (List.mem_cons_of_mem _ hv)]

theorem unwords_inj (hw : ∀ w ∈ ws, IsWord delim w) (hv : ∀ v ∈ vs, IsWord delim v) :
    unwords delim ws = unwords delim vs ↔ ws = vs := by
  refine ⟨fun h => ?_, congrArg _⟩
  rw [← tokens_unwords hw, h, tokens_unwords hv]

end Codrive.Basis
