/-
# Depth first, node by node

What `Codrive.Basis.Dfs.next` makes of the order: in the list of the nodes below `p`, and `p` behind
them, it leads from every node to the one behind it (`isChain_below`), and the way down from `p`
leads to the first (`head_below`).  No node stands before one below it (`pairwise_not_suffix`), so
that what the step to a node reads has not been visited.  From a node in the middle the steps never
lead back (`Behind.next`).
-/

import Codrive.Basis.Dfs
import Mathlib.Data.List.Chain

namespace Codrive.Basis.Dfs

variable {width : List ℕ → ℕ} {t t' : List ℕ → Bool} {n height : ℕ} {p q a b z : List ℕ}

/-- **No node stands before one below it.** -/
theorem pairwise_not_suffix : (below width t n p ++ [p]).Pairwise fun a b => ¬a <:+ b := by
  have happ : ∀ {n p}, (below width t n p).Pairwise (fun a b => ¬a <:+ b) →
      (below width t n p ++ [p]).Pairwise fun a b => ¬a <:+ b := by
    intro n p h
    refine List.pairwise_append.2 ⟨h, List.pairwise_singleton _ _, fun a ha b hb hab => ?_⟩
    obtain rfl := List.mem_singleton.1 hb
    exact absurd hab.length_le (Nat.not_le.2 (suffix_of_mem_below ha).2)
  refine happ ?_
  induction n generalizing p with
  | zero => exact .nil
  | succ n ih =>
    unfold below
    split_ifs
    · rw [List.pairwise_flatMap]
      constructor
      · exact fun i _ => happ ih
      · refine List.Pairwise.imp_of_mem ?_ (List.pairwise_lt_range' (n := width p))
        intro i j _ _ hij a ha b hb hab
        exact absurd (eq_of_suffix ((mem_block ha).trans hab) (mem_block hb)) (Nat.ne_of_lt hij)
    · exact .nil

/-- No node stands twice. -/
theorem nodup_below : (below width t n p ++ [p]).Nodup := by
  refine List.Pairwise.imp ?_ pairwise_not_suffix
  rintro a _ hab rfl
  exact hab List.suffix_rfl

/-- The way down leads to the first node. -/
theorem head_below (hwidth : ∀ q, t q = true → 0 < width q) (n : ℕ) (p : List ℕ) :
    ∃ rest, below width t n p ++ [p] = descend t n p :: rest := by
  induction n generalizing p with
  | zero => exact ⟨[], rfl⟩
  | succ n ih =>
    unfold below descend
    by_cases ht : t p = true
    · obtain ⟨w, hw⟩ : ∃ w, width p = w + 1 := ⟨width p - 1, by have := hwidth p ht; omega⟩
      obtain ⟨rest, hrest⟩ := ih (0 :: p)
      rw [if_pos ht, if_pos ht, hw, List.range'_succ, List.flatMap_cons, hrest]
      exact ⟨_, rfl⟩
    · rw [if_neg ht, if_neg ht]
      exact ⟨[], rfl⟩

/-- **From every node to the one behind it.** -/
theorem isChain_below (hwidth : ∀ q, t q = true → 0 < width q) (hk : p.length + n = height) :
    (below width t n p ++ [p]).IsChain fun a b => next width t height a = some b := by
  induction n generalizing p with
  | zero => exact .singleton p
  | succ n ih =>
    unfold below
    by_cases ht : t p = true
    · rw [if_pos ht]
      -- From child `i` on; the induction is on how many there are.
      have hchildren : ∀ r i, i + (r + 1) = width p →
          ((List.range' i (r + 1)).flatMap (fun i => below width t n (i :: p) ++ [i :: p]) ++
            [p]).IsChain fun a b => next width t height a = some b := by
        intro r
        induction r with
        | zero =>
          intro i hi
          rw [List.range'_one, List.flatMap_singleton]
          refine (ih (by rw [List.length_cons]; omega)).append (.singleton p) ?_
          intro a ha b hb
          rw [List.getLast?_concat, Option.mem_some_iff] at ha
          obtain rfl : p = b := Option.some.inj hb
          rw [← ha, next, if_pos hi]
        | succ r ihr =>
          intro i hi
          obtain ⟨rest, hrest⟩ := head_below hwidth n ((i + 1) :: p)
          rw [List.range'_succ, List.flatMap_cons, List.append_assoc]
          refine (ih (by rw [List.length_cons]; omega)).append (ihr (i + 1) (by omega)) ?_
          intro a ha b hb
          rw [List.getLast?_concat, Option.mem_some_iff] at ha
          rw [List.range'_succ, List.flatMap_cons, hrest] at hb
          obtain rfl : descend t n ((i + 1) :: p) = b := Option.some.inj hb
          rw [← ha, next, if_neg (by omega), show height - (p.length + 1) = n by omega]
      obtain ⟨w, hw⟩ : ∃ w, width p = w + 1 := ⟨width p - 1, by have := hwidth p ht; omega⟩
      rw [hw]
      exact hchildren w 0 (by omega)
    · rw [if_neg ht]
      exact .singleton p

/-- Down goes further down. -/
theorem suffix_descend (t : List ℕ → Bool) (n : ℕ) (p : List ℕ) : p <:+ descend t n p := by
  induction n generalizing p with
  | zero => exact List.suffix_rfl
  | succ n ih =>
    unfold descend
    split
    · exact (List.suffix_cons 0 p).trans (ih (0 :: p))
    · exact List.suffix_rfl

/-- The way down reads the nodes that it passes. -/
theorem descend_congr_suffix (h : ∀ q, q <:+ descend t n p → t' q = t q) :
    descend t' n p = descend t n p := by
  induction n generalizing p with
  | zero => rfl
  | succ n ih =>
    have hp : t' p = t p := h p (suffix_descend t (n + 1) p)
    unfold descend at h ⊢
    rw [hp]
    by_cases ht : t p = true
    · rw [if_pos ht] at h ⊢
      rw [if_pos ht]
      exact ih h
    · rw [if_neg ht, if_neg ht]

/-- The step to a node reads that node and the nodes above it. -/
theorem next_congr (hnext : next width t height a = some b) (h : ∀ q, q <:+ b → t' q = t q) :
    next width t' height a = some b := by
  cases a with
  | nil => exact hnext
  | cons i p =>
    rw [next] at hnext ⊢
    split_ifs at hnext ⊢
    · exact hnext
    · obtain rfl := Option.some.inj hnext
      exact congrArg some (descend_congr_suffix h)

/-- `a` comes behind `z` in the order: it is above `z`, or below a later sibling. -/
def Behind (z a : List ℕ) : Prop :=
  (a <:+ z ∧ a ≠ z) ∨ ∃ s i j, i < j ∧ (i :: s) <:+ z ∧ (j :: s) <:+ a

theorem not_behind_self (z : List ℕ) : ¬Behind z z := by
  rintro (⟨-, hne⟩ | ⟨s, i, j, hij, hi, hj⟩)
  · exact hne rfl
  · exact absurd (eq_of_suffix hi hj) (Nat.ne_of_lt hij)

/-- What is below a node behind comes behind, if its siblings do. -/
theorem Behind.below {s : List ℕ} {i j : ℕ} (hij : i < j) (hz : (i :: s) <:+ z)
    (ha : (j :: s) <:+ a) : Behind z a :=
  .inr ⟨s, i, j, hij, hz, ha⟩

/-- **The steps do not lead back**, whatever the tables have become. -/
theorem Behind.next (h : Behind z a) (hnext : next width t height a = some b) : Behind z b := by
  cases a with
  | nil => cases hnext
  | cons k p =>
    rw [Dfs.next] at hnext
    split_ifs at hnext
    · obtain rfl := Option.some.inj hnext
      obtain ⟨hsuffix, -⟩ | ⟨s, i, j, hij, hi, hj⟩ := h
      · refine .inl ⟨(List.suffix_cons k p).trans hsuffix, ?_⟩
        rintro rfl
        exact absurd hsuffix.length_le (by rw [List.length_cons]; omega)
      · rcases List.suffix_cons_iff.1 hj with heq | hj
        · obtain ⟨rfl, rfl⟩ := List.cons.inj heq
          refine .inl ⟨(List.suffix_cons i s).trans hi, ?_⟩
          rintro rfl
          exact absurd hi.length_le (by rw [List.length_cons]; omega)
        · exact .below hij hi hj
    · obtain rfl := Option.some.inj hnext
      have hdown := suffix_descend t (height - (p.length + 1)) ((k + 1) :: p)
      obtain ⟨hsuffix, -⟩ | ⟨s, i, j, hij, hi, hj⟩ := h
      · exact .below (Nat.lt_succ_self k) hsuffix hdown
      · rcases List.suffix_cons_iff.1 hj with heq | hj
        · obtain ⟨rfl, rfl⟩ := List.cons.inj heq
          exact .below (Nat.lt_succ_of_lt hij) hi hdown
        · exact .below hij hi (hj.trans ((List.suffix_cons (k + 1) p).trans hdown))

end Codrive.Basis.Dfs
