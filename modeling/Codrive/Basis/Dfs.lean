/-
# Depth first, with a cursor

A tree of tables: a node is known by its path, the indices that lead to it, deepest first, and has
a table of `width` children or none.  A loop visits a node after all nodes below it: it goes down to
the first node that has no table, visits it, and moves on to its next sibling's first node, or to
its parent.

The loop works on a state that a visit changes.  `loop_eq` says that it visits the nodes in the
order of `order`, as they were in the beginning, as long as a visit of a node changes the table of
that node alone.  Each node of the tree is in `order` once (`nodup_order`, `mem_order`), and before
its parent (`pairwise_order`).
-/

import Mathlib.Data.List.Basic
import Mathlib.Data.Nat.Notation

namespace Codrive.Basis.Dfs

variable (width : List ℕ → ℕ)

/-! ### The loop -/

/-- Down through the first children. -/
def descend (t : List ℕ → Bool) : ℕ → List ℕ → List ℕ
  | 0, p => p
  | n + 1, p => if t p then descend t n (0 :: p) else p

/-- Where the loop goes from a node, in a tree of this height. -/
def next (t : List ℕ → Bool) (height : ℕ) : List ℕ → Option (List ℕ)
  | [] => none
  | i :: p =>
    if i + 1 = width p then some p
    else some (descend t (height - (p.length + 1)) ((i + 1) :: p))

/-- The loop, for so many visits. -/
def loop {σ : Type*} (tables : σ → List ℕ → Bool) (visit : σ → List ℕ → Option σ) (height : ℕ) :
    ℕ → List ℕ → σ → Option σ
  | 0, _, _ => none
  | n + 1, p, s =>
    match visit s p with
    | none => none
    | some s' =>
      -- The loop moves on before it visits.
      match next width (tables s) height p with
      | none => some s'
      | some q => loop tables visit height n q s'

/-! ### The order -/

/-- The nodes below a node. -/
def below (t : List ℕ → Bool) : ℕ → List ℕ → List (List ℕ)
  | 0, _ => []
  | n + 1, p =>
    if t p then (List.range' 0 (width p)).flatMap fun i => below t n (i :: p) ++ [i :: p] else []

/-- All nodes. -/
def order (t : List ℕ → Bool) (height : ℕ) : List (List ℕ) := below width t height [] ++ [[]]

/-- The node is one of the tree. -/
def Inside (t : List ℕ → Bool) : List ℕ → Prop
  | [] => True
  | i :: p => Inside t p ∧ t p = true ∧ i < width p

variable {width} {t : List ℕ → Bool} {n : ℕ} {p q : List ℕ}

/-- What is below a node has a longer path. -/
theorem suffix_of_mem_below (h : q ∈ below width t n p) : p <:+ q ∧ p.length < q.length := by
  induction n generalizing p with
  | zero => exact absurd h List.not_mem_nil
  | succ n ih =>
    unfold below at h
    split_ifs at h
    · obtain ⟨i, -, hi⟩ := List.mem_flatMap.1 h
      rcases List.mem_append.1 hi with hi | hi
      · obtain ⟨hsuffix, hlen⟩ := ih hi
        rw [List.length_cons] at hlen
        exact ⟨(List.suffix_cons i p).trans hsuffix, by omega⟩
      · obtain rfl := List.mem_singleton.1 hi
        exact ⟨List.suffix_cons i p, by rw [List.length_cons]; omega⟩
    · exact absurd h List.not_mem_nil

/-- What is below two children of a node, or one of the two, is not the same. -/
theorem eq_of_suffix {i j : ℕ} (hi : (i :: p) <:+ q) (hj : (j :: p) <:+ q) : i = j := by
  have h := List.suffix_of_suffix_length_le hi hj (Nat.le_of_eq rfl)
  exact (List.cons.inj (h.eq_of_length rfl)).1

theorem mem_block {i : ℕ} (h : q ∈ below width t n (i :: p) ++ [i :: p]) : (i :: p) <:+ q := by
  rcases List.mem_append.1 h with h | h
  · exact (suffix_of_mem_below h).1
  · obtain rfl := List.mem_singleton.1 h
    exact List.suffix_rfl

/-- **The nodes of the tree**, once each and no others. -/
theorem mem_below (hheight : ∀ q, t q = true → q.length < p.length + n) (hp : Inside width t p) :
    q ∈ below width t n p ↔ Inside width t q ∧ p <:+ q ∧ p.length < q.length := by
  induction n generalizing p q with
  | zero =>
    refine iff_of_false List.not_mem_nil ?_
    rintro ⟨hq, hsuffix, hlen⟩
    cases q with
    | nil => exact absurd hlen (Nat.not_lt_zero _)
    | cons i q =>
      have hlt := hheight q hq.2.1
      rw [List.length_cons] at hlen
      omega
  | succ n ih =>
    constructor
    · intro h
      refine ⟨?_, suffix_of_mem_below h⟩
      unfold below at h
      split_ifs at h with ht
      · obtain ⟨i, hi, hmem⟩ := List.mem_flatMap.1 h
        have hlt : i < width p := by
          have := (List.mem_range'_1.1 hi).2
          omega
        have hin : Inside width t (i :: p) := ⟨hp, ht, hlt⟩
        rcases List.mem_append.1 hmem with hmem | hmem
        · refine ((ih (fun q hq => ?_) hin).1 hmem).1
          have := hheight q hq
          rw [List.length_cons]
          omega
        · obtain rfl := List.mem_singleton.1 hmem
          exact hin
      · exact absurd h List.not_mem_nil
    · rintro ⟨hq, ⟨r, rfl⟩, hlen⟩
      rw [List.length_append] at hlen
      -- The last step of the way down from `p`.
      obtain ⟨r, i, rfl⟩ : ∃ r' i, r = r' ++ [i] := by
        rcases List.eq_nil_or_concat r with rfl | ⟨r', i, rfl⟩
        · rw [List.length_nil] at hlen
          omega
        · exact ⟨r', i, List.concat_eq_append ..⟩
      rw [List.append_assoc, List.singleton_append] at hq ⊢
      have hin : Inside width t (i :: p) := by
        clear hlen ih
        induction r with
        | nil => exact hq
        | cons j r ih => exact ih hq.1
      unfold below
      rw [if_pos hin.2.1]
      refine List.mem_flatMap.2 ⟨i, List.mem_range'_1.2 ⟨Nat.zero_le _, ?_⟩, ?_⟩
      · rw [Nat.zero_add]
        exact hin.2.2
      · rcases r with _ | ⟨j, r⟩
        · exact List.mem_append_right _ (List.mem_singleton.2 rfl)
        · have hheight' : ∀ q, t q = true → q.length < (i :: p).length + n := fun q hq => by
            have := hheight q hq
            rw [List.length_cons]
            omega
          have hlen' : (i :: p).length < (j :: r ++ i :: p).length := by
            simp only [List.length_cons, List.length_append]
            omega
          exact List.mem_append_left _
            ((ih hheight' hin).2 ⟨hq, List.suffix_append (j :: r) (i :: p), hlen'⟩)

theorem mem_order {height : ℕ} (hheight : ∀ q, t q = true → q.length < height) :
    q ∈ order width t height ↔ Inside width t q := by
  have hbelow : q ∈ below width t height [] ↔ Inside width t q ∧ [] <:+ q ∧ 0 < q.length :=
    mem_below (p := []) (fun q hq => by rw [List.length_nil, Nat.zero_add]; exact hheight q hq)
      trivial
  unfold order
  rw [List.mem_append, hbelow, List.mem_singleton]
  constructor
  · rintro (h | rfl)
    · exact h.1
    · trivial
  · intro h
    rcases q with _ | ⟨i, q⟩
    · exact .inr rfl
    · exact .inl ⟨h, List.nil_suffix, Nat.succ_pos _⟩

/-- **A node is visited before its parent.** -/
theorem pairwise_below :
    (below width t n p).Pairwise fun a b => a ≠ b ∧ ∀ i, b ≠ i :: a := by
  induction n generalizing p with
  | zero => exact .nil
  | succ n ih =>
    unfold below
    split_ifs
    · rw [List.pairwise_flatMap]
      constructor
      · intro i _
        rw [List.pairwise_append]
        refine ⟨ih, List.pairwise_singleton _ _, fun a ha b hb => ?_⟩
        obtain rfl := List.mem_singleton.1 hb
        have hlen := (suffix_of_mem_below ha).2
        rw [List.length_cons] at hlen
        refine ⟨?_, fun j heq => ?_⟩
        · rintro rfl
          rw [List.length_cons] at hlen
          omega
        · rw [← (List.cons.inj heq).2] at hlen
          omega
      · refine List.Pairwise.imp_of_mem ?_ (List.pairwise_lt_range' (n := width p))
        intro i j _ _ hij a ha b hb
        have hai := mem_block ha
        have hbj := mem_block hb
        refine ⟨?_, fun k heq => ?_⟩
        · rintro rfl
          exact absurd (eq_of_suffix hai hbj) (Nat.ne_of_lt hij)
        · rw [heq] at hbj
          exact absurd (eq_of_suffix (hai.trans (List.suffix_cons k a)) hbj) (Nat.ne_of_lt hij)
    · exact .nil

theorem pairwise_order (height : ℕ) :
    (order width t height).Pairwise fun a b => a ≠ b ∧ ∀ i, b ≠ i :: a := by
  unfold order
  rw [List.pairwise_append]
  refine ⟨pairwise_below, List.pairwise_singleton _ _, fun a ha b hb => ?_⟩
  obtain rfl := List.mem_singleton.1 hb
  have hlen := (suffix_of_mem_below ha).2
  refine ⟨?_, fun i => nofun⟩
  rintro rfl
  exact absurd hlen (Nat.lt_irrefl _)

theorem nodup_order (height : ℕ) : (order width t height).Nodup :=
  (pairwise_order height).imp And.left

/-! ### What the loop does -/

section

variable {σ : Type*} {tables : σ → List ℕ → Bool} {visit : σ → List ℕ → Option σ} {height : ℕ}

/-- Visits of other nodes leave the table of a node. -/
theorem tables_of_foldlM
    (hvisit : ∀ s p s', visit s p = some s' → ∀ q, q ≠ p → tables s' q = tables s q)
    {l : List (List ℕ)} {s s' : σ} (h : l.foldlM visit s = some s') (hq : q ∉ l) :
    tables s' q = tables s q := by
  induction l generalizing s with
  | nil =>
    obtain rfl := Option.some.inj h
    rfl
  | cons p l ih =>
    rw [List.foldlM_cons] at h
    obtain ⟨s₁, h₁, h⟩ := Option.bind_eq_some_iff.1 h
    rw [List.mem_cons, not_or] at hq
    rw [ih h hq.2, hvisit s p s₁ h₁ q hq.1]

/-- The way down depends on what is below. -/
theorem descend_congr {t' : List ℕ → Bool} (h : ∀ q, p <:+ q → t' q = t q) :
    descend t' n p = descend t n p := by
  induction n generalizing p with
  | zero => rfl
  | succ n ih =>
    unfold descend
    rw [h p List.suffix_rfl, ih fun q hq => h q ((List.suffix_cons 0 p).trans hq)]

/-- **A child**, once the loop has come to it, and what comes behind it. -/
theorem loop_visit
    (hvisit : ∀ s p s', visit s p = some s' → ∀ q, q ≠ p → tables s' q = tables s q)
    {k i : ℕ} (hk : p.length + (k + 1) = height) {s : σ}
    (hs : ∀ j q, i + 1 ≤ j → (j :: p) <:+ q → tables s q = t q) (m : ℕ) (rest : List (List ℕ))
    (hend : i + 1 = width p → ∀ s₂, loop width tables visit height (m + rest.length) p s₂ =
      (rest.foldlM visit s₂).bind fun s' => loop width tables visit height m p s')
    (hnext : i + 1 ≠ width p → ∀ s₂, (∀ j q, i + 1 ≤ j → (j :: p) <:+ q → tables s₂ q = t q) →
      loop width tables visit height (m + rest.length) (descend t k ((i + 1) :: p)) s₂ =
        (rest.foldlM visit s₂).bind fun s' => loop width tables visit height m p s') :
    loop width tables visit height (m + rest.length + 1) (i :: p) s =
      (((i :: p) :: rest).foldlM visit s).bind fun s' =>
        loop width tables visit height m p s' := by
  rw [List.foldlM_cons, loop]
  cases hv : visit s (i :: p) with
  | none => rfl
  | some s₂ =>
    have hs₂ : ∀ j q, i + 1 ≤ j → (j :: p) <:+ q → tables s₂ q = t q := by
      intro j q hj hq
      rw [hvisit s (i :: p) s₂ hv q, hs j q hj hq]
      rintro rfl
      exact absurd (eq_of_suffix hq List.suffix_rfl) (by omega)
    dsimp only [Option.bind_eq_bind, Option.bind_some]
    rw [next]
    by_cases hi : i + 1 = width p
    · rw [if_pos hi]
      exact hend hi s₂
    · have hdown : descend (tables s) (height - (p.length + 1)) ((i + 1) :: p) =
          descend t k ((i + 1) :: p) := by
        rw [show height - (p.length + 1) = k by omega]
        exact descend_congr fun q hq => hs (i + 1) q (Nat.le_refl _) hq
      rw [if_neg hi, hdown]
      exact hnext hi s₂ hs₂

/-- **A subtree.**  From the first node below `p` the loop visits what is below `p`, and comes to
`p`. -/
theorem loop_below
    (hvisit : ∀ s p s', visit s p = some s' → ∀ q, q ≠ p → tables s' q = tables s q)
    (hwidth : ∀ q, t q = true → 0 < width q) (k : ℕ) (hk : p.length + k = height) {s : σ}
    (hs : ∀ q, p <:+ q → tables s q = t q) (m : ℕ) :
    loop width tables visit height (m + (below width t k p).length) (descend t k p) s =
      ((below width t k p).foldlM visit s).bind fun s' =>
        loop width tables visit height m p s' := by
  induction k generalizing p s m with
  | zero => rfl
  | succ k ih =>
    unfold below descend
    by_cases ht : t p = true
    · rw [if_pos ht, if_pos ht]
      -- From child `i` on; the induction is on how many there are behind it.
      have hchildren : ∀ r i, i + r = width p → 0 < r → ∀ s : σ,
          (∀ j q, i ≤ j → (j :: p) <:+ q → tables s q = t q) →
          loop width tables visit height
              (m + ((List.range' i r).flatMap fun i =>
                below width t k (i :: p) ++ [i :: p]).length) (descend t k (i :: p)) s =
            (((List.range' i r).flatMap fun i =>
                below width t k (i :: p) ++ [i :: p]).foldlM visit s).bind fun s' =>
              loop width tables visit height m p s' := by
        intro r
        induction r with
        | zero => exact fun i _ h0 => absurd h0 (Nat.lt_irrefl 0)
        | succ r ihr =>
          intro i hi _ s hs
          rw [List.range'_succ, List.flatMap_cons, List.append_assoc, List.singleton_append,
            List.foldlM_append, List.length_append, List.length_cons]
          generalize hrest : ((List.range' (i + 1) r).flatMap fun i =>
            below width t k (i :: p) ++ [i :: p]) = rest
          rw [show m + ((below width t k (i :: p)).length + (rest.length + 1)) =
            m + rest.length + 1 + (below width t k (i :: p)).length by omega,
            ih (by rw [List.length_cons]; omega) (hs i · (Nat.le_refl i))]
          cases hfold : (below width t k (i :: p)).foldlM visit s with
          | none => rfl
          | some s₁ =>
            dsimp only [Option.bind_eq_bind, Option.bind_some]
            refine loop_visit (t := t) hvisit hk (fun j q hj hq => ?_) m rest (fun hlast s₂ => ?_)
              fun hmore s₂ hs₂ => ?_
            · rw [tables_of_foldlM hvisit hfold, hs j q (by omega) hq]
              intro hmem
              have := eq_of_suffix hq (suffix_of_mem_below hmem).1
              omega
            · obtain rfl : r = 0 := by omega
              rw [List.range'_zero, List.flatMap_nil] at hrest
              rw [← hrest]
              rfl
            · rw [← hrest]
              exact ihr (i + 1) (by omega) (by omega) s₂ hs₂
      exact hchildren (width p) 0 (Nat.zero_add _) (hwidth p ht) s
        fun j q _ hq => hs q ((List.suffix_cons j p).trans hq)
    · rw [if_neg ht, if_neg ht]
      rfl

/-- **The loop visits the nodes of the tree in order**, each after what is below it. -/
theorem loop_eq (hvisit : ∀ s p s', visit s p = some s' → ∀ q, q ≠ p → tables s' q = tables s q)
    (hwidth : ∀ q, t q = true → 0 < width q) {s : σ} (hs : ∀ q, tables s q = t q) :
    loop width tables visit height (order width t height).length (descend t height []) s =
      (order width t height).foldlM visit s := by
  have h := loop_below hvisit hwidth height (p := []) (Nat.zero_add height) (s := s)
    (fun q _ => hs q) 1
  unfold order
  rw [List.length_append, List.length_singleton, Nat.add_comm, h, List.foldlM_append]
  refine congrArg _ (funext fun s' => ?_)
  rw [loop]
  cases hv : visit s' [] with
  | none => simp [hv]
  | some s'' => simp [next, hv]

end

end Codrive.Basis.Dfs
