/-
# What an allocation does

The nodes are asked for one after the other, with the numbers of pages that `Request.requests`
lists (`insertNodes_eq`).  A refusal gives back what was taken (`alloc_error`).

A request that is `Whole` gets nodes of its size, as many as were counted (`alloc_ok`):

- The size is a multiple of the page, and its pages fit into 32 bits.
- In one node it is below 4 GiB: the shift of the pages is one of 32 bits.
- In several, no node has 4 GiB or more, the division of the pages does not overflow, and where the
  address is not that of a huge page the first node has a page at least.
-/

import Codrive.Memobj.Allocation
import Mathlib.Algebra.BigOperators.Ring.List
import Mathlib.Data.List.Perm.Basic
import Mathlib.Tactic.Ring

namespace Codrive.Memobj

open Codrive.Basis

/-- The bytes of this number of pages, in 32 bits. -/
def bytes (pages : ℕ) : ℕ := wrap 32 (pages <<< PAGE_SHIFT)

theorem bytes_of_lt {pages : ℕ} (h : pages < 2 ^ 20) : bytes pages = pages * 4096 := by
  have hpage : 2 ^ PAGE_SHIFT = 4096 := rfl
  unfold bytes
  rw [Nat.shiftLeft_eq, hpage]
  exact wrap_of_lt (by omega)

/-! ### Splitting -/

/-- Pages in groups of `per`, and the rest. -/
def chunks (per : ℕ) : ℕ → ℕ → List ℕ
  | 0, left => if 0 < left then [left] else []
  | fuel + 1, left =>
    if per < left then per :: chunks per fuel (left - per) else if 0 < left then [left] else []

theorem chunks_sum (per fuel left : ℕ) : (chunks per fuel left).sum = left := by
  induction fuel generalizing left with
  | zero =>
    unfold chunks
    split_ifs
    · rfl
    · exact (Nat.eq_zero_of_not_pos ‹_›).symm
  | succ fuel ih =>
    unfold chunks
    split_ifs with hper hpos
    · rw [List.sum_cons, ih]
      omega
    · rfl
    · exact (Nat.eq_zero_of_not_pos hpos).symm

theorem chunks_length {per fuel left : ℕ} (hper : 0 < per) (hfuel : left ≤ fuel) :
    (chunks per fuel left).length = (left + per - 1) / per := by
  induction fuel generalizing left with
  | zero =>
    obtain rfl := Nat.le_zero.1 hfuel
    exact (Nat.div_eq_of_lt (by omega)).symm
  | succ fuel ih =>
    unfold chunks
    split_ifs with hlt hpos
    · have hstep : left + per - 1 = (left - per + per - 1) + per := by omega
      rw [List.length_cons, ih (by omega), hstep, Nat.add_div_right _ hper]
    · have hstep : left + per - 1 = (left - 1) + per := by omega
      rw [hstep, Nat.add_div_right _ hper, Nat.div_eq_of_lt (by omega)]
      rfl
    · exact (Nat.div_eq_of_lt (by omega)).symm

/-- A group has `per` pages, or all that is left. -/
theorem mem_chunks {per fuel left p : ℕ} (h : p ∈ chunks per fuel left) (hfuel : left ≤ fuel)
    (hper : 0 < per) : p ≤ left ∧ p ≤ per := by
  induction fuel generalizing left with
  | zero =>
    obtain rfl := Nat.le_zero.1 hfuel
    exact absurd h List.not_mem_nil
  | succ fuel ih =>
    unfold chunks at h
    split_ifs at h with hlt hpos
    · rcases List.mem_cons.1 h with rfl | h
      · exact ⟨by omega, Nat.le_refl _⟩
      · have hrest := ih h (by omega)
        exact ⟨by omega, hrest.2⟩
    · obtain rfl := List.mem_singleton.1 h
      exact ⟨Nat.le_refl _, by omega⟩
    · exact absurd h List.not_mem_nil

namespace Request

variable (mgr : VmMgr) (r : Request)

/-- The pages of the nodes that are asked for, in order. -/
def requests : List ℕ :=
  let first := r.pageCountFirstNode mgr
  (if first ≠ 0 then [first] else []) ++
    chunks (r.pageCountPerNode mgr) (r.pageCount - first) (r.pageCount - first)

/-- **The request is split into nodes of its size**, as many as are counted. -/
structure Whole : Prop where
  pages : r.size % 4096 = 0
  size : r.size < 2 ^ 44
  one : r.oneNode → 0 < r.size ∧ r.size < 2 ^ 32
  first : ¬r.oneNode → r.misaligned mgr → r.pageCountFirstNode mgr ≠ 0
  count : ¬r.oneNode →
    r.pageCount - r.pageCountFirstNode mgr + r.pageCountPerNode mgr ≤ 2 ^ 32
  node : ¬r.oneNode → r.pageCountPerNode mgr < 2 ^ 20 ∨
    r.pageCount - r.pageCountFirstNode mgr < 2 ^ 20

/-- One of the nodes that are asked for is refused, before the array is full. -/
def Refused (env : Env) (node_count : ℕ) : Prop :=
  ∃ k pages, k ≤ node_count ∧ (r.requests mgr)[k]? = some pages ∧
    (bytes pages = 0 ∨ env.hole k ⟨bytes pages, r.align, r.base, r.bound⟩ = none)

variable {mgr r}

theorem pageCountFirstNode_le : r.pageCountFirstNode mgr ≤ r.pageCount := by
  unfold pageCountFirstNode
  split_ifs
  · exact Nat.zero_le _
  · exact Nat.min_le_right ..
  · exact Nat.zero_le _

/-- The next huge page is less than 4 GiB away. -/
theorem round_up_sub_lt {x y : ℕ} (hx : x < 2 ^ 64) (hpos : 0 < x) :
    sub64 (round_up x y) x < 2 ^ 32 := by
  have hmask := wrap_lt 32 (y + (2 ^ 32 - 1))
  have hsub : sub64 x 1 = x - 1 := sub64_of_le hpos hx
  unfold round_up
  rw [hsub]
  generalize wrap 32 (y + (2 ^ 32 - 1)) = m at hmask ⊢
  have hhigh : ((x - 1) ||| m) / 2 ^ 32 = (x - 1) / 2 ^ 32 := by
    rw [← Nat.shiftRight_eq_div_pow, Nat.shiftRight_or_distrib, Nat.shiftRight_eq_div_pow,
      Nat.shiftRight_eq_div_pow, Nat.div_eq_of_lt hmask, Nat.or_zero]
  have hge : x - 1 ≤ (x - 1) ||| m := Nat.left_le_or
  have hlt : (x - 1) ||| m < 2 ^ 64 := Nat.or_lt_two_pow (by omega) (by omega)
  generalize (x - 1) ||| m = z at hhigh hge hlt
  unfold sub64 u64 wrap
  omega

theorem pageCountFirstNode_lt : r.pageCountFirstNode mgr < 2 ^ 20 := by
  unfold pageCountFirstNode
  split_ifs with hone hmis
  · decide
  · have hpos : 0 < r.va := by
      rcases Nat.eq_zero_or_pos r.va with h0 | h0
      · unfold misaligned at hmis
        rw [h0] at hmis
        simp [IS_ALIGNED] at hmis
      · exact h0
    have hlt := round_up_sub_lt (y := mgr.huge_page_size) r.va_lt hpos
    have hpage : 2 ^ PAGE_SHIFT = 4096 := rfl
    rw [Nat.shiftRight_eq_div_pow, hpage]
    unfold wrap
    omega
  · decide

theorem requests_sum : (r.requests mgr).sum = r.pageCount := by
  have hle := @pageCountFirstNode_le mgr r
  unfold requests
  dsimp only
  rw [List.sum_append, chunks_sum]
  split_ifs with h0
  · rw [List.sum_singleton]
    omega
  · rw [List.sum_nil, not_not.1 h0]
    omega

/-- Rounding up in 32 bits, where nothing overflows. -/
theorem DIV_ROUND_UP_eq {n d : ℕ} (hd : 0 < d) (h : n + d ≤ 2 ^ 32) :
    DIV_ROUND_UP n d = some ((n + d - 1) / d) := by
  have hwrap : wrap 32 (n + d + (2 ^ 32 - 1)) = n + d - 1 := by
    unfold wrap
    omega
  unfold DIV_ROUND_UP
  rw [if_neg (Nat.pos_iff_ne_zero.1 hd), hwrap]

theorem Whole.pageCount_mul (h : r.Whole mgr) : r.pageCount * 4096 = r.size := by
  have hpages := h.pages
  have hsize := h.size
  have hpage : 2 ^ PAGE_SHIFT = 4096 := rfl
  unfold pageCount
  rw [Nat.shiftRight_eq_div_pow, hpage, wrap_of_lt (by omega)]
  omega

/-- As many nodes are asked for as there is room for. -/
theorem Whole.length_requests {n : ℕ} (h : r.Whole mgr) (hn : r.nodeCount mgr = some n) :
    (r.requests mgr).length = n := by
  have hmul := h.pageCount_mul
  unfold nodeCount at hn
  unfold requests
  dsimp only
  by_cases hone : r.oneNode
  · rw [if_pos hone] at hn
    obtain rfl := Option.some.inj hn
    have hper : r.pageCountPerNode mgr = r.pageCount := by
      unfold pageCountPerNode
      rw [if_pos hone]
    have hfirst : r.pageCountFirstNode mgr = 0 := by
      unfold pageCountFirstNode
      rw [if_pos hone]
    have hpos : 0 < r.pageCount := by
      have := (h.one hone).1
      omega
    rw [hper, hfirst, if_neg (not_not.2 rfl), List.nil_append, Nat.sub_zero,
      chunks_length hpos (Nat.le_refl _), show r.pageCount + r.pageCount - 1 =
        r.pageCount - 1 + r.pageCount by omega, Nat.add_div_right _ hpos,
      Nat.div_eq_of_lt (by omega)]
  · rw [if_neg hone] at hn
    obtain ⟨m, hm, hn⟩ := Option.bind_eq_some_iff.1 hn
    obtain rfl := Option.some.inj hn
    have hper : 0 < r.pageCountPerNode mgr := by
      refine Nat.pos_of_ne_zero fun h0 => ?_
      rw [h0] at hm
      exact nomatch hm
    rw [DIV_ROUND_UP_eq hper (h.count hone)] at hm
    obtain rfl := Option.some.inj hm
    have hcount := h.count hone
    have hle := @pageCountFirstNode_le mgr r
    have hpc : r.pageCount < 2 ^ 32 := wrap_lt 32 _
    have hdiv : (r.pageCount - r.pageCountFirstNode mgr + r.pageCountPerNode mgr - 1) /
        r.pageCountPerNode mgr ≤ r.pageCount - r.pageCountFirstNode mgr := by
      rw [Nat.div_le_iff_le_mul_add_pred hper]
      have := Nat.le_mul_of_pos_left (r.pageCount - r.pageCountFirstNode mgr) hper
      omega
    rw [List.length_append, chunks_length hper (Nat.le_refl _)]
    by_cases hmis : r.misaligned mgr
    · have hfirst := h.first hone hmis
      rw [if_pos hfirst, if_pos hmis, wrap_of_lt (by omega)]
      rfl
    · have hfirst : r.pageCountFirstNode mgr = 0 := by
        unfold pageCountFirstNode
        rw [if_neg hone, if_neg hmis]
      rw [if_neg (not_not.2 hfirst), if_neg hmis, wrap_of_lt (by omega)]
      rfl

/-- No node has 4 GiB. -/
theorem Whole.lt_of_mem {p : ℕ} (h : r.Whole mgr) (hn : (r.nodeCount mgr).isSome)
    (hp : p ∈ r.requests mgr) : p < 2 ^ 20 := by
  have hmul := h.pageCount_mul
  unfold requests at hp
  rcases List.mem_append.1 hp with hp | hp
  · split_ifs at hp
    · obtain rfl := List.mem_singleton.1 hp
      exact pageCountFirstNode_lt
    · exact absurd hp List.not_mem_nil
  · by_cases hone : r.oneNode
    · have hper : r.pageCountPerNode mgr = r.pageCount := by
        unfold pageCountPerNode
        rw [if_pos hone]
      have hsize := h.one hone
      have hbound := mem_chunks hp (Nat.le_refl _) (by omega)
      omega
    · have hper : 0 < r.pageCountPerNode mgr := by
        refine Nat.pos_of_ne_zero fun h0 => ?_
        unfold nodeCount at hn
        rw [if_neg hone, h0] at hn
        exact nomatch hn
      have hbound := mem_chunks hp (Nat.le_refl _) hper
      have hnode := h.node hone
      omega

/-- The bytes of the nodes are those of the object. -/
theorem Whole.bytes_sum (h : r.Whole mgr) (hn : (r.nodeCount mgr).isSome) :
    ((r.requests mgr).map bytes).sum = r.size := by
  have hbytes : (r.requests mgr).map bytes = (r.requests mgr).map (· * 4096) :=
    List.map_congr_left fun p hp => bytes_of_lt (h.lt_of_mem hn hp)
  rw [hbytes, List.sum_map_mul_right, List.map_id', requests_sum, h.pageCount_mul]

end Request

/-! ### Inserting -/

section

variable {mgr : VmMgr} {r : Request} {env : Env} {n : ℕ}

/-- What `drm_mm_insert_node_in_range` is asked for. -/
def Request.drm (r : Request) (pages : ℕ) : DrmRequest := ⟨bytes pages, r.align, r.base, r.bound⟩

/-- The node is refused. -/
theorem insertNode_refused {t : Taken} {pages : ℕ}
    (h : bytes pages = 0 ∨ env.hole t.mm_node_array.length (r.drm pages) = none) :
    insertNode r env n t pages = some (true, t) := by
  unfold insertNode
  dsimp only
  rcases Nat.eq_zero_or_pos (bytes pages) with h0 | hpos
  · exact if_pos h0
  · have hne := Nat.pos_iff_ne_zero.1 hpos
    have hhole : env.hole t.mm_node_array.length
        ⟨wrap 32 (pages <<< PAGE_SHIFT), r.align, r.base, r.bound⟩ = none := h.resolve_left hne
    refine (if_neg hne).trans ?_
    rw [hhole]

/-- The node is inserted. -/
theorem insertNode_inserted {t : Taken} {pages start : ℕ} (hpos : bytes pages ≠ 0)
    (h : env.hole t.mm_node_array.length (r.drm pages) = some start) :
    insertNode r env n t pages =
      if t.mm_node_array.length < n then
        some (false, ⟨⟨start, bytes pages, true⟩ :: t.mm,
          t.mm_node_array ++ [⟨start, bytes pages, true⟩]⟩)
      else none := by
  have hhole : env.hole t.mm_node_array.length
      ⟨wrap 32 (pages <<< PAGE_SHIFT), r.align, r.base, r.bound⟩ = some start := h
  unfold insertNode
  dsimp only
  refine (if_neg hpos).trans ?_
  rw [hhole]
  rfl

/-- One node after the other, as long as none is refused. -/
def insertAll (r : Request) (env : Env) (n : ℕ) : List ℕ → Taken → Option (Bool × Taken)
  | [], t => some (false, t)
  | pages :: rest, t =>
    (insertNode r env n t pages).bind fun p =>
      if p.1 then some (true, p.2) else insertAll r env n rest p.2

/-- The loop and the rest after it. -/
theorem insertHugePages_eq (fuel left : ℕ) (t : Taken) :
    ((insertHugePages mgr r env n fuel left t).bind fun p =>
      if p.1 then some (true, p.2.2)
      else if 0 < p.2.1 then insertNode r env n p.2.2 p.2.1 else some (false, p.2.2)) =
      insertAll r env n (chunks (r.pageCountPerNode mgr) fuel left) t := by
  have hlast : ∀ (left : ℕ) (t : Taken),
      (if 0 < left then insertNode r env n t left else some (false, t)) =
        insertAll r env n (if 0 < left then [left] else []) t := by
    intro left t
    split_ifs
    · unfold insertAll
      rcases insertNode r env n t left with _ | ⟨_ | _, u⟩ <;> rfl
    · rfl
  induction fuel generalizing left t with
  | zero => exact hlast left t
  | succ fuel ih =>
    unfold insertHugePages chunks
    by_cases hper : r.pageCountPerNode mgr < left
    · rw [if_pos hper, if_pos hper]
      unfold insertAll
      rcases insertNode r env n t (r.pageCountPerNode mgr) with _ | ⟨_ | _, u⟩
      · rfl
      · exact ih _ u
      · rfl
    · rw [if_neg hper, if_neg hper]
      exact hlast left t

/-- **The nodes are asked for in order.** -/
theorem insertNodes_eq (t : Taken) :
    insertNodes mgr r env n t = insertAll r env n (r.requests mgr) t := by
  have hrest := @insertHugePages_eq mgr r env n (r.pageCount - r.pageCountFirstNode mgr)
    (r.pageCount - r.pageCountFirstNode mgr)
  unfold insertNodes Request.requests
  dsimp only
  by_cases hfirst : r.pageCountFirstNode mgr ≠ 0
  · rw [if_pos hfirst, if_pos hfirst, List.singleton_append]
    unfold insertAll
    rcases insertNode r env n t (r.pageCountFirstNode mgr) with _ | ⟨_ | _, u⟩
    · rfl
    · exact hrest u
    · rfl
  · rw [if_neg hfirst, if_neg hfirst, List.nil_append]
    exact hrest t

/-- What one insertion does. -/
theorem insertNode_cases (t : Taken) (pages : ℕ) :
    insertNode r env n t pages = some (true, t) ∨ insertNode r env n t pages = none ∧
        n ≤ t.mm_node_array.length ∨
      ∃ start, insertNode r env n t pages = some (false,
        ⟨⟨start, bytes pages, true⟩ :: t.mm,
          t.mm_node_array ++ [⟨start, bytes pages, true⟩]⟩) := by
  rcases Nat.eq_zero_or_pos (bytes pages) with h0 | hpos
  · exact .inl (insertNode_refused (.inl h0))
  · cases hhole : env.hole t.mm_node_array.length (r.drm pages) with
    | none => exact .inl (insertNode_refused (.inr hhole))
    | some start =>
      rw [insertNode_inserted (Nat.pos_iff_ne_zero.1 hpos) hhole]
      split_ifs with hroom
      · exact .inr (.inr ⟨start, rfl⟩)
      · exact .inr (.inl ⟨rfl, Nat.le_of_not_lt hroom⟩)

/-- What was inserted, up to a refusal. -/
theorem insertAll_inserted {ps : List ℕ} {t t' : Taken} {err : Bool}
    (h : insertAll r env n ps t = some (err, t')) :
    ∃ nodes, t'.mm_node_array = t.mm_node_array ++ nodes ∧ t'.mm = nodes.reverse ++ t.mm ∧
      (∀ node ∈ nodes, node.allocated = true) ∧
        (err = false → nodes.map DrmMmNode.size = ps.map bytes) := by
  induction ps generalizing t with
  | nil =>
    obtain ⟨rfl, rfl⟩ := Prod.mk.inj (Option.some.inj h)
    exact ⟨[], (List.append_nil _).symm, rfl, nofun, fun _ => rfl⟩
  | cons p ps ih =>
    unfold insertAll at h
    rcases @insertNode_cases r env n t p with hp | ⟨hp, -⟩ | ⟨start, hp⟩
    · rw [hp] at h
      obtain ⟨rfl, rfl⟩ := Prod.mk.inj (Option.some.inj h)
      exact ⟨[], (List.append_nil _).symm, rfl, nofun, nofun⟩
    · rw [hp] at h
      exact nomatch h
    · rw [hp] at h
      obtain ⟨nodes, harray, hmm, hall, hsize⟩ := ih h
      refine ⟨⟨start, bytes p, true⟩ :: nodes, ?_, ?_, ?_, fun herr => ?_⟩
      · rw [harray, List.append_assoc]
        rfl
      · rw [hmm, List.reverse_cons, List.append_assoc]
        rfl
      · intro node hnode
        rcases List.mem_cons.1 hnode with rfl | hnode
        · rfl
        · exact hall node hnode
      · rw [List.map_cons, hsize herr, List.map_cons]

/-- A refusal before the array is full ends the insertions. -/
theorem insertAll_refused {ps : List ℕ} {t : Taken} {k pages : ℕ} (hk : ps[k]? = some pages)
    (hroom : t.mm_node_array.length + k ≤ n)
    (h : bytes pages = 0 ∨ env.hole (t.mm_node_array.length + k) (r.drm pages) = none) :
    ∃ t', insertAll r env n ps t = some (true, t') := by
  induction ps generalizing t k with
  | nil => exact nomatch hk
  | cons p ps ih =>
    unfold insertAll
    cases k with
    | zero =>
      obtain rfl := Option.some.inj hk
      rw [insertNode_refused h]
      exact ⟨t, rfl⟩
    | succ k =>
      rcases @insertNode_cases r env n t p with hp | ⟨-, hfull⟩ | ⟨start, hp⟩
      · rw [hp]
        exact ⟨t, rfl⟩
      · omega
      · rw [hp]
        have hlen : (t.mm_node_array ++ [(⟨start, bytes p, true⟩ : DrmMmNode)]).length + k =
            t.mm_node_array.length + (k + 1) := by
          rw [List.length_append, List.length_singleton]
          omega
        refine ih (t := ⟨_, t.mm_node_array ++ [⟨start, bytes p, true⟩]⟩) hk ?_ ?_
        · dsimp only
          omega
        · dsimp only
          rw [hlen]
          exact h

/-- Where the array has room for all of them, nothing is written behind it. -/
theorem insertAll_fits {ps : List ℕ} {t : Taken} (hroom : t.mm_node_array.length + ps.length ≤ n) :
    ∃ err t', insertAll r env n ps t = some (err, t') := by
  induction ps generalizing t with
  | nil => exact ⟨false, t, rfl⟩
  | cons p ps ih =>
    rw [List.length_cons] at hroom
    unfold insertAll
    rcases @insertNode_cases r env n t p with hp | ⟨-, hfull⟩ | ⟨start, hp⟩
    · rw [hp]
      exact ⟨true, t, rfl⟩
    · omega
    · rw [hp]
      refine ih (t := ⟨_, t.mm_node_array ++ [⟨start, bytes p, true⟩]⟩) ?_
      rw [List.length_append, List.length_singleton]
      omega

/-- The nodes in front are removed in any order. -/
theorem removeNodes_append {front mm nodes : List DrmMmNode} (h : front.Perm nodes) :
    removeNodes (front ++ mm) nodes = mm := by
  unfold removeNodes
  induction nodes generalizing front with
  | nil =>
    rw [h.eq_nil]
    rfl
  | cons node nodes ih =>
    have hmem : node ∈ front := h.mem_iff.2 List.mem_cons_self
    rw [List.foldl_cons, List.erase_append_left mm hmem]
    exact ih (by simpa using h.erase node)

/-! ### Allocating -/

variable {d d' : Domain}

/-- **A failing allocation** leaves the domain as it was. -/
theorem alloc_error {errno : Errno}
    (h : opuMmAllocMemobj mgr r env d = some (.error errno, d')) : d' = d := by
  unfold opuMmAllocMemobj at h
  cases hn : r.nodeCount mgr with
  | none =>
    rw [hn] at h
    exact nomatch h
  | some n =>
    rw [hn] at h
    dsimp only at h
    split_ifs at h
    · exact (Prod.mk.inj (Option.some.inj h)).2.symm
    · exact nomatch (Prod.mk.inj (Option.some.inj h)).1
    · rw [insertNodes_eq] at h
      rcases hall : insertAll r env n (r.requests mgr) ⟨d.mm, []⟩ with _ | ⟨_ | _, t⟩
      · rw [hall] at h
        exact nomatch h
      · rw [hall] at h
        exact nomatch (Prod.mk.inj (Option.some.inj h)).1
      · rw [hall] at h
        obtain ⟨nodes, harray, hmm, -⟩ := insertAll_inserted hall
        rw [List.nil_append] at harray
        rw [← (Prod.mk.inj (Option.some.inj h)).2, hmm, harray,
          removeNodes_append (List.Perm.refl _)]

/-- The nodes are those of the object: of its size, as many as were counted. -/
structure Right (mgr : VmMgr) (r : Request) (nodes : MmNodes) : Prop where
  size : (nodes.mm_node.map DrmMmNode.size).sum = r.size
  count : r.nodeCount mgr = some nodes.mm_node_count
  length : nodes.mm_node.length = nodes.mm_node_count

/-- The nodes that are in the `drm_mm`. -/
def MmNodes.allocated (nodes : MmNodes) : List DrmMmNode := nodes.mm_node.filter (·.allocated)

/-- **An allocation that succeeds.** -/
theorem alloc_ok {nodes : MmNodes} (hwhole : r.use_external_addr = true ∨ r.Whole mgr)
    (h : opuMmAllocMemobj mgr r env d = some (.ok nodes, d')) :
    Right mgr r nodes ∧ d'.used_size = u64 (d.used_size + r.size) ∧
      d'.mm = nodes.allocated.reverse ++ d.mm := by
  unfold opuMmAllocMemobj at h
  cases hn : r.nodeCount mgr with
  | none =>
    rw [hn] at h
    exact nomatch h
  | some n =>
    rw [hn] at h
    dsimp only at h
    split_ifs at h with harray hext
    · exact nomatch (Prod.mk.inj (Option.some.inj h)).1
    · obtain ⟨hnodes, rfl⟩ := Prod.mk.inj (Option.some.inj h)
      obtain rfl := Except.ok.inj hnodes
      refine ⟨⟨rfl, ?_, rfl⟩, rfl, rfl⟩
      unfold Request.nodeCount Request.oneNode
      rw [hext, Bool.or_true, if_pos rfl]
    · rw [insertNodes_eq] at h
      have hw := hwhole.resolve_left hext
      rcases hall : insertAll r env n (r.requests mgr) ⟨d.mm, []⟩ with _ | ⟨_ | _, t⟩
      · rw [hall] at h
        exact nomatch h
      · rw [hall] at h
        obtain ⟨hnodes, rfl⟩ := Prod.mk.inj (Option.some.inj h)
        obtain rfl := Except.ok.inj hnodes
        obtain ⟨nodes, harr, hmm, hallocated, hsize⟩ := insertAll_inserted hall
        rw [List.nil_append] at harr
        have hlen : nodes.length = n := by
          rw [← List.length_map DrmMmNode.size, hsize rfl, List.length_map,
            hw.length_requests hn]
        refine ⟨⟨?_, ?_, rfl⟩, rfl, ?_⟩
        · rw [harr, hsize rfl]
          exact hw.bytes_sum (by rw [hn]; rfl)
        · rw [hn, harr, hlen]
        · unfold MmNodes.allocated
          dsimp only
          rw [hmm, harr, List.filter_eq_self.2 hallocated]
      · rw [hall] at h
        exact nomatch (Prod.mk.inj (Option.some.inj h)).1

/-- **It does not fault.** -/
theorem alloc_total {n : ℕ} (hn : r.nodeCount mgr = some n)
    (h : env.array = false ∨ r.use_external_addr = true ∨ r.Refused mgr env n ∨ r.Whole mgr) :
    ∃ p, opuMmAllocMemobj mgr r env d = some p := by
  unfold opuMmAllocMemobj
  rw [hn]
  dsimp only
  split_ifs with harray hext
  · exact ⟨_, rfl⟩
  · exact ⟨_, rfl⟩
  · rw [insertNodes_eq]
    have hsome : ∃ err t', insertAll r env n (r.requests mgr) ⟨d.mm, []⟩ = some (err, t') := by
      rcases h with h | h | ⟨k, pages, hk, hpages, hbytes⟩ | h
      · rw [h] at harray
        exact absurd rfl harray
      · exact absurd h hext
      · obtain ⟨t', ht⟩ := insertAll_refused (t := ⟨d.mm, []⟩) hpages
          ((Nat.zero_add k).symm ▸ hk) ((Nat.zero_add k).symm ▸ hbytes)
        exact ⟨true, t', ht⟩
      · exact insertAll_fits (by rw [h.length_requests hn]; exact (Nat.zero_add n).le)
    obtain ⟨err, t', ht⟩ := hsome
    rw [ht]
    cases err <;> exact ⟨_, rfl⟩

/-- Without memory for the array, or with a refusal before it is full, it fails. -/
theorem alloc_refused {n : ℕ} {nodes : MmNodes} (hn : r.nodeCount mgr = some n)
    (h : env.array = false ∨ r.use_external_addr = false ∧ r.Refused mgr env n) :
    opuMmAllocMemobj mgr r env d ≠ some (.ok nodes, d') := by
  intro hok
  unfold opuMmAllocMemobj at hok
  rw [hn] at hok
  dsimp only at hok
  split_ifs at hok with harray hext
  · exact nomatch (Prod.mk.inj (Option.some.inj hok)).1
  · rcases h with h | ⟨h, -⟩
    · rw [h] at harray
      exact harray rfl
    · exact Bool.false_ne_true (h.symm.trans hext)
  · have hrefused : r.Refused mgr env n := by
      rcases h with h | ⟨-, h⟩
      · rw [h] at harray
        exact absurd rfl harray
      · exact h
    obtain ⟨k, pages, hk, hpages, hbytes⟩ := hrefused
    obtain ⟨t', ht⟩ := insertAll_refused (t := ⟨d.mm, []⟩) hpages
      ((Nat.zero_add k).symm ▸ hk) ((Nat.zero_add k).symm ▸ hbytes)
    rw [insertNodes_eq, ht] at hok
    exact nomatch (Prod.mk.inj (Option.some.inj hok)).1

end

end Codrive.Memobj
