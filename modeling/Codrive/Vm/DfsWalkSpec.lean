/-
# What the depth first walk visits

The walk goes through `Codrive.Basis.Dfs.below`, node by node (`forEach_eq`): what a step reads lies
at or above the entry it leads to, and no entry is visited before one below it, so that it has not
been released.  Only the way down to the first entry takes the page of the start into account
(`freed_once_iff`): where it is not through first entries, what lies before it is left out.
-/

import Codrive.Vm.DfsWalk

namespace Codrive.Vm.DfsWalk

open Codrive.Basis

variable {g : Geometry} {t : Tables} {c c' : Cursor}

/-- The levels below the root. -/
def heightOf (g : Geometry) : ℕ := OPU_VM_SPE - g.root_level

/-- The cursor is at a level of the tree. -/
structure At (g : Geometry) (c : Cursor) : Prop where
  level : c.level = g.root_level + c.path.length
  level_le : c.level ≤ OPU_VM_SPE

/-- The cursor is at the first page of its table. -/
def Aligned (g : Geometry) (c : Cursor) : Prop :=
  2 ^ (g.levelShift c.level + g.frame_size c.level) ∣ c.pfn

/-- The entry of the first page is the first. -/
theorem Aligned.index (h : Aligned g c) :
    c.pfn >>> g.levelShift c.level &&& g.opuVmEntriesMask c.level = 0 := by
  obtain ⟨k, hk⟩ := h
  rw [Geometry.opuVmEntriesMask, Nat.one_shiftLeft, Nat.and_two_pow_sub_one_eq_mod,
    Nat.shiftRight_eq_div_pow, hk, Nat.pow_add, Nat.mul_assoc,
    Nat.mul_div_cancel_left _ (Nat.two_pow_pos _), Nat.mul_mod_right]

/-- A child of an entry at a level. -/
theorem At.down (hc : At g c) (hlevel : c.level < OPU_VM_SPE) (i : ℕ) :
    At g ⟨c.pfn, i :: c.path, c.level + 1⟩ :=
  ⟨by dsimp only; rw [hc.level, List.length_cons, Nat.add_assoc], hlevel⟩

/-- The first page of a table is that of its first child. -/
theorem Aligned.down (h : Aligned g c) (hlevel : c.level < OPU_VM_SPE) :
    Aligned g ⟨c.pfn, 0 :: c.path, c.level + 1⟩ := by
  have hshift : g.levelShift c.level =
      g.levelShift (c.level + 1) + g.frame_size (c.level + 1) :=
    (opuVmLevelShift_succ g.frame_size hlevel).trans (Nat.add_comm ..)
  unfold Aligned at h ⊢
  dsimp only
  rw [← hshift]
  exact (Nat.pow_dvd_pow 2 (Nat.le_add_right _ _)).trans h

/-- **Down from the first page** is through the first entries. -/
theorem descendants_path (ht : Tree g t) {turns : ℕ} (hc : At g c) (hal : Aligned g c)
    (h : descendants g t turns c = some c') :
    At g c' ∧ c'.path = Dfs.descend t (OPU_VM_SPE - c.level) c.path := by
  induction turns generalizing c with
  | zero => cases h
  | succ turns ih =>
    rw [descendants] at h
    split_ifs at h
    rw [Geometry.opuVmPtDescendant] at h
    by_cases hpath : t c.path = true
    · have hlevel : c.level < OPU_VM_SPE := Nat.lt_succ_of_le (hc.level ▸ ht.level c.path hpath)
      obtain ⟨n, hn⟩ : ∃ n, OPU_VM_SPE - c.level = n + 1 :=
        ⟨OPU_VM_SPE - c.level - 1, by omega⟩
      rw [if_pos hpath, hal.index] at h
      obtain ⟨hat, hdown⟩ := ih (hc.down hlevel 0) (hal.down hlevel) h
      refine ⟨hat, ?_⟩
      dsimp only at hdown
      rw [hdown, hn, Dfs.descend, if_pos hpath, show OPU_VM_SPE - (c.level + 1) = n by omega]
    · rw [if_neg hpath] at h
      obtain rfl := Option.some.inj h
      refine ⟨hc, ?_⟩
      cases OPU_VM_SPE - c.level with
      | zero => rfl
      | succ n => rw [Dfs.descend, if_neg hpath]

/-- The way down comes to an end. -/
theorem descendants_isSome (ht : Tree g t) {turns : ℕ} (hc : At g c)
    (halive : alive t c.path = true) (hturns : OPU_VM_SPE - c.level < turns) :
    ∃ c', descendants g t turns c = some c' := by
  induction turns generalizing c with
  | zero => exact absurd hturns (Nat.not_lt_zero _)
  | succ turns ih =>
    rw [descendants, if_pos halive, Geometry.opuVmPtDescendant]
    by_cases hpath : t c.path = true
    · have hlevel : c.level < OPU_VM_SPE := Nat.lt_succ_of_le (hc.level ▸ ht.level c.path hpath)
      rw [if_pos hpath]
      exact ih (hc.down hlevel _) hpath (by dsimp only; omega)
    · rw [if_neg hpath]
      exact ⟨c, rfl⟩

/-- The sibling the cursor goes on to. -/
theorem sibling_aligned {i : ℕ} {parent : List ℕ} {pfn : ℕ}
    (hc : At g ⟨pfn, i :: parent, g.root_level + (parent.length + 1)⟩) :
    ∃ x, g.amdgpuVmPtSibling ⟨pfn, i :: parent, g.root_level + (parent.length + 1)⟩ =
        (if i + 1 = g.width parent then none
          else some ⟨x, (i + 1) :: parent, g.root_level + (parent.length + 1)⟩) ∧
      At g ⟨x, (i + 1) :: parent, g.root_level + (parent.length + 1)⟩ ∧
      Aligned g ⟨x, (i + 1) :: parent, g.root_level + (parent.length + 1)⟩ := by
  have hle := hc.level_le
  dsimp only at hle
  have hshift : g.levelShift (g.root_level + parent.length) =
      g.levelShift (g.root_level + parent.length + 1) +
        g.frame_size (g.root_level + parent.length + 1) :=
    (opuVmLevelShift_succ g.frame_size hle).trans (Nat.add_comm ..)
  refine ⟨_, rfl, ⟨rfl, hle⟩, ?_⟩
  unfold Aligned alignDown
  dsimp only
  rw [← Nat.add_assoc, Nat.add_sub_cancel, ← hshift, Nat.one_shiftLeft]
  exact Nat.dvd_mul_left _ _

/-- **Where the cursor moves on to.** -/
theorem nextDfs_next (ht : Tree g t) {turns : ℕ} (hc : At g c)
    (h : amdgpuVmPtNextDfs g t turns c = some (some c')) :
    At g c' ∧ Dfs.next g.width t (heightOf g) c.path = some c'.path := by
  obtain ⟨pfn, path, level⟩ := c
  cases path with
  | nil => cases h
  | cons i parent =>
    obtain rfl : level = g.root_level + (parent.length + 1) := hc.level
    obtain ⟨x, hsibling, hat, hal⟩ := sibling_aligned hc
    have hle := hc.level_le
    dsimp only at hle
    dsimp only [amdgpuVmPtNextDfs] at h
    split_ifs at h
    rw [hsibling] at h
    dsimp only [Dfs.next]
    by_cases hlast : i + 1 = g.width parent
    · rw [if_pos hlast] at h ⊢
      obtain rfl := Option.some.inj (Option.some.inj h)
      exact ⟨⟨rfl, by dsimp only; omega⟩, rfl⟩
    · rw [if_neg hlast] at h ⊢
      obtain ⟨d, hd, hd'⟩ := Option.map_eq_some_iff.1 h
      obtain rfl := Option.some.inj hd'
      obtain ⟨hat', hpath⟩ := descendants_path ht hat hal hd
      refine ⟨hat', ?_⟩
      dsimp only at hpath
      rw [hpath, show heightOf g - (parent.length + 1) =
        OPU_VM_SPE - (g.root_level + (parent.length + 1)) by unfold heightOf; omega]

/-- The step reads the entry above, and the entries from the next sibling down. -/
theorem nextDfs_isSome (ht : Tree g t) {turns : ℕ} (hturns : OPU_VM_SPE < turns) (hc : At g c)
    (halive : alive t c.path = true) (hparent : alive t c.path.tail = true) :
    ∃ r, amdgpuVmPtNextDfs g t turns c = some r ∧ (r = none ↔ c.path = []) := by
  obtain ⟨pfn, path, level⟩ := c
  cases path with
  | nil => exact ⟨none, rfl, iff_of_true rfl rfl⟩
  | cons i parent =>
    obtain rfl : level = g.root_level + (parent.length + 1) := hc.level
    obtain ⟨x, hsibling, hat, hal⟩ := sibling_aligned hc
    have hparent' : alive t parent = true := hparent
    dsimp only [amdgpuVmPtNextDfs]
    rw [if_pos hparent', hsibling]
    by_cases hlast : i + 1 = g.width parent
    · rw [if_pos hlast]
      exact ⟨_, rfl, iff_of_false nofun nofun⟩
    · have hfew : OPU_VM_SPE - (g.root_level + (parent.length + 1)) < turns :=
        Nat.lt_of_le_of_lt (Nat.sub_le ..) hturns
      obtain ⟨d, hd⟩ := descendants_isSome ht hat halive hfew
      rw [if_neg hlast]
      dsimp only
      rw [hd]
      exact ⟨some d, rfl, iff_of_false nofun nofun⟩

/-- Down goes further down. -/
theorem descendants_suffix {turns : ℕ} (hc : At g c) (ht : Tree g t)
    (h : descendants g t turns c = some c') : At g c' ∧ c.path <:+ c'.path := by
  induction turns generalizing c with
  | zero => cases h
  | succ turns ih =>
    rw [descendants] at h
    split_ifs at h
    rw [Geometry.opuVmPtDescendant] at h
    by_cases hpath : t c.path = true
    · have hlevel : c.level < OPU_VM_SPE := Nat.lt_succ_of_le (hc.level ▸ ht.level c.path hpath)
      rw [if_pos hpath] at h
      obtain ⟨hat, hsuffix⟩ := ih (hc.down hlevel _) h
      exact ⟨hat, (List.suffix_cons _ c.path).trans hsuffix⟩
    · rw [if_neg hpath] at h
      obtain rfl := Option.some.inj h
      exact ⟨hc, List.suffix_rfl⟩

/-! ### The way down from the start -/

section

variable {d k : ℕ}

theorem straight_of_no_table (h : t (g.radix.path d k) ≠ true) : Straight g t d k := by
  intro n hin htable
  have hbelow : ∀ n, Dfs.Inside g.width t (List.replicate (n + 1) 0 ++ g.radix.path d k) →
      t (g.radix.path d k) = true := by
    intro n
    induction n with
    | zero => exact fun hin => hin.2.1
    | succ n ih => exact fun hin => ih hin.1
  cases n with
  | zero => exact absurd htable h
  | succ n => exact absurd (hbelow n hin) h

/-- The first entry is passed. -/
theorem straight_succ (hzero : g.radix.digit d k = 0) :
    Straight g t d k ↔ Straight g t (d + 1) k := by
  have hpath : ∀ n, List.replicate n 0 ++ g.radix.path (d + 1) k =
      List.replicate (n + 1) 0 ++ g.radix.path d k := by
    intro n
    rw [Radix.path, hzero, List.replicate_succ', List.append_assoc, List.singleton_append]
  constructor
  · intro h n
    rw [hpath, show d + 1 + n = d + (n + 1) by omega]
    exact h (n + 1)
  · intro h n
    cases n with
    | zero => exact fun _ _ => hzero
    | succ n =>
      rw [← hpath, show d + (n + 1) = d + 1 + n by omega]
      exact h n

/-- The cursor of a page, at a depth that the tree has. -/
theorem at_cursorAt (hd : g.root_level + d ≤ OPU_VM_SPE) : At g (g.cursorAt d k) :=
  ⟨by rw [Geometry.cursorAt, Radix.path_length], hd⟩

/-- **A straight way down** leads to the first entry below the start. -/
theorem descendants_straight (ht : Tree g t) {turns : ℕ} (hd : g.root_level + d ≤ OPU_VM_SPE)
    (hstraight : Straight g t d k) (hin : Dfs.Inside g.width t (g.radix.path d k))
    (h : descendants g t turns (g.cursorAt d k) = some c') :
    c'.path = Dfs.descend t (OPU_VM_SPE - (g.root_level + d)) (g.radix.path d k) := by
  induction turns generalizing d with
  | zero => cases h
  | succ turns ih =>
    rw [descendants] at h
    split_ifs at h
    by_cases hpath : t (g.radix.path d k) = true
    · have hzero : g.radix.digit d k = 0 := hstraight 0 hin hpath
      have hlevel := ht.level _ hpath
      rw [Radix.path_length] at hlevel
      rw [Geometry.opuVmPtDescendant_cursorAt hpath] at h
      have hin' : Dfs.Inside g.width t (g.radix.path (d + 1) k) := by
        rw [Radix.path, hzero]
        exact ⟨hin, hpath, ht.width _ hpath⟩
      have hd' : g.root_level + (d + 1) ≤ OPU_VM_SPE := Nat.succ_le_succ hlevel
      have hdown := ih hd' ((straight_succ hzero).1 hstraight) hin' h
      obtain ⟨n, hn⟩ : ∃ n, OPU_VM_SPE - (g.root_level + d) = n + 1 :=
        ⟨OPU_VM_SPE - (g.root_level + d) - 1, by omega⟩
      rw [hdown, hn, Dfs.descend, if_pos hpath, Radix.path, hzero,
        show OPU_VM_SPE - (g.root_level + (d + 1)) = n by omega]
    · rw [Geometry.opuVmPtDescendant, Geometry.cursorAt, if_neg hpath] at h
      obtain rfl := Option.some.inj h
      cases OPU_VM_SPE - (g.root_level + d) with
      | zero => rfl
      | succ n => rw [Dfs.descend, if_neg hpath]

/-- **Any other way down** passes by a first entry below the start. -/
theorem descendants_crooked (ht : Tree g t) {turns : ℕ} (hd : g.root_level + d ≤ OPU_VM_SPE)
    (hcrooked : ¬Straight g t d k) (hin : Dfs.Inside g.width t (g.radix.path d k))
    (h : descendants g t turns (g.cursorAt d k) = some c') :
    ∃ z, Dfs.Inside g.width t z ∧ g.radix.path d k <:+ z ∧ g.radix.path d k ≠ z ∧
      Dfs.Behind z c'.path := by
  induction turns generalizing d with
  | zero => cases h
  | succ turns ih =>
    rw [descendants] at h
    split_ifs at h
    have hpath : t (g.radix.path d k) = true := by
      by_contra hno
      exact hcrooked (straight_of_no_table hno)
    have hlevel := ht.level _ hpath
    rw [Radix.path_length] at hlevel
    have hd' : g.root_level + (d + 1) ≤ OPU_VM_SPE := Nat.succ_le_succ hlevel
    rw [Geometry.opuVmPtDescendant_cursorAt hpath] at h
    have hsuffix := List.suffix_cons 0 (g.radix.path d k)
    have hin0 : Dfs.Inside g.width t (0 :: g.radix.path d k) := ⟨hin, hpath, ht.width _ hpath⟩
    have hne : ∀ z, (0 :: g.radix.path d k) <:+ z → g.radix.path d k ≠ z := by
      rintro _ hz rfl
      exact absurd hz.length_le (by rw [List.length_cons]; omega)
    by_cases hzero : g.radix.digit d k = 0
    · have hstep : g.radix.path (d + 1) k = 0 :: g.radix.path d k := by rw [Radix.path, hzero]
      have hcrooked' : ¬Straight g t (d + 1) k := fun hs => hcrooked ((straight_succ hzero).2 hs)
      obtain ⟨z, hz, hdown, -, hbehind⟩ := ih hd' hcrooked' (hstep ▸ hin0) h
      rw [hstep] at hdown
      exact ⟨z, hz, hsuffix.trans hdown, hne z hdown, hbehind⟩
    · obtain ⟨-, hdown⟩ := descendants_suffix (at_cursorAt hd') ht h
      exact ⟨0 :: g.radix.path d k, hin0, hsuffix, hne _ List.suffix_rfl,
        .below (Nat.pos_of_ne_zero hzero) List.suffix_rfl hdown⟩

end

/-! ### The loop -/

section

variable {σ : Type} {tables : σ → Tables} {body : σ → List ℕ → σ}

theorem Tree.after_body (hbody : Body tables body) {s : σ} (ht : Tree g (tables s)) (p : List ℕ) :
    Tree g (tables (body s p)) := by
  have hold : ∀ q, tables (body s p) q = true → tables s q = true := by
    intro q hq
    by_cases hqp : q = p
    · subst hqp
      exact hbody.own s q hq
    · rwa [hbody.other s p q hqp] at hq
  exact ⟨fun q hq => ht.level q (hold q hq), fun q hq => ht.width q (hold q hq)⟩

/-- The entries the loop calls its body for, of those from its cursor on. -/
def visitedOf (start : Option Cursor) (l : List (List ℕ)) : List (List ℕ) :=
  match start with
  | none => l
  | some _ => l.dropLast

/-- The loop is at a cursor: the entries `V` are behind it, and `rest` is still to come. -/
structure Midway (g : Geometry) (t : Tables) (tables : σ → Tables) (p : List ℕ) (n : ℕ)
    (V : List (List ℕ)) (c : Cursor) (rest : List (List ℕ)) (s : σ) : Prop where
  list : Dfs.below g.width t n p ++ [p] = V ++ c.path :: rest
  cursor : At g c
  same : ∀ q, q ∉ V → tables s q = t q
  tree : Tree g (tables s)

section

variable {p : List ℕ} {n : ℕ} {V rest : List (List ℕ)} {s : σ}

/-- What is at or above the entry has not been released. -/
theorem Midway.same_above (h : Midway g t tables p n V c rest s) {a q : List ℕ}
    (ha : a ∈ c.path :: rest) (hq : q <:+ a) : tables s q = t q := by
  refine h.same q fun hmem => ?_
  have hpairs := @Dfs.pairwise_not_suffix g.width t n p
  rw [h.list, List.pairwise_append] at hpairs
  exact hpairs.2.2 q hmem a ha hq

theorem mem_list (ht : Tree g t) (hp : Dfs.Inside g.width t p) (hn : p.length + n = heightOf g)
    {q : List ℕ} : q ∈ Dfs.below g.width t n p ++ [p] ↔ Dfs.Inside g.width t q ∧ p <:+ q := by
  have hheight : ∀ q, t q = true → q.length < p.length + n := by
    intro q hq
    have hlevel : g.root_level + q.length < OPU_VM_SPE := Nat.lt_succ_of_le (ht.level q hq)
    unfold heightOf at hn
    omega
  rw [List.mem_append, Dfs.mem_below hheight hp, List.mem_singleton]
  constructor
  · rintro (⟨hin, hsuffix, -⟩ | rfl)
    · exact ⟨hin, hsuffix⟩
    · exact ⟨hp, List.suffix_rfl⟩
  · rintro ⟨hin, hsuffix⟩
    rcases Nat.eq_or_lt_of_le hsuffix.length_le with heq | hlt
    · exact .inr (hsuffix.eq_of_length heq).symm
    · exact .inl ⟨hin, hsuffix, hlt⟩

/-- The entry and the one above it can be read. -/
theorem Midway.alive (h : Midway g t tables p n V c rest s)
    (hin : Dfs.Inside g.width t c.path) :
    alive (tables s) c.path = true ∧ alive (tables s) c.path.tail = true := by
  have hsame : ∀ q, q <:+ c.path → tables s q = t q :=
    fun q => h.same_above List.mem_cons_self
  cases hpath : c.path with
  | nil => exact ⟨rfl, rfl⟩
  | cons i parent =>
    rw [hpath] at hin hsame
    refine ⟨(hsame parent (List.suffix_cons i parent)).trans hin.2.1, ?_⟩
    cases parent with
    | nil => rfl
    | cons j parent =>
      have hsuffix : parent <:+ i :: j :: parent :=
        (List.suffix_cons j parent).trans (List.suffix_cons i _)
      exact (hsame parent hsuffix).trans hin.1.2.1

/-- **The loop goes on** through the entries below the start, in their order. -/
theorem forEach_eq (hbody : Body tables body) (ht : Tree g t)
    (hp : Dfs.Inside g.width t p) (hn : p.length + n = heightOf g) {start : Option Cursor}
    (hstart : start.map Cursor.path = some p ∨ start = none ∧ p = []) {turns : ℕ}
    (hturns : OPU_VM_SPE < turns) {m : ℕ} (h : Midway g t tables p n V c rest s)
    (hm : rest.length < m) :
    forEach g tables body start turns m c s =
      some (visitedOf start (c.path :: rest), (visitedOf start (c.path :: rest)).foldl body s) := by
  induction rest generalizing V s c m with
  | nil =>
    obtain ⟨m, rfl⟩ : ∃ m', m = m' + 1 := ⟨m - 1, by omega⟩
    have hlast : c.path = p := by
      have := congrArg List.getLast? h.list
      rw [List.getLast?_concat, List.getLast?_concat] at this
      exact (Option.some.inj this).symm
    obtain ⟨halive, hparent⟩ := h.alive (hlast ▸ hp)
    obtain ⟨r, hr, hnone⟩ := nextDfs_isSome h.tree hturns h.cursor halive hparent
    rw [forEach, hr]
    dsimp only
    obtain hsome | ⟨rfl, hnil⟩ := hstart
    · obtain ⟨c₀, rfl⟩ : ∃ c₀, start = some c₀ := by
        cases start with
        | none => cases hsome
        | some c₀ => exact ⟨c₀, rfl⟩
      rw [if_pos (by rw [hsome, hlast])]
      rfl
    · obtain rfl := hnone.2 (hlast.trans hnil)
      rw [if_neg nofun, if_pos halive]
      rfl
  | cons b rest ih =>
    obtain ⟨m, rfl⟩ : ∃ m', m = m' + 1 := ⟨m - 1, by omega⟩
    have hin : Dfs.Inside g.width t c.path := by
      have hmem : c.path ∈ Dfs.below g.width t n p ++ [p] := by
        rw [h.list]
        exact List.mem_append_right _ List.mem_cons_self
      exact ((mem_list ht hp hn).1 hmem).1
    obtain ⟨halive, hparent⟩ := h.alive hin
    obtain ⟨r, hr, hnone⟩ := nextDfs_isSome h.tree hturns h.cursor halive hparent
    -- The step to `b` reads what is at or above `b`.
    have hchain := Dfs.isChain_below ht.width hn
    rw [h.list, List.isChain_append_cons_cons] at hchain
    have hnext : Dfs.next g.width (tables s) (heightOf g) c.path = some b :=
      Dfs.next_congr hchain.2.1 fun q hq => h.same_above (List.mem_cons_of_mem _
        List.mem_cons_self) hq
    obtain ⟨c', rfl⟩ : ∃ c', r = some c' := by
      cases r with
      | none =>
        rw [hnone.1 rfl] at hnext
        cases hnext
      | some c' => exact ⟨c', rfl⟩
    obtain ⟨hat, hnext'⟩ := nextDfs_next h.tree h.cursor hr
    obtain rfl : b = c'.path := Option.some.inj (hnext.symm.trans hnext')
    have hpairs := @Dfs.pairwise_not_suffix g.width t n p
    rw [h.list, List.pairwise_append, List.pairwise_cons] at hpairs
    have hnotlast : start.map Cursor.path ≠ some c.path := by
      rintro heq
      obtain hsome | ⟨rfl, -⟩ := hstart
      · have hpc : p = c.path := Option.some.inj (hsome.symm.trans heq)
        have hmem : c'.path ∈ Dfs.below g.width t n p ++ [p] := by
          rw [h.list]
          exact List.mem_append_right _ (List.mem_cons_of_mem _ List.mem_cons_self)
        exact hpairs.2.1.1 c'.path List.mem_cons_self (hpc ▸ ((mem_list ht hp hn).1 hmem).2)
      · cases heq
    have hmid : Midway g t tables p n (V ++ [c.path]) c' rest (body s c.path) := by
      refine ⟨?_, hat, fun q hq => ?_, h.tree.after_body hbody c.path⟩
      · rw [h.list, List.append_assoc, List.singleton_append]
      · rw [List.mem_append, List.mem_singleton, not_or] at hq
        rw [hbody.other s c.path q hq.2, h.same q hq.1]
    have hlen : rest.length < m := by
      rw [List.length_cons] at hm
      omega
    rw [forEach, hr]
    dsimp only
    rw [if_neg hnotlast, if_pos halive, ih hmid hlen]
    cases start <;> rfl

end

/-- **The loop does not go back** behind its cursor. -/
theorem forEach_behind (hbody : Body tables body) {start : Option Cursor} {turns m : ℕ}
    {z : List ℕ} {s s' : σ} {l : List (List ℕ)} (hc : At g c) (htree : Tree g (tables s))
    (hz : Dfs.Behind z c.path)
    (h : forEach g tables body start turns m c s = some (l, s')) : ∀ a ∈ l, Dfs.Behind z a := by
  induction m generalizing c s l s' with
  | zero => cases h
  | succ m ih =>
    rw [forEach] at h
    split at h
    · cases h
    · next cursor hnext =>
      split_ifs at h
      · obtain ⟨rfl, -⟩ := Prod.mk.inj (Option.some.inj h)
        exact fun a ha => absurd ha List.not_mem_nil
      · cases cursor with
        | none =>
          obtain ⟨rfl, -⟩ := Prod.mk.inj (Option.some.inj h)
          intro a ha
          obtain rfl := List.mem_singleton.1 ha
          exact hz
        | some c' =>
          obtain ⟨⟨l', t'⟩, hl', heq⟩ := Option.map_eq_some_iff.1 h
          obtain ⟨rfl, -⟩ := Prod.mk.inj heq
          obtain ⟨hat, hstep⟩ := nextDfs_next htree hc hnext
          intro a ha
          rcases List.mem_cons.1 ha with rfl | ha
          · exact hz
          · exact ih hat (htree.after_body hbody c.path) (hz.next hstep) hl' a ha

end

/-! ### What is visited -/

section

variable {σ : Type} {tables : σ → Tables} {free : σ → List ℕ → σ} {s : σ}

/-- The tables of entries that the body was not called for are as they were. -/
theorem tables_foldl (hfree : Body tables free) {l : List (List ℕ)} {q : List ℕ} (hq : q ∉ l) :
    tables (l.foldl free s) q = tables s q := by
  induction l generalizing s with
  | nil => rfl
  | cons p l ih =>
    rw [List.mem_cons, not_or] at hq
    rw [List.foldl_cons, ih hq.2, hfree.other s p q hq.1]

/-- An entry of the tree is at one of its levels. -/
theorem level_of_inside (ht : Tree g t) {p : List ℕ} (hp : Dfs.Inside g.width t p) :
    g.root_level + p.length ≤ OPU_VM_SPE := by
  cases p with
  | nil => exact g.root_level_le
  | cons i p => exact Nat.succ_le_succ (ht.level p hp.2.1)

/-- The entry that is started from can be read after what is below it was released. -/
theorem alive_foldl (hfree : Body tables free) {p : List ℕ} {n : ℕ}
    (hp : Dfs.Inside g.width (tables s) p) :
    alive (tables ((Dfs.below g.width (tables s) n p).foldl free s)) p = true := by
  cases p with
  | nil => rfl
  | cons i p =>
    have hnot : p ∉ Dfs.below g.width (tables s) n (i :: p) := by
      intro hmem
      have := (Dfs.suffix_of_mem_below hmem).2
      rw [List.length_cons] at this
      omega
    exact (tables_foldl hfree hnot).trans hp.2.1

/-- What is below a start, and the start behind it. -/
theorem visits_some {p : List ℕ} {n : ℕ} (ht : Tree g t) (hp : Dfs.Inside g.width t p)
    (hn : p.length + n = heightOf g) :
    Visits g t (some p) (Dfs.below g.width t n p) (Dfs.below g.width t n p ++ [p]) := by
  have hpairs := @Dfs.pairwise_not_suffix g.width t n p
  have hnodup := @Dfs.nodup_below g.width t n p
  have hmem : ∀ q, q ∈ Dfs.below g.width t n p ++ [p] ↔ Dfs.Inside g.width t q ∧ p <:+ q :=
    fun q => mem_list ht hp hn
  refine ⟨(List.pairwise_append.1 hnodup).1, fun q => ?_, (List.pairwise_append.1 hpairs).1,
    hnodup, fun q => ?_⟩
  · have hne := (List.pairwise_append.1 hnodup).2.2 q
    have hq := hmem q
    rw [List.mem_append, List.mem_singleton] at hq
    constructor
    · intro hbelow
      refine ⟨(hq.1 (.inl hbelow)).1, fun p' hp' => ?_⟩
      obtain rfl : p = p' := Option.some.inj hp'
      exact ⟨(hq.1 (.inl hbelow)).2, (hne hbelow p List.mem_cons_self).symm⟩
    · rintro ⟨hin, hbelow⟩
      obtain ⟨hsuffix, hne⟩ := hbelow p rfl
      exact (hq.2 ⟨hin, hsuffix⟩).resolve_right (Ne.symm hne)
  · rw [hmem q]
    refine and_congr_right fun _ => ⟨fun h p' hp' => ?_, fun h => h p rfl⟩
    obtain rfl : p = p' := Option.some.inj hp'
    exact h

/-- All entries, and the root behind them. -/
theorem visits_none {n : ℕ} (ht : Tree g t) (hn : n = heightOf g) :
    Visits g t none (Dfs.below g.width t n [] ++ [[]]) (Dfs.below g.width t n [] ++ [[]]) := by
  have hpairs := @Dfs.pairwise_not_suffix g.width t n []
  have hnodup := @Dfs.nodup_below g.width t n []
  have hmem : ∀ q, q ∈ Dfs.below g.width t n [] ++ [[]] ↔
      Dfs.Inside g.width t q ∧ [] <:+ q :=
    fun q => mem_list (p := []) ht trivial ((Nat.zero_add n).trans hn)
  refine ⟨hnodup, fun q => ?_, hpairs, hnodup, fun q => ?_⟩
  · rw [hmem q]
    exact and_congr_right fun _ => iff_of_true List.nil_suffix nofun
  · rw [hmem q]
    exact and_congr_right fun _ => iff_of_true List.nil_suffix nofun

/-- **From a straight start** the walk goes through everything below it. -/
theorem walk_of_straight (hfree : Body tables free) (ht : Tree g (tables s)) {d k n : ℕ}
    (hp : Dfs.Inside g.width (tables s) (g.radix.path d k)) (hn : d + n = heightOf g)
    (hstraight : Straight g (tables s) d k) {start : Option Cursor}
    (hstart : start = some (g.cursorAt d k) ∨ start = none ∧ d = 0 ∧ k = 0) :
    ∃ turns, forEachDfsSafe g tables free start turns s = some
      (visitedOf start (Dfs.below g.width (tables s) n (g.radix.path d k) ++ [g.radix.path d k]),
        (visitedOf start (Dfs.below g.width (tables s) n (g.radix.path d k) ++
          [g.radix.path d k])).foldl free s) := by
  have hd : g.root_level + d ≤ OPU_VM_SPE := by
    have := level_of_inside ht hp
    rwa [Radix.path_length] at this
  obtain rfl : n = OPU_VM_SPE - (g.root_level + d) := by
    unfold heightOf at hn
    omega
  have hn' : (g.radix.path d k).length + (OPU_VM_SPE - (g.root_level + d)) = heightOf g := by
    rwa [Radix.path_length]
  obtain ⟨rest, hrest⟩ :=
    Dfs.head_below ht.width (OPU_VM_SPE - (g.root_level + d)) (g.radix.path d k)
  have hfirst : start.getD (g.opuVmPtStart 0) = g.cursorAt d k := by
    obtain rfl | ⟨rfl, rfl, rfl⟩ := hstart
    · rfl
    · rfl
  have hpath : start.map Cursor.path = some (g.radix.path d k) ∨
      start = none ∧ g.radix.path d k = [] := by
    obtain rfl | ⟨rfl, rfl, rfl⟩ := hstart
    · exact .inl rfl
    · exact .inr ⟨rfl, rfl⟩
  have halive : alive (tables s) (g.radix.path d k) = true := by
    cases hcase : g.radix.path d k with
    | nil => rfl
    | cons i p =>
      rw [hcase] at hp
      exact hp.2.1
  -- Enough turns for the way down and for the loop.
  have hturns : OPU_VM_SPE < rest.length + 5 := by
    have : OPU_VM_SPE = 4 := rfl
    omega
  have hdown : OPU_VM_SPE - (g.cursorAt d k).level < rest.length + 5 :=
    Nat.lt_of_le_of_lt (Nat.sub_le ..) hturns
  obtain ⟨c, hc⟩ := descendants_isSome ht (at_cursorAt hd) halive hdown
  have hcpath := descendants_straight ht hd hstraight hp hc
  have hmid : Midway g (tables s) tables (g.radix.path d k) (OPU_VM_SPE - (g.root_level + d)) []
      c rest s :=
    ⟨by rw [hrest, hcpath]; rfl, (descendants_suffix (at_cursorAt hd) ht hc).1, fun _ _ => rfl, ht⟩
  have hloop := forEach_eq (m := rest.length + 5) hfree ht hp hn' hpath hturns hmid (by omega)
  rw [hcpath, ← hrest] at hloop
  refine ⟨rest.length + 5, ?_⟩
  rw [forEachDfsSafe, amdgpuVmPtFirstDfs, hfirst, hc]
  exact hloop

/-- **From a straight start** the walk visits what it should. -/
theorem right_of_straight (hfree : Body tables free) (ht : Tree g (tables s)) {d k : ℕ}
    (hp : Dfs.Inside g.width (tables s) (g.radix.path d k))
    (hstraight : Straight g (tables s) d k) {start : Option Cursor}
    (hstart : start = some (g.cursorAt d k) ∨ start = none ∧ d = 0 ∧ k = 0) :
    Right g tables free start s := by
  have hd := level_of_inside ht hp
  rw [Radix.path_length] at hd
  have hn : d + (heightOf g - d) = heightOf g := by
    unfold heightOf
    omega
  obtain ⟨turns, hsafe⟩ := walk_of_straight hfree ht hp hn hstraight hstart
  obtain rfl | ⟨rfl, rfl, rfl⟩ := hstart
  · have hlength : (g.radix.path d k).length + (heightOf g - d) = heightOf g := by
      rwa [Radix.path_length]
    have hlast : visitedOf (some (g.cursorAt d k))
        (Dfs.below g.width (tables s) (heightOf g - d) (g.radix.path d k) ++ [g.radix.path d k]) =
        Dfs.below g.width (tables s) (heightOf g - d) (g.radix.path d k) := List.dropLast_concat
    rw [hlast] at hsafe
    have hfreed : amdgpuVmFreePts g tables free (some (g.cursorAt d k)) turns s = some
        (Dfs.below g.width (tables s) (heightOf g - d) (g.radix.path d k) ++ [g.radix.path d k],
          free ((Dfs.below g.width (tables s) (heightOf g - d) (g.radix.path d k)).foldl free s)
            (g.radix.path d k)) := by
      rw [amdgpuVmFreePts, hsafe]
      exact if_pos (alive_foldl hfree hp)
    exact ⟨turns, _, _, _, _, hsafe, hfreed, visits_some ht hp hlength⟩
  · have hfreed : amdgpuVmFreePts g tables free none turns s =
        forEachDfsSafe g tables free none turns s := by
      rw [amdgpuVmFreePts, hsafe]
    exact ⟨turns, _, _, _, _, hsafe, hfreed.trans hsafe, visits_none ht (Nat.sub_zero _)⟩

/-- **From any other start** an entry is left out. -/
theorem straight_of_right (hfree : Body tables free) (ht : Tree g (tables s)) {d k : ℕ}
    (hp : Dfs.Inside g.width (tables s) (g.radix.path d k))
    (h : Right g tables free (some (g.cursorAt d k)) s) : Straight g (tables s) d k := by
  obtain ⟨turns, visited, freed, s', s'', hsafe, -, hvisits⟩ := h
  by_contra hcrooked
  have hd := level_of_inside ht hp
  rw [Radix.path_length] at hd
  rw [forEachDfsSafe] at hsafe
  split at hsafe
  · cases hsafe
  · next c hc =>
    obtain ⟨z, hz, hsuffix, hne, hbehind⟩ := descendants_crooked ht hd hcrooked hp hc
    have hat := (descendants_suffix (at_cursorAt hd) ht hc).1
    have hmem : z ∈ visited := by
      refine (hvisits.mem z).2 ⟨hz, fun p hp' => ?_⟩
      obtain rfl : g.radix.path d k = p := Option.some.inj hp'
      exact ⟨hsuffix, hne⟩
    exact Dfs.not_behind_self z (forEach_behind hfree hat ht hbehind hsafe z hmem)

/-- The first entries are those of page 0. -/
theorem straight_zero (t : Tables) (d : ℕ) : Straight g t d 0 := by
  intro n _ _
  rw [Radix.digit, Nat.zero_div, Nat.zero_mod]

/-- **The walk and `amdgpu_vm_free_pts`, from any start in any tree.**  They visit and free what
they should, and read no released entry, if and only if the way down from the start is through first
entries; without a start they always do. -/
theorem freed_once_iff (hfree : Body tables free) (ht : Tree g (tables s))
    {start : Option (ℕ × ℕ)}
    (hstart : ∀ x ∈ start, Dfs.Inside g.width (tables s) (g.radix.path x.1 x.2)) :
    Right g tables free (start.map fun x => g.cursorAt x.1 x.2) s ↔
      ∀ x ∈ start, Straight g (tables s) x.1 x.2 := by
  cases start with
  | none =>
    exact iff_of_true
      (right_of_straight (d := 0) (k := 0) hfree ht trivial (straight_zero _ 0)
        (.inr ⟨rfl, rfl, rfl⟩)) nofun
  | some x =>
    have hp := hstart x rfl
    constructor
    · intro h x' hx'
      obtain rfl : x = x' := Option.some.inj hx'
      exact straight_of_right hfree ht hp h
    · exact fun h => right_of_straight hfree ht hp (h x rfl) (.inl rfl)

/-! ### An example -/

/-- A root of four entries above tables of 32 and 16. -/
def fourEntries : Geometry where
  frame_size level := if level = OPU_VM_SPE then 4 else if level = OPU_VM_PTE then 5 else 9
  root_level := OPU_VM_PDE
  max_pfn := 2048
  root_level_le := by decide
  frame_size_lt level := by
    split_ifs <;> decide
  shift_lt := by decide
  max_pfn_le := by decide

/-- The root has its table, and its first entry. -/
def twoTables : Tables := fun p => p == [] || p == [0]

/-- The array of an entry is released. -/
def freeTable (t : Tables) (p : List ℕ) : Tables := Function.update t p false

theorem body_freeTable : Body id freeTable where
  other _ _ _ hq := Function.update_of_ne hq ..
  own t p h := by
    have hself : freeTable t p p = false := Function.update_self ..
    rw [id_eq, hself] at h
    cases h

theorem tree_twoTables : Tree fourEntries twoTables where
  level p hp := by
    rw [twoTables, Bool.or_eq_true, beq_iff_eq, beq_iff_eq] at hp
    obtain rfl | rfl := hp <;> decide
  width p hp := by
    rw [twoTables, Bool.or_eq_true, beq_iff_eq, beq_iff_eq] at hp
    obtain rfl | rfl := hp <;> decide

/-- From the first page of the root. -/
theorem freed_once_iff_root :
    Right fourEntries id freeTable
      ((some (0, 0)).map fun x => fourEntries.cursorAt x.1 x.2) twoTables := by
  refine (freed_once_iff body_freeTable tree_twoTables fun x hx => ?_).2 fun x hx => ?_
  · obtain rfl : (0, 0) = x := Option.some.inj hx
    trivial
  · obtain rfl : (0, 0) = x := Option.some.inj hx
    exact straight_zero twoTables 0

/-- **A start in the middle of its table**: the root, with the cursor at page 512, of the second
entry.  The first entry and the table below it are left out, and the array that they are in is
released. -/
theorem first_table_not_freed :
    ¬Right fourEntries id freeTable (some (fourEntries.cursorAt 0 512)) twoTables ∧
      twoTables [0] = true ∧
      (amdgpuVmFreePts fourEntries id freeTable (some (fourEntries.cursorAt 0 512)) 8
        twoTables).map Prod.fst = some [[1], [2], [3], []] := by
  refine ⟨fun h => ?_, rfl, by decide +kernel⟩
  have hdigit := straight_of_right (d := 0) (k := 512) body_freeTable tree_twoTables trivial h 0
    trivial rfl
  exact absurd hdigit (by decide)

end

end Codrive.Vm.DfsWalk
