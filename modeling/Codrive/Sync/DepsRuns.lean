/-
# Runs of the dependency tables

Any number of tables, any order of the operations of `opu_deps.c`, and fences that become signaled
at any time, also during a call: a call may see a fence that is signaled by its end as signaled or
not.  The fences of one context are signaled in the order of their numbers.

A table keeps one fence for each context, the latest one that still matters, and one reference for
each entry.  What it does not keep is the memory of fences it gave up: after a fence was handed out
or dropped as signaled, an earlier fence of its context is entered again
(`earlier_fence_is_kept`).
-/

import Codrive.Basis.Run
import Codrive.Sync.Deps

namespace Codrive.Sync

open Codrive.Basis

/-! ### Giving up entries -/

/-- From one table to the other, entries were given up whose fences have the property `P`, and
their references with them. -/
structure GivesUp (P : Fence → Prop) (refs : Refs) (fences : List Entry) (refs' : Refs)
    (fences' : List Entry) : Prop where
  sublist : fences'.Sublist fences
  gone : ∀ e ∈ fences, e ∈ fences' ∨ P e.fence
  refs_eq : ∀ f, refs' f - (fences'.map (·.fence)).count f = refs f - (fences.map (·.fence)).count f

section

variable {P : Fence → Prop} {refs refs' : Refs} {fences fences' : List Entry} {e : Entry}

theorem GivesUp.refl (refs : Refs) (fences : List Entry) : GivesUp P refs fences refs fences :=
  ⟨.refl _, fun _ h => .inl h, fun _ => rfl⟩

theorem Refs.put_apply (refs : Refs) (f g : Fence) :
    refs.put f g = refs g - if f = g then 1 else 0 := by
  unfold Refs.put
  split_ifs with h
  · rw [h, Function.update_self]
  · rw [Function.update_of_ne (Ne.symm h), sub_zero]

theorem Refs.get_apply (refs : Refs) (f g : Fence) :
    refs.get f g = refs g + if f = g then 1 else 0 := by
  unfold Refs.get
  split_ifs with h
  · rw [h, Function.update_self]
  · rw [Function.update_of_ne (Ne.symm h), add_zero]

/-- The first entry is given up. -/
theorem GivesUp.drop (hP : P e.fence) (h : GivesUp P (refs.put e.fence) fences refs' fences') :
    GivesUp P refs (e :: fences) refs' fences' where
  sublist := h.sublist.cons _
  gone a ha := by
    rcases List.mem_cons.1 ha with rfl | ha
    · exact .inr hP
    · exact h.gone a ha
  refs_eq f := by
    rw [h.refs_eq f, Refs.put_apply, List.map_cons, List.count_cons]
    simp only [beq_iff_eq]
    split_ifs <;> push_cast <;> omega

/-- The first entry is kept. -/
theorem GivesUp.keep (h : GivesUp P refs fences refs' fences') :
    GivesUp P refs (e :: fences) refs' (e :: fences') where
  sublist := h.sublist.cons_cons _
  gone a ha := by
    rcases List.mem_cons.1 ha with rfl | ha
    · exact .inl List.mem_cons_self
    · exact (h.gone a ha).imp_left (List.mem_cons_of_mem _)
  refs_eq f := by
    have := h.refs_eq f
    rw [List.map_cons, List.map_cons, List.count_cons, List.count_cons]
    push_cast
    omega

variable {signaled : Fence → Bool}

/-- **`opu_deps_peek_fence`** gives up signaled fences. -/
theorem peekLoop_givesUp : GivesUp (signaled ·) refs fences (peekLoop signaled refs fences).2.2
    (peekLoop signaled refs fences).2.1 := by
  induction fences generalizing refs with
  | nil => exact .refl ..
  | cons e fences ih =>
    rw [peekLoop]
    split_ifs with h
    · exact .drop h ih
    · exact .refl ..

/-- **`opu_deps_get_fence`** gives up signaled fences, and one that it returns. -/
theorem getLoop_givesUp : GivesUp (fun f => signaled f ∨
      f ∈ ((getLoop signaled refs fences).1.map Prod.fst).toList) refs fences
    (getLoop signaled refs fences).2.2 (getLoop signaled refs fences).2.1 := by
  induction fences generalizing refs with
  | nil => exact .refl ..
  | cons e fences ih =>
    rw [getLoop]
    split_ifs with h
    · exact .drop (.inr (by simp)) (.refl ..)
    · exact .drop (.inl (by simpa using h)) ih

/-- **`opu_deps_to_array_fence`** gives up signaled fences; what it collects stays in the table. -/
theorem toArrayLoop_givesUp {max_fence_count : ℕ} {array : List Fence} :
    GivesUp (signaled ·) refs fences (toArrayLoop signaled max_fence_count refs array fences).2.2
        (toArrayLoop signaled max_fence_count refs array fences).2.1 ∧
      ∀ f ∈ (toArrayLoop signaled max_fence_count refs array fences).1.2, f ∈ array ∨
        f ∈ (toArrayLoop signaled max_fence_count refs array fences).2.1.map (·.fence) := by
  induction fences generalizing refs array with
  | nil => exact ⟨.refl .., fun f hf => .inl hf⟩
  | cons e fences ih =>
    rw [toArrayLoop]
    split_ifs with h hlt
    · obtain ⟨h₁, h₂⟩ := @ih refs (array ++ [e.fence])
      refine ⟨h₁.keep, fun f hf => ?_⟩
      rcases h₂ f hf with hf | hf
      · rcases List.mem_append.1 hf with hf | hf
        · exact .inl hf
        · exact .inr (by simp [List.mem_singleton.1 hf])
      · exact .inr (List.mem_cons_of_mem _ hf)
    · exact ⟨.refl .., fun f hf => .inl hf⟩
    · obtain ⟨h₁, h₂⟩ := @ih (refs.put e.fence) array
      exact ⟨.drop (by simpa using h) h₁, h₂⟩

/-- **`opu_deps_wait`** gives up the fences it has waited for. -/
theorem waitLoop_givesUp {waits : Fence → Option Errno} :
    GivesUp (waits · = none) refs fences (waitLoop waits refs fences).2.2
      (waitLoop waits refs fences).2.1 := by
  induction fences generalizing refs with
  | nil => exact .refl ..
  | cons e fences ih =>
    rw [waitLoop]
    split
    · exact .refl ..
    · rename_i h
      exact .drop h ih

/-- **`opu_deps_free`** gives up everything. -/
theorem free_givesUp : GivesUp (fun _ => True) refs fences
    (fences.foldl (fun refs e => refs.put e.fence) refs) [] := by
  induction fences generalizing refs with
  | nil => exact .refl ..
  | cons e fences ih => exact .drop trivial ih

end

/-! ### The table -/

/-- The fences of a context that have become signaled: up to this number. -/
abbrev Done := ℕ → ℕ

/-- The fence is signaled. -/
def Done.Signaled (done : Done) (f : Fence) : Prop := f.seqno ≤ done f.context

/-- A fence no longer matters: it is signaled, or it or a later one was handed out. -/
def Settled (done : Done) (handed : List Fence) (f : Fence) : Prop :=
  done.Signaled f ∨ ∃ g ∈ handed, g.context = f.context ∧ f.seqno ≤ g.seqno

/-- What a table is: one entry for each context; a fence that was added and still matters has an
entry with it or a later one; one reference for each entry. -/
structure Deps.Inv (done : Done) (d : Deps) : Prop where
  nodup : (d.fences.map (·.fence.context)).Nodup
  added : ∀ e ∈ d.fences, e.fence ∈ d.added
  kept : ∀ f ∈ d.added, Settled done d.handed f ∨
    ∃ e ∈ d.fences, e.fence.context = f.context ∧ f.seqno ≤ e.fence.seqno
  refs_eq : ∀ f, d.refs f = (d.fences.map (·.fence)).count f

section

variable {done done' : Done} {d : Deps}

theorem Settled.mono {handed handed' : List Fence} {f : Fence} (h : Settled done handed f)
    (hdone : ∀ c, done c ≤ done' c) (hh : handed ⊆ handed') : Settled done' handed' f := by
  rcases h with h | ⟨g, hg, h⟩
  · exact .inl (Nat.le_trans h (hdone _))
  · exact .inr ⟨g, hh hg, h⟩

/-- Giving up what no longer matters keeps a table what it is. -/
theorem Deps.Inv.givesUp {P : Fence → Prop} {refs' : Refs} {fences' : List Entry}
    {handed' : List Fence} (h : d.Inv done) (hdone : ∀ c, done c ≤ done' c)
    (hg : GivesUp P d.refs d.fences refs' fences') (hh : d.handed ⊆ handed')
    (hP : ∀ f, P f → Settled done' handed' f) :
    Deps.Inv done' { d with fences := fences', refs := refs', handed := handed' } where
  nodup := h.nodup.sublist (hg.sublist.map _)
  added e he := h.added e (hg.sublist.mem he)
  kept f hf := by
    rcases h.kept f hf with hs | ⟨e, he, hc, hle⟩
    · exact .inl (hs.mono hdone hh)
    · rcases hg.gone e he with he' | hp
      · exact .inr ⟨e, he', hc, hle⟩
      · -- the entry that stood for `f` is gone
        refine .inl ?_
        rcases hP _ hp with hs | ⟨g, hg', hgc, hgle⟩
        · exact .inl (Nat.le_trans hle (hc ▸ hs))
        · exact .inr ⟨g, hg', hgc.trans hc, Nat.le_trans hle hgle⟩
  refs_eq f := by
    have h₁ := hg.refs_eq f
    have h₂ := h.refs_eq f
    dsimp only
    omega

/-- **`opu_deps_add_later`** finds the entry of the context, and leaves the later fence in it. -/
theorem opuDepsAddLater_spec (h : d.Inv done) {f : Fence} (x : Bool) :
    (∃ d', opuDepsAddLater d f x = (true, d') ∧ Deps.Inv done { d' with added := f :: d'.added }) ∨
      opuDepsAddLater d f x = (false, d) ∧ ∀ e ∈ d.fences, e.fence.context ≠ f.context := by
  unfold opuDepsAddLater
  split
  · rename_i hf
    refine .inr ⟨rfl, fun e he => ?_⟩
    simpa using List.find?_eq_none.1 hf e he
  · rename_i e hf
    obtain ⟨A, B, hl, -, hup⟩ := exists_first hf
    have hc : e.fence.context = f.context := by simpa using List.find?_some hf
    -- the fence that is kept is one of the two, and no earlier than either
    obtain ⟨k, refs, hk⟩ : ∃ k refs, opuDepsKeepLater d.refs e.fence f = (k, refs) := ⟨_, _, rfl⟩
    have hkeep : (k = e.fence ∨ k = f) ∧ k.context = f.context ∧ e.fence.seqno ≤ k.seqno ∧
        f.seqno ≤ k.seqno ∧ ∀ g, refs g - (if k = g then 1 else 0 : ℤ) =
          d.refs g - (if e.fence = g then 1 else 0 : ℤ) := by
      unfold opuDepsKeepLater at hk
      split_ifs at hk with hlater
      · obtain ⟨rfl, rfl⟩ := Prod.mk.inj hk
        simp only [isLater, Bool.and_eq_true, beq_iff_eq, decide_eq_true_eq] at hlater
        exact ⟨.inl rfl, hc, Nat.le_refl _, hlater.2.le, fun g => rfl⟩
      · obtain ⟨rfl, rfl⟩ := Prod.mk.inj hk
        simp only [isLater, hc, beq_self_eq_true, Bool.true_and, decide_eq_true_eq,
          Nat.not_lt] at hlater
        refine ⟨.inr rfl, rfl, hlater, Nat.le_refl _, fun g => ?_⟩
        rw [Refs.get_apply, Refs.put_apply, add_sub_cancel_right]
    simp only [hk, hup]
    refine .inl ⟨_, rfl, ?_⟩
    obtain ⟨hor, hkc, hke, hkf, hrefs⟩ := hkeep
    have hmem : e ∈ d.fences := by rw [hl]; simp
    refine ⟨?_, fun a ha => ?_, fun g hg => ?_, fun g => ?_⟩
    · have := h.nodup
      rw [hl] at this
      simpa [hkc, hc] using this
    · rcases List.mem_append.1 ha with ha | ha
      · exact List.mem_cons_of_mem _ (h.added a (by rw [hl]; exact List.mem_append_left _ ha))
      rcases List.mem_cons.1 ha with rfl | ha
      · rcases hor with hor | hor
        · exact List.mem_cons_of_mem _ (hor ▸ h.added e hmem)
        · exact hor ▸ List.mem_cons_self
      · exact List.mem_cons_of_mem _ (h.added a (by rw [hl]; simp [ha]))
    · rcases List.mem_cons.1 hg with rfl | hg
      · exact .inr ⟨⟨k, e.explicit⟩, by simp, hkc, hkf⟩
      · refine (h.kept g hg).imp_right fun ⟨a, ha, hac, hle⟩ => ?_
        rw [hl] at ha
        rcases List.mem_append.1 ha with ha | ha
        · exact ⟨a, List.mem_append_left _ ha, hac, hle⟩
        rcases List.mem_cons.1 ha with rfl | ha
        · exact ⟨⟨k, a.explicit⟩, by simp, by rw [← hac, hc, hkc], Nat.le_trans hle hke⟩
        · exact ⟨a, by simp [ha], hac, hle⟩
    · have h₁ := h.refs_eq g
      have h₂ := hrefs g
      rw [hl] at h₁
      simp only [List.map_append, List.map_cons, List.count_append, List.count_cons,
        beq_iff_eq] at h₁ ⊢
      push_cast at h₁ ⊢
      omega

/-- **`opu_deps_add_fence`** keeps a table what it is, also when it fails. -/
theorem Deps.Inv.addFence (h : d.Inv done) (bucket : ℕ → ℕ) (alloc : Bool) (f : Option Fence)
    (x : Bool) : (opuDepsAddFence bucket alloc d f x).2.Inv done := by
  unfold opuDepsAddFence
  cases f with
  | none => exact h
  | some f =>
    rcases opuDepsAddLater_spec (f := f) h x with ⟨d', hd, hinv⟩ | ⟨hd, hno⟩
    · simp only [hd]
      exact hinv
    · simp only [hd]
      split_ifs with ha
      · exact h
      · -- a new entry
        have hp : (hashAdd bucket ⟨f, x⟩ d.fences).Perm (⟨f, x⟩ :: d.fences) :=
          List.perm_orderedInsert ..
        refine ⟨?_, fun e he => ?_, fun g hg => ?_, fun g => ?_⟩
        · refine ((hp.map _).nodup_iff).2 (List.nodup_cons.2 ⟨fun hm => ?_, h.nodup⟩)
          obtain ⟨e, he, hc⟩ := List.mem_map.1 hm
          exact hno e he hc
        · rcases List.mem_cons.1 (hp.mem_iff.1 he) with rfl | he
          · exact List.mem_cons_self
          · exact List.mem_cons_of_mem _ (h.added e he)
        · rcases List.mem_cons.1 hg with rfl | hg
          · exact .inr ⟨⟨g, x⟩, hp.mem_iff.2 List.mem_cons_self, rfl, Nat.le_refl _⟩
          · exact (h.kept g hg).imp_right fun ⟨e, he, hc⟩ =>
              ⟨e, hp.mem_iff.2 (List.mem_cons_of_mem _ he), hc⟩
        · dsimp only
          rw [Refs.get_apply, h.refs_eq]
          have hcount := (hp.map (·.fence)).count_eq g
          rw [hcount, List.map_cons, List.count_cons]
          simp only [beq_iff_eq]
          push_cast
          rfl

theorem Refs.put_get (refs : Refs) (f : Fence) : (refs.put f).get f = refs := by
  funext g
  rw [Refs.get_apply, Refs.put_apply, sub_add_cancel]

/-- Entering again a fence that the table has changes nothing. -/
theorem opuDepsAddLater_self (h : d.Inv done) {f : Fence} (hf : f ∈ d.fences.map (·.fence))
    (x : Bool) : opuDepsAddLater d f x = (true, d) := by
  obtain ⟨e, he, rfl⟩ := List.mem_map.1 hf
  unfold opuDepsAddLater
  cases hfind : d.fences.find? (·.fence.context = e.fence.context) with
  | none => exact absurd (List.find?_eq_none.1 hfind e he) (by simp)
  | some a =>
    obtain ⟨A, B, hl, -, hup⟩ := exists_first hfind
    have hc : a.fence.context = e.fence.context := by simpa using List.find?_some hfind
    have ha : a ∈ d.fences := List.mem_of_find?_eq_some hfind
    obtain rfl := List.inj_on_of_nodup_map h.nodup ha he hc
    have hkeep : opuDepsKeepLater d.refs a.fence a.fence = (a.fence, d.refs) := by
      unfold opuDepsKeepLater
      rw [if_neg (by simp [isLater]), Refs.put_get]
    simp only [hkeep, hup]
    rw [← hl]

theorem toArrayCleanup_eq (h : d.Inv done) {array : List Fence}
    (hsub : ∀ f ∈ array, f ∈ d.fences.map (·.fence)) : toArrayCleanup d array = d := by
  unfold toArrayCleanup
  induction array with
  | nil => rfl
  | cons f array ih =>
    rw [List.foldl_cons, opuDepsAddLater_self h (hsub f (by simp))]
    exact ih fun g hg => hsub g (List.mem_cons_of_mem _ hg)

theorem Deps.Inv.toArray (h : d.Inv done) (hdone : ∀ c, done c ≤ done' c) {signaled : Fence → Bool}
    (hsig : ∀ f, signaled f → done'.Signaled f) (kzalloc create : Bool) (n : ℕ) :
    (opuDepsToArrayFence signaled kzalloc create d n).2.Inv done' := by
  obtain ⟨hg, hsub⟩ := @toArrayLoop_givesUp d.refs d.fences signaled n []
  have hinv := h.givesUp hdone hg (List.Subset.refl _) fun f hf => .inl (hsig f hf)
  have hclean := toArrayCleanup_eq hinv fun f hf => (hsub f hf).resolve_left (by simp)
  unfold opuDepsToArrayFence
  dsimp only
  split_ifs
  · exact hinv
  · rw [hclean]
    exact hinv
  · exact hinv
  · rw [hclean]
    exact hinv
  · exact hinv

/-- No entry is twice in a table. -/
theorem Deps.Inv.entries_nodup (h : d.Inv done) : d.fences.Nodup := h.nodup.of_map _

/-- Taking out an entry gives it up. -/
theorem givesUp_erase {refs : Refs} {fences : List Entry} {e : Entry} (he : e ∈ fences) :
    GivesUp (· = e.fence) refs fences (refs.put e.fence) (fences.erase e) where
  sublist := List.erase_sublist
  gone a ha := by
    by_cases hae : a = e
    · exact .inr (congrArg _ hae)
    · exact .inl ((List.mem_erase_of_ne hae).2 ha)
  refs_eq f := by
    have hcount := ((List.perm_cons_erase he).map (·.fence)).count_eq f
    rw [hcount, Refs.put_apply, List.map_cons, List.count_cons]
    simp only [beq_iff_eq]
    split_ifs <;> push_cast <;> omega

/-- **`opu_deps_clone`** of a table into itself keeps it what it is. -/
theorem Deps.Inv.cloneSelf {bucket : ℕ → ℕ} {signaled : Fence → Bool} {allocs : List Bool}
    {fences : List Entry} (h : d.Inv done) (hsig : ∀ f, signaled f → done.Signaled f)
    (hn : fences.Nodup) (hsub : fences ⊆ d.fences) :
    (cloneSelfLoop bucket signaled allocs fences d).2.Inv done := by
  induction fences generalizing allocs d with
  | nil => exact h
  | cons e fences ih =>
    obtain ⟨he, hn⟩ := List.nodup_cons.1 hn
    obtain ⟨hed, hsub⟩ := List.cons_subset.1 hsub
    rw [cloneSelfLoop]
    split_ifs with hs
    · -- the entry is found again
      have hadd := h.addFence bucket (allocs.headD true) (some e.fence) e.explicit
      have hself := opuDepsAddLater_self h (List.mem_map_of_mem hed) e.explicit
      unfold opuDepsAddFence at hadd ⊢
      simp only [hself] at hadd ⊢
      exact ih hadd hn hsub
    · refine ih (h.givesUp (fun _ => Nat.le_refl _) (givesUp_erase hed) (List.Subset.refl _) ?_) hn
        fun a ha => (List.mem_erase_of_ne ?_).2 (hsub ha)
      · rintro f rfl
        exact .inl (hsig _ (by simpa using hs))
      · rintro rfl
        exact he ha

/-- **`opu_deps_clone`** gives up signaled fences of the source, and adds the others to the
clone. -/
theorem cloneLoop_spec {bucket : ℕ → ℕ} {signaled : Fence → Bool} {allocs : List Bool}
    {refs : Refs} {fences : List Entry} (h : d.Inv done) :
    GivesUp (signaled ·) refs fences (cloneLoop bucket signaled allocs refs fences d).2.1.2
        (cloneLoop bucket signaled allocs refs fences d).2.1.1 ∧
      (cloneLoop bucket signaled allocs refs fences d).2.2.Inv done := by
  induction fences generalizing allocs refs d with
  | nil => exact ⟨.refl .., h⟩
  | cons e fences ih =>
    rw [cloneLoop]
    split_ifs with hs
    · have hadd := h.addFence bucket (allocs.headD true) (some e.fence) e.explicit
      split
      · rename_i r d' heq
        rw [heq] at hadd
        exact ⟨.refl .., hadd⟩
      · rename_i d' heq
        rw [heq] at hadd
        obtain ⟨h₁, h₂⟩ := @ih d' allocs.tail refs hadd
        exact ⟨h₁.keep, h₂⟩
    · obtain ⟨h₁, h₂⟩ := @ih d allocs.tail (refs.put e.fence) h
      exact ⟨.drop (by simpa using hs) h₁, h₂⟩

end

/-! ### Runs -/

/-- The signaled fences and the tables. -/
structure State where
  done : Done
  tables : ℕ → Deps

/-- A call on the table or the tables with these numbers, with what the kernel answers in it; or
nothing but fences that become signaled. -/
inductive Op where
  | signal
  | add (i : ℕ) (alloc : Bool) (f : Option Fence) (explicit : Bool)
  | peek (i : ℕ)
  | get (i : ℕ)
  | toArray (i : ℕ) (kzalloc create : Bool) (max_fence_count : ℕ)
  | clone (i j : ℕ) (allocs : List Bool)
  | wait (i : ℕ) (waits : Fence → Option Errno)
  | free (i : ℕ)

/-- What a call makes of the tables.  `seen` is what it sees of the fences. -/
def Op.apply (bucket : ℕ → ℕ) (seen : Fence → Bool) (tables : ℕ → Deps) : Op → ℕ → Deps
  | .signal => tables
  | .add i alloc f explicit =>
    Function.update tables i (opuDepsAddFence bucket alloc (tables i) f explicit).2
  | .peek i => Function.update tables i (opuDepsPeekFence seen (tables i)).2
  | .get i => Function.update tables i (opuDepsGetFence seen (tables i)).2
  | .toArray i kzalloc create n =>
    Function.update tables i (opuDepsToArrayFence seen kzalloc create (tables i) n).2
  | .clone i j allocs =>
    if i = j then Function.update tables i (cloneSelfLoop bucket seen allocs (tables i).fences
      (tables i)).2
    else Function.update (Function.update tables i
      (opuDepsClone bucket seen allocs (tables i) (tables j)).2.1) j
      (opuDepsClone bucket seen allocs (tables i) (tables j)).2.2
  | .wait i waits => Function.update tables i (opuDepsWait waits (tables i)).2
  | .free i => Function.update tables i (opuDepsFree (tables i))

/-- A call, while any fences become signaled.  What it sees as signaled is signaled at its end, what
was signaled before it is seen as signaled; a wait that succeeds ends with the fence signaled. -/
def State.Step (bucket : ℕ → ℕ) (s : State) (op : Op) (t : State) : Prop :=
  (∀ c, s.done c ≤ t.done c) ∧
    (match op with
      | .wait _ waits => ∀ f, waits f = none → t.done.Signaled f
      | _ => True) ∧
    ∃ seen : Fence → Bool, (∀ f, seen f → t.done.Signaled f) ∧
      (∀ f, s.done.Signaled f → seen f) ∧ t.tables = op.apply bucket seen s.tables

/-- No fence is signaled and every table is empty. -/
def State.init : State := ⟨fun _ => 0, fun _ => {}⟩

theorem Deps.Inv.init (done : Done) : Deps.Inv done {} :=
  ⟨by simp, by simp, by simp, by simp⟩

theorem update_inv {done : Done} {tables : ℕ → Deps} {i : ℕ} {d : Deps}
    (h : ∀ j, (tables j).Inv done) (hd : d.Inv done) (j : ℕ) :
    (Function.update tables i d j).Inv done := by
  by_cases hj : j = i
  · rw [hj, Function.update_self]
    exact hd
  · rw [Function.update_of_ne hj]
    exact h j

/-- **A call keeps every table what it is.** -/
theorem State.Step.inv {bucket : ℕ → ℕ} {s t : State} {op : Op} (h : s.Step bucket op t)
    (hs : ∀ i, (s.tables i).Inv s.done) : ∀ i, (t.tables i).Inv t.done := by
  obtain ⟨hdone, hop, seen, hseen, -, htables⟩ := h
  have hsig : ∀ f, seen f → ∀ handed, Settled t.done handed f := fun f hf _ => .inl (hseen f hf)
  -- time passes for the tables that are not called on
  have hlater : ∀ j, (s.tables j).Inv t.done := fun j =>
    (hs j).givesUp hdone (P := fun _ => False) (.refl ..) (List.Subset.refl _) (by simp)
  rw [htables]
  cases op with
  | signal => exact hlater
  | add i alloc f explicit => exact update_inv hlater ((hlater i).addFence bucket alloc f explicit)
  | peek i =>
    exact update_inv hlater ((hs i).givesUp hdone peekLoop_givesUp (List.Subset.refl _)
      fun f hf => hsig f hf _)
  | get i =>
    refine update_inv hlater ((hs i).givesUp hdone getLoop_givesUp
      (List.subset_append_right ..) ?_)
    rintro f (hf | hf)
    · exact hsig f hf _
    · exact .inr ⟨f, List.mem_append_left _ hf, rfl, Nat.le_refl _⟩
  | toArray i kzalloc create n => exact update_inv hlater ((hs i).toArray hdone hseen ..)
  | clone i j allocs =>
    obtain ⟨h₁, h₂⟩ := @cloneLoop_spec t.done (s.tables j) bucket seen allocs (s.tables i).refs
      (s.tables i).fences (hlater j)
    simp only [Op.apply]
    split_ifs with hij
    · exact update_inv hlater ((hlater i).cloneSelf hseen (hlater i).entries_nodup (.refl _))
    · exact update_inv (update_inv hlater ((hs i).givesUp hdone h₁ (List.Subset.refl _)
        fun f hf => hsig f hf _)) h₂
  | wait i waits =>
    exact update_inv hlater ((hs i).givesUp hdone waitLoop_givesUp (List.Subset.refl _)
      fun f hf => .inl (hop f hf))
  | free i =>
    refine update_inv hlater ⟨by simp [opuDepsFree], by simp [opuDepsFree],
      by simp [opuDepsFree], fun f => ?_⟩
    have h₁ := (@free_givesUp (s.tables i).refs (s.tables i).fences).refs_eq f
    have h₂ := (hs i).refs_eq f
    simp only [opuDepsFree, List.map_nil, List.count_nil] at h₁ ⊢
    omega

end Codrive.Sync
