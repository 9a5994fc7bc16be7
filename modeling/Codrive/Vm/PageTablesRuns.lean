/-
# Page tables, over every run

`tables_of_run` says that in every state of a run of allocations the page tables refer to nothing
that was freed, that an allocation that fails leaves them as they were, and that freeing the whole
tree then frees every object once, as long as each allocation meets `StepOk`.  It leaves out:

- An update of the parent that fails for a table in a shared page.  Where this call created the
  page, it is freed while the entry that keeps it still refers to it; where a sibling did, `pt_mo`
  is read uninitialised.
- A root in a shared page, which has no parent to keep it.
-/

import Codrive.Basis.Run
import Codrive.Vm.PageTablesInv

namespace Codrive.Vm.PageTables

open Codrive.Basis

namespace State

variable {cfg : Config} {s : State} {path : List ℕ} {env : Env}

/-- The table joins a page that is there. -/
def Joins (cfg : Config) (s : State) (path : List ℕ) : Prop :=
  ∃ owner off o, opuVmGetEntryMoIndex cfg path = some (some (owner, off)) ∧
    (s.entry owner).shared_mo = some o

/-- **The condition on a call.** -/
def StepOk (cfg : Config) (s : State) (c : Call) : Prop :=
  (s.entry c.path).mo.isSome = true ∨
    (hasEntries cfg c.path c.need_spe = true ∧ c.env.array = false) ∨
    sharedLevel cfg (levelOf cfg c.path) = false ∨
    c.path ≠ [] ∧ (c.env.update = true ∨
      (c.env.create && c.env.clear) = false ∧ ¬Joins cfg s c.path)

/-- The tables and the objects there were are the same. -/
structure Unchanged (s t : State) : Prop where
  entry : t.entry = s.entry
  freed : ∀ o < s.created, t.freed o = s.freed o
  pde : ∀ o < s.created, t.pde o = s.pde o

theorem Unchanged.refl : Unchanged s s := ⟨rfl, fun _ _ => rfl, fun _ _ => rfl⟩

/-! ### The parent -/

/-- A PDE leads to an object that is there. -/
theorem Inv.setPde {pmo off : ℕ} {v : ℕ × ℕ} (h : Inv cfg s) (hv : s.Live v.1) :
    Inv cfg { s with
      pde := Function.update s.pde pmo (Function.update (s.pde pmo) off (some v)) } := by
  refine ⟨⟨h.shape.outside, h.shape.level, h.shape.blank, h.shape.live, h.shape.fresh,
    fun o off' w hfreed hw => ?_⟩, ⟨h.owned.owner, h.owned.unowned⟩, h.hasMo⟩
  dsimp only at hfreed hw
  by_cases ho : o = pmo
  · subst ho
    rw [Function.update_self] at hw
    by_cases hoff : off' = off
    · subst hoff
      rw [Function.update_self] at hw
      obtain rfl := Option.some.inj hw
      exact hv
    · rw [Function.update_of_ne hoff] at hw
      exact h.shape.pde o off' w hfreed hw
  · rw [Function.update_of_ne ho] at hw
    exact h.shape.pde o off' w hfreed hw

/-- What the update of the parent does. -/
theorem Inv.updatePde {mo : ℕ} (h : Inv cfg s) (hpath : s.Exists cfg path)
    (hmo : (s.entry path).mo = some mo) (ok : Bool) :
    ∃ t, s.amdgpuVmUpdatePde path mo ok = some (ok || path.isEmpty, t) ∧ Inv cfg t ∧
      t.entry = s.entry ∧ (ok = false → t = s) := by
  have hlive : s.Live mo := h.shape.live path mo (.inl hmo)
  cases path with
  | nil => exact ⟨s, by cases ok <;> rfl, h, rfl, fun _ => rfl⟩
  | cons i parent =>
    obtain ⟨pmo, hpmo⟩ := Option.isSome_iff_exists.1 (h.hasMo parent hpath.2.1)
    have hplive : s.Live pmo := h.shape.live parent pmo (.inl hpmo)
    unfold amdgpuVmUpdatePde
    dsimp only
    rw [hpmo]
    dsimp only
    rw [if_neg (not_or.2 ⟨not_not.2 hlive.2, not_not.2 hplive.2⟩)]
    cases ok with
    | true => exact ⟨_, rfl, h.setPde (v := (mo, _)) hlive, rfl, fun hf => nomatch hf⟩
    | false => exact ⟨s, rfl, h, rfl, fun _ => rfl⟩

/-- The update succeeds. -/
theorem Inv.updateParent_ok {mo : ℕ} {pt_mo : Option ℕ} (h : Inv cfg s)
    (hpath : s.Exists cfg path) (hmo : (s.entry path).mo = some mo)
    (hok : env.update = true ∨ path = []) :
    ∃ t, s.updateParent path mo pt_mo env = some (none, t) ∧ Inv cfg t ∧ t.entry = s.entry := by
  obtain ⟨t, ht, hinv, hentry, -⟩ := h.updatePde hpath hmo env.update
  have htrue : (env.update || path.isEmpty) = true := by
    rcases hok with hok | rfl
    · rw [hok]
      rfl
    · exact Bool.or_true _
  rw [htrue] at ht
  unfold State.updateParent
  rw [ht]
  exact ⟨t, rfl, hinv, hentry⟩

/-- The update fails, and what this call created is freed. -/
theorem Inv.updateParent_failed {mo o : ℕ} (h : Inv cfg s) (hpath : s.Exists cfg path)
    (hmo : (s.entry path).mo = some mo) (hok : env.update = false) (hroot : path ≠ []) :
    s.updateParent path mo (some o) env = some (some .update,
      ((s.setEntry path { s.entry path with mo := none, mo_offset := 0 }).freeMo o).freeEntries
        path) := by
  obtain ⟨t, ht, -, -, hsame⟩ := h.updatePde hpath hmo env.update
  have hfalse : (env.update || path.isEmpty) = false := by
    rw [hok, Bool.false_or]
    cases path with
    | nil => exact absurd rfl hroot
    | cons i parent => rfl
  obtain rfl := hsame hok
  rw [hfalse] at ht
  unfold State.updateParent
  rw [ht]

/-! ### The start of an allocation -/

/-- The entry has entries, if it needs them, and no object yet. -/
structure Ready (cfg : Config) (s : State) (path : List ℕ) (t : State) : Prop where
  shape : Shape cfg t
  owned : Owned t none
  inside : t.Exists cfg path
  other : ∀ q ≠ path, t.entry q = s.entry q
  self : { t.entry path with entries := false } = s.entry path
  created : t.created = s.created
  freed : t.freed = s.freed
  pde : t.pde = s.pde

/-- An entry without an object has nothing else. -/
theorem Inv.blank (h : Inv cfg s) (hmo : (s.entry path).mo = none) :
    (s.entry path).is_shared_mo = false ∧ (s.entry path).mo_offset = 0 ∧
      (s.entry path).entries = false := by
  have hblank := h.shape.blank path hmo
  refine ⟨hblank.1, hblank.2, ?_⟩
  cases hentries : (s.entry path).entries with
  | false => rfl
  | true =>
    have hsome := h.hasMo path hentries
    rw [hmo] at hsome
    exact nomatch hsome

theorem Inv.ready (h : Inv cfg s) (hpath : s.Exists cfg path)
    (hmo : (s.entry path).mo = none) : Ready cfg s path s := by
  obtain ⟨-, -, hentries⟩ := h.blank hmo
  refine ⟨h.shape, h.owned, hpath, fun _ _ => rfl, ?_, rfl, rfl, rfl⟩
  rw [← hentries]

theorem Inv.ready_newEntries (h : Inv cfg s) (hpath : s.Exists cfg path)
    (hmo : (s.entry path).mo = none) (hlevel : levelOf cfg path ≤ OPU_VM_PTE) :
    Ready cfg s path (s.newEntries path) := by
  obtain ⟨-, -, hentries⟩ := h.blank hmo
  have hself : (s.newEntries path).entry path = { s.entry path with entries := true } :=
    if_pos rfl
  refine ⟨h.shape.newEntries hpath hentries hlevel, ?_, ?_, ?_, ?_, rfl, rfl, rfl⟩
  · rw [newEntries_eq h.shape hentries]
    exact h.owned.setEntry fun _ => rfl
  · refine hpath.mono fun p hp => ?_
    rw [newEntries_eq h.shape hentries]
    exact entry_setEntry (P := fun p e => s.tables p = true → e.entries = true)
      (fun _ => rfl) (fun _ _ => id) p hp
  · intro q hq
    rw [newEntries_eq h.shape hentries]
    exact Function.update_of_ne hq _ _
  · rw [hself]
    dsimp only
    rw [← hentries]

variable {t : State}

/-- The entry is none of the tables, apart from its entries. -/
theorem Ready.mo (hr : Ready cfg s path t) (hmo : (s.entry path).mo = none) :
    (t.entry path).mo = none := by
  have := congrArg Entry.mo hr.self
  exact this.trans hmo

/-- **What the failing allocation restores.** -/
theorem Inv.restored {u : State} (h : Inv cfg s) (hmo : (s.entry path).mo = none)
    (hother : ∀ q ≠ path, u.entry q = s.entry q)
    (hself : { u.entry path with entries := false } = s.entry path) :
    (u.freeEntries path).entry = s.entry := by
  obtain ⟨-, -, hentries⟩ := h.blank hmo
  funext q
  unfold freeEntries
  dsimp only
  by_cases hq : q = path
  · subst hq
    rw [if_pos rfl]
    exact hself
  · rw [if_neg hq]
    split_ifs with hchild
    · refine (h.shape.outside q fun hin => ?_).symm
      obtain ⟨rfl, hne, -⟩ := hchild
      cases q with
      | nil => exact hne rfl
      | cons i q => exact Bool.false_ne_true (hentries.symm.trans hin.2.1)
    · exact hother q hq

/-- No object could be created. -/
theorem Inv.create_failed (h : Inv cfg s) (hmo : (s.entry path).mo = none)
    (hr : Ready cfg s path t) : t.freeEntries path = s := by
  have hentry := h.restored hmo hr.other hr.self
  have hcreated := hr.created
  have hfreed := hr.freed
  have hpde := hr.pde
  cases s
  unfold freeEntries at hentry ⊢
  dsimp only at hentry hcreated hfreed hpde
  rw [hentry, hcreated, hfreed, hpde]

/-- **An object was created, and is freed.** -/
theorem Inv.discarded_failed {u : State} (h : Inv cfg s) (hmo : (s.entry path).mo = none)
    (hr : Ready cfg s path t) (hother : ∀ q ≠ path, u.entry q = s.entry q)
    (hself : { u.entry path with entries := false } = s.entry path)
    (hcreated : u.created = t.newMo.created) (hfreed : u.freed = t.newMo.freed)
    (hpde : u.pde = t.newMo.pde) :
    Inv cfg ((u.freeMo t.created).freeEntries path) ∧
      Unchanged s ((u.freeMo t.created).freeEntries path) := by
  have hentry : ((u.freeMo t.created).freeEntries path).entry = s.entry :=
    h.restored (u := u.freeMo t.created) hmo hother hself
  have hf : ((u.freeMo t.created).freeEntries path).freed =
      Function.update s.freed s.created (s.freed s.created + 1) := by
    unfold freeEntries freeMo
    dsimp only
    rw [hfreed, ← hr.created, ← hr.freed]
    rfl
  have hp : ∀ o, o ≠ s.created → ((u.freeMo t.created).freeEntries path).pde o = s.pde o := by
    intro o ho
    unfold freeEntries freeMo
    dsimp only
    rw [hpde, ← hr.pde]
    exact Function.update_of_ne (hr.created ▸ ho) _ _
  refine ⟨h.discarded hentry ?_ hf hp, hentry, fun o ho => ?_, fun o ho => hp o (by omega)⟩
  · unfold freeEntries freeMo
    dsimp only
    rw [hcreated, ← hr.created]
    rfl
  · rw [hf, Function.update_of_ne (by omega)]

/-! ### The entry gets its object -/

theorem mo_setEntry {e : Entry} : ((s.setEntry path e).entry path).mo = e.mo :=
  congrArg Entry.mo (Function.update_self ..)

/-- What is left to show of the tables of entries. -/
theorem Inv.hasMo_of {u : State} (h : Inv cfg s) (hmo : (u.entry path).mo.isSome = true)
    (hother : ∀ q ≠ path, (u.entry q).mo = (s.entry q).mo ∧
      (u.entry q).entries = (s.entry q).entries) : HasMo u := by
  intro q hq
  by_cases hpath : q = path
  · rw [hpath]
    exact hmo
  · obtain ⟨hm, he⟩ := hother q hpath
    rw [hm]
    exact h.hasMo q (he.symm.trans hq)

/-- An entry that owns the object it gets. -/
theorem count_own {e : Entry} (hmo : e.mo = none) (o y : ℕ) (off : ℕ) :
    ({ e with mo := some y, mo_offset := off, is_shared_mo := false } : Entry).own.count o =
      e.own.count o + if o = y then 1 else 0 := by
  unfold Entry.own
  dsimp only
  rw [hmo, if_neg Bool.false_ne_true, Option.toList_none, ite_self, List.nil_append,
    Option.toList_some, List.singleton_append, List.count_cons]
  exact congrArg _ (if_congr (beq_iff_eq.trans eq_comm) rfl rfl)

/-- An entry that keeps the page of its group. -/
theorem count_shared {e : Entry} (hshared : e.shared_mo = none) (o y : ℕ) :
    ({ e with shared_mo := some y } : Entry).own.count o =
      e.own.count o + if o = y then 1 else 0 := by
  unfold Entry.own
  dsimp only
  rw [hshared, List.count_append, List.count_append, Option.toList_none, Option.toList_some,
    List.count_nil, List.count_singleton, Nat.add_zero]
  exact congrArg _ (if_congr (beq_iff_eq.trans eq_comm) rfl rfl)

/-- An entry that joins its group owns nothing more. -/
theorem own_join {e : Entry} (hmo : e.mo = none) (y off : ℕ) :
    ({ e with mo := some y, mo_offset := off, is_shared_mo := true } : Entry).own = e.own := by
  unfold Entry.own
  dsimp only
  rw [hmo, if_pos rfl, Option.toList_none, ite_self]

/-- The entry has a new object of its own. -/
def withOwn (t : State) (path : List ℕ) : State :=
  t.newMo.setEntry path
    { t.newMo.entry path with mo := some t.created, mo_offset := 0, is_shared_mo := false }

theorem entry_withOwn_self : ((withOwn t path).entry path) =
    { t.entry path with mo := some t.created, mo_offset := 0, is_shared_mo := false } :=
  Function.update_self ..

theorem entry_withOwn_of_ne {q : List ℕ} (hq : q ≠ path) :
    (withOwn t path).entry q = t.entry q :=
  Function.update_of_ne hq ..

/-- **An object of its own.** -/
theorem Ready.own (h : Inv cfg s) (hmo : (s.entry path).mo = none) (hr : Ready cfg s path t) :
    Inv cfg (withOwn t path) := by
  have htmo : (t.newMo.entry path).mo = none := hr.mo hmo
  have hshape := hr.shape.newMo
  have howned := hr.owned.newMo hr.shape
  refine ⟨hshape.setEntry hr.inside rfl nofun fun o ho => ?_,
    howned.take fun o => count_own htmo o t.created 0, ?_⟩
  · rcases ho with ho | ho
    · obtain rfl := Option.some.inj ho
      exact (howned.unowned _ rfl).1
    · exact hshape.live path o (.inr ho)
  · have hsome : ((withOwn t path).entry path).mo.isSome = true := by
      rw [entry_withOwn_self]
      rfl
    refine h.hasMo_of hsome fun q hq => ?_
    · rw [entry_withOwn_of_ne hq]
      exact ⟨congrArg Entry.mo (hr.other q hq), congrArg Entry.entries (hr.other q hq)⟩

/-- The entry has a place in the page. -/
def withPlace (t : State) (path : List ℕ) (o off : ℕ) : State :=
  t.setEntry path { t.entry path with mo := some o, mo_offset := off, is_shared_mo := true }

/-- The entry keeps a new page. -/
def withPage (t : State) (owner : List ℕ) : State :=
  t.newMo.setEntry owner { t.newMo.entry owner with shared_mo := some t.created }

theorem tables_withPlace (o off : ℕ) : (withPlace t path o off).tables = t.tables :=
  tables_setEntry rfl

theorem tables_withPage (owner : List ℕ) : (withPage t owner).tables = t.tables :=
  @tables_setEntry t.newMo owner { t.newMo.entry owner with shared_mo := some t.created } rfl

/-- **A page for the group**, and the place in it. -/
theorem Ready.share {owner : List ℕ} {off : ℕ} (h : Inv cfg s) (hmo : (s.entry path).mo = none)
    (hr : Ready cfg s path t) (howner : t.Exists cfg owner)
    (hnone : (t.entry owner).shared_mo = none) :
    Inv cfg (withPlace (withPage t owner) path t.created off) := by
  generalize hw : withPage t owner = w
  have hshape := hr.shape.newMo
  have howned := hr.owned.newMo hr.shape
  have hlive := (howned.unowned _ rfl).1
  have hwshape : Shape cfg w := by
    subst hw
    refine hshape.setEntry howner rfl (hshape.blank owner) fun o ho => ?_
    rcases ho with ho | ho
    · exact hshape.live owner o (.inl ho)
    · obtain rfl := Option.some.inj ho
      exact hlive
  have hwowned : Owned w none := by
    subst hw
    exact howned.take fun o => count_shared hnone o t.created
  have hwother : ∀ q, (w.entry q).mo = (t.entry q).mo ∧
      (w.entry q).entries = (t.entry q).entries := by
    subst hw
    exact entry_setEntry (P := fun q e => e.mo = (t.entry q).mo ∧ e.entries = (t.entry q).entries)
      ⟨rfl, rfl⟩ fun _ _ => ⟨rfl, rfl⟩
  have hwlive : w.Live t.created := by
    subst hw
    exact hlive
  have hwmo : (w.entry path).mo = none := (hwother path).1.trans (hr.mo hmo)
  have hwpath : w.Exists cfg path :=
    (exists_congr (hw ▸ tables_withPage owner)).2 hr.inside
  refine ⟨hwshape.setEntry hwpath rfl nofun fun o ho => ?_,
    hwowned.setEntry fun o => by rw [own_join hwmo], ?_⟩
  · rcases ho with ho | ho
    · obtain rfl := Option.some.inj ho
      exact hwlive
    · exact hwshape.live path o (.inr ho)
  · refine h.hasMo_of (congrArg Option.isSome mo_setEntry) fun q hq => ?_
    · obtain ⟨hm, he⟩ := hwother q
      unfold withPlace setEntry
      dsimp only
      rw [Function.update_of_ne hq]
      exact ⟨hm.trans (congrArg Entry.mo (hr.other q hq)),
        he.trans (congrArg Entry.entries (hr.other q hq))⟩

/-- **A place in the page of the group.** -/
theorem Ready.join {owner : List ℕ} {o off : ℕ} (h : Inv cfg s) (hmo : (s.entry path).mo = none)
    (hr : Ready cfg s path t) (hsome : (t.entry owner).shared_mo = some o) :
    Inv cfg (withPlace t path o off) := by
  have hlive : t.Live o := hr.shape.live owner o (.inr hsome)
  refine ⟨hr.shape.setEntry hr.inside rfl nofun fun o' ho => ?_,
    hr.owned.setEntry fun o' => by rw [own_join (hr.mo hmo)], ?_⟩
  · rcases ho with ho | ho
    · obtain rfl := Option.some.inj ho
      exact hlive
    · exact hr.shape.live path o' (.inr ho)
  · refine h.hasMo_of (congrArg Option.isSome mo_setEntry) fun q hq => ?_
    unfold withPlace setEntry
    dsimp only
    rw [Function.update_of_ne hq]
    exact ⟨congrArg Entry.mo (hr.other q hq), congrArg Entry.entries (hr.other q hq)⟩

/-! ### An allocation -/

/-- What an allocation comes to. -/
def Outcome (cfg : Config) (s : State) (path : List ℕ) (r : Option (Option Errno × State)) : Prop :=
  ∃ err t, r = some (err, t) ∧ Inv cfg t ∧ (err ≠ none → Unchanged s t) ∧
    (err = none → (t.entry path).mo.isSome = true)

/-- The index of the entry that keeps the page. -/
theorem getEntryMoIndex_cases (hroot : path ≠ [] ∨ sharedLevel cfg (levelOf cfg path) = false) :
    opuVmGetEntryMoIndex cfg path = some none ∧ sharedLevel cfg (levelOf cfg path) = false ∨
      ∃ i j parent off, path = i :: parent ∧ j ≤ i ∧
        opuVmGetEntryMoIndex cfg path = some (some (j :: parent, off)) ∧
          sharedLevel cfg (levelOf cfg path) = true := by
  unfold opuVmGetEntryMoIndex
  dsimp only
  cases hshared : sharedLevel cfg (levelOf cfg path) with
  | false => exact .inl ⟨rfl, rfl⟩
  | true =>
    rw [hshared] at hroot
    cases path with
    | nil => exact absurd rfl (hroot.resolve_right (by decide))
    | cons i parent =>
      exact .inr ⟨i, _, parent, _, rfl, Nat.div_mul_le_self _ _, rfl, rfl⟩

/-- Without its object the entry is as it was. -/
theorem Ready.undone (h : Inv cfg s) (hmo : (s.entry path).mo = none) (hr : Ready cfg s path t) :
    ({ shared_mo := (t.entry path).shared_mo } : Entry) = s.entry path := by
  obtain ⟨hshared, hoffset, -⟩ := h.blank hmo
  have hself := hr.self
  rw [← hself] at hmo hshared hoffset ⊢
  dsimp only at hmo hshared hoffset
  generalize t.entry path = e at hmo hshared hoffset ⊢
  cases e
  dsimp only at hmo hshared hoffset
  subst hmo hshared hoffset
  rfl

/-- Nothing could be created. -/
theorem Ready.create_outcome (h : Inv cfg s) (hmo : (s.entry path).mo = none)
    (hr : Ready cfg s path t) :
    Outcome cfg s path (some (some .create, t.freeEntries path)) := by
  refine ⟨_, _, rfl, ?_, fun _ => ?_, nofun⟩
  · rw [h.create_failed hmo hr]
    exact h
  · rw [h.create_failed hmo hr]
    exact .refl

/-- What was created could not be cleared. -/
theorem Ready.clear_outcome (h : Inv cfg s) (hmo : (s.entry path).mo = none)
    (hr : Ready cfg s path t) :
    Outcome cfg s path (some (some .clear, (t.newMo.freeMo t.created).freeEntries path)) := by
  obtain ⟨hinv, hsame⟩ := h.discarded_failed (u := t.newMo) hmo hr hr.other hr.self rfl rfl rfl
  exact ⟨_, _, rfl, hinv, fun _ => hsame, nofun⟩

/-- The entry has its object, and the parent is updated. -/
theorem Inv.updated_outcome {u : State} {o : ℕ} {pt_mo : Option ℕ} (hu : Inv cfg u)
    (hin : u.Exists cfg path) (hmo : (u.entry path).mo = some o)
    (hok : env.update = true ∨ path = []) :
    Outcome cfg s path (u.updateParent path o pt_mo env) := by
  obtain ⟨v, hv, hinv, hentry⟩ := hu.updateParent_ok hin hmo hok
  refine ⟨none, v, hv, hinv, fun hne => absurd rfl hne, fun _ => ?_⟩
  rw [hentry, hmo]
  rfl

/-- An object of its own, and the parent is updated or the object is freed. -/
theorem Ready.own_outcome (h : Inv cfg s) (hmo : (s.entry path).mo = none)
    (hr : Ready cfg s path t) :
    Outcome cfg s path
      ((withOwn t path).updateParent path t.created (some t.created) env) := by
  have hu := hr.own h hmo
  have hutables : (withOwn t path).tables = t.newMo.tables := tables_setEntry rfl
  have hin : (withOwn t path).Exists cfg path := (exists_congr hutables).2 hr.inside
  have humo : ((withOwn t path).entry path).mo = some t.created := by rw [entry_withOwn_self]
  by_cases hupdate : env.update = true ∨ path = []
  · exact hu.updated_outcome hin humo hupdate
  · obtain ⟨hupdate, hroot⟩ := not_or.1 hupdate
    rw [Bool.not_eq_true] at hupdate
    rw [hu.updateParent_failed hin humo hupdate hroot, entry_withOwn_self]
    generalize hcleared : (withOwn t path).setEntry path
      { t.entry path with mo := none, mo_offset := 0, is_shared_mo := false } = u
    have hother : ∀ q ≠ path, u.entry q = s.entry q := fun q hq => by
      rw [← hcleared]
      exact (Function.update_of_ne hq _ _).trans ((entry_withOwn_of_ne hq).trans (hr.other q hq))
    have hself : { u.entry path with entries := false } = s.entry path := by
      rw [← hcleared]
      unfold setEntry
      dsimp only
      rw [Function.update_self]
      exact hr.undone h hmo
    obtain ⟨hinv, hsame⟩ := h.discarded_failed hmo hr hother hself
      (hcleared ▸ rfl) (hcleared ▸ rfl) (hcleared ▸ rfl)
    exact ⟨_, _, rfl, hinv, fun _ => hsame, nofun⟩

/-- **From where the entry has no object.** -/
theorem Inv.allocMo (h : Inv cfg s) (hmo : (s.entry path).mo = none) (hr : Ready cfg s path t)
    (hok : sharedLevel cfg (levelOf cfg path) = false ∨
      path ≠ [] ∧ (env.update = true ∨ (env.create && env.clear) = false ∧ ¬Joins cfg s path)) :
    Outcome cfg s path (t.allocMo cfg path env) := by
  unfold State.allocMo
  rcases getEntryMoIndex_cases (hok.symm.imp And.left id) with
    ⟨hnone, -⟩ | ⟨i, j, parent, off, rfl, hji, hsome, hlevel⟩
  · rw [hnone]
    dsimp only
    cases hcreate : env.create with
    | false => exact hr.create_outcome h hmo
    | true =>
      cases hclear : env.clear with
      | false => exact hr.clear_outcome h hmo
      | true =>
        exact hr.own_outcome h hmo
  · rw [hsome]
    dsimp only
    have hok' := hok.resolve_left (by rw [hlevel]; decide)
    cases hshared : (t.entry (j :: parent)).shared_mo with
    | none =>
      have hin : t.Exists cfg (j :: parent) :=
        ⟨hr.inside.1, hr.inside.2.1, Nat.lt_of_le_of_lt hji hr.inside.2.2⟩
      cases hcreate : env.create with
      | false => exact hr.create_outcome h hmo
      | true =>
        cases hclear : env.clear with
        | false => exact hr.clear_outcome h hmo
        | true =>
          have hupdate : env.update = true := by
            refine hok'.2.resolve_right fun hfails => ?_
            rw [hcreate, hclear] at hfails
            exact nomatch hfails.1
          have hu := @Ready.share _ _ _ _ _ off h hmo hr hin hshared
          have hutables := (@tables_withPlace (i :: parent) (withPage t (j :: parent))
            t.created off).trans (tables_withPage _)
          exact @Inv.updated_outcome _ _ _ _ _ _ (some t.created) hu
            ((exists_congr hutables).2 hr.inside) mo_setEntry (.inl hupdate)
    | some o =>
      have hupdate : env.update = true := by
        have hkept : (s.entry (j :: parent)).shared_mo = some o := by
          by_cases hself : j :: parent = i :: parent
          · rw [hself] at hshared ⊢
            rw [← hr.self]
            exact hshared
          · rw [← hr.other _ hself]
            exact hshared
        exact hok'.2.resolve_right fun hfails => hfails.2 ⟨_, off, o, hsome, hkept⟩
      have hu := @Ready.join _ _ _ _ _ _ off h hmo hr hshared
      exact @Inv.updated_outcome _ _ _ _ _ _ none hu
        ((exists_congr (tables_withPlace o off)).2 hr.inside) mo_setEntry (.inl hupdate)

/-- An entry that has an object gets entries. -/
theorem Inv.newEntries (h : Inv cfg s) (hpath : s.Exists cfg path)
    (hmo : (s.entry path).mo.isSome = true) (ht : s.tables path = false)
    (hlevel : levelOf cfg path ≤ OPU_VM_PTE) : Inv cfg (s.newEntries path) := by
  refine ⟨h.shape.newEntries hpath ht hlevel, ?_, ?_⟩
  · rw [newEntries_eq h.shape ht]
    exact h.owned.setEntry fun _ => rfl
  · rw [newEntries_eq h.shape ht]
    refine h.hasMo_of ((congrArg Option.isSome mo_setEntry).trans hmo) fun q hq => ?_
    unfold setEntry
    dsimp only
    rw [Function.update_of_ne hq]
    exact ⟨rfl, rfl⟩

/-- **An allocation that meets the condition.** -/
theorem Inv.alloc {need_spe : Bool} (h : Inv cfg s) (hpath : s.Exists cfg path)
    (hok : StepOk cfg s ⟨path, need_spe, env⟩) :
    Outcome cfg s path (s.amdgpuVmAllocPts cfg path need_spe env) := by
  have hlevel : hasEntries cfg path need_spe = true → levelOf cfg path ≤ OPU_VM_PTE := by
    intro hhas
    unfold hasEntries at hhas
    simp only [Bool.or_eq_true, Bool.and_eq_true, decide_eq_true_eq] at hhas
    omega
  unfold amdgpuVmAllocPts
  by_cases hneed : (hasEntries cfg path need_spe && !(s.entry path).entries) = true
  · obtain ⟨hhas, hentries⟩ := Bool.and_eq_true_iff.1 hneed
    rw [Bool.not_eq_true'] at hentries
    rw [hneed, Bool.true_and, if_pos rfl]
    cases harray : env.array with
    | false => exact ⟨_, s, rfl, h, fun _ => .refl, nofun⟩
    | true =>
      rw [if_neg (by decide)]
      have hself : (s.newEntries path).entry path = { s.entry path with entries := true } :=
        if_pos rfl
      have hkept : ((s.newEntries path).entry path).mo = (s.entry path).mo := by rw [hself]
      cases hmo : (s.entry path).mo with
      | some o =>
        have hsome : (s.entry path).mo.isSome = true := by
          rw [hmo]
          rfl
        dsimp only
        rw [hkept, if_pos hsome]
        exact ⟨none, _, rfl, h.newEntries hpath hsome hentries (hlevel hhas),
          fun hne => absurd rfl hne, fun _ => hkept ▸ hsome⟩
      | none =>
        dsimp only
        rw [hkept, hmo, if_neg (by decide)]
        refine h.allocMo hmo (h.ready_newEntries hpath hmo (hlevel hhas)) ?_
        rcases hok with hsome | ⟨-, hno⟩ | hok
        · rw [hmo] at hsome
          exact nomatch hsome
        · rw [harray] at hno
          exact nomatch hno
        · exact hok
  · rw [Bool.not_eq_true] at hneed
    rw [hneed, Bool.false_and, if_neg Bool.false_ne_true, if_neg Bool.false_ne_true]
    dsimp only
    cases hmo : (s.entry path).mo with
    | some o =>
      refine ⟨none, s, rfl, h, fun hne => absurd rfl hne, fun _ => ?_⟩
      rw [hmo]
      rfl
    | none =>
      refine h.allocMo hmo (h.ready hpath hmo) ?_
      rcases hok with hsome | ⟨hhas, -⟩ | hok
      · rw [hmo] at hsome
        exact nomatch hsome
      · rw [hhas, (h.blank hmo).2.2] at hneed
        exact nomatch hneed
      · exact hok

/-- A root without a table. -/
theorem Inv.start : Inv cfg {} where
  shape :=
    { outside := fun _ _ => rfl
      level := fun _ hp => nomatch hp
      blank := fun _ _ => ⟨rfl, rfl⟩
      live := fun _ _ ho => ho.elim (fun h => nomatch h) fun h => nomatch h
      fresh := fun _ _ => rfl
      pde := fun _ _ _ _ hv => nomatch hv }
  owned := ⟨fun _ ho _ => absurd ho (Nat.not_lt_zero _), nofun⟩
  hasMo := fun _ hp => nomatch hp

/-- **The invariant holds in every run.** -/
theorem Inv.of_run {calls : List Call}
    (hrun : Run (Guarded (StepOk cfg) (Step cfg)) {} calls s) : Inv cfg s := by
  refine hrun.inv (fun s c t h hstep => ?_) Inv.start
  obtain ⟨hok, hpath, err, ht⟩ := hstep
  obtain ⟨err', t', ht', hinv, -⟩ := h.alloc hpath hok
  obtain ⟨-, rfl⟩ := Prod.mk.inj (Option.some.inj (ht.symm.trans ht'))
  exact hinv

end State

end Codrive.Vm.PageTables
