/-
# The invariant of the page tables

`Shape` says where entries are and that they refer to nothing that was freed, and `Owned` that every
object has one owner or was freed once.  An object that was just created has no owner yet; it is
told apart in `Owned`.  The lemmas follow the steps of an allocation.
-/

import Codrive.Vm.PageTables
import Mathlib.Data.List.Basic

namespace Codrive.Vm.PageTables

open Codrive.Basis

/-- The objects that go with the entry: its own, unless siblings share it, and the page it keeps. -/
def Entry.own (e : Entry) : List ℕ :=
  (if e.is_shared_mo then [] else e.mo.toList) ++ e.shared_mo.toList

/-- The objects the entry refers to. -/
def Entry.Refers (e : Entry) (o : ℕ) : Prop := e.mo = some o ∨ e.shared_mo = some o

theorem Entry.refers_of_mem {e : Entry} {o : ℕ} (h : o ∈ e.own) : e.Refers o := by
  unfold own at h
  rcases List.mem_append.1 h with h | h
  · split_ifs at h
    · exact absurd h List.not_mem_nil
    · exact .inl (Option.mem_toList.1 h)
  · exact .inr (Option.mem_toList.1 h)

namespace State

variable {cfg : Config} {s : State} {path : List ℕ} {x : Option ℕ}

/-- An object that is there. -/
def Live (s : State) (o : ℕ) : Prop := o < s.created ∧ s.freed o = 0

/-- **Where entries are, and that what they refer to is there.** -/
structure Shape (cfg : Config) (s : State) : Prop where
  outside : ∀ p, ¬s.Exists cfg p → s.entry p = {}
  level : ∀ p, s.tables p = true → levelOf cfg p ≤ OPU_VM_PTE
  blank : ∀ p, (s.entry p).mo = none → (s.entry p).is_shared_mo = false ∧ (s.entry p).mo_offset = 0
  live : ∀ p o, (s.entry p).Refers o → s.Live o
  fresh : ∀ o, s.created ≤ o → s.freed o = 0
  pde : ∀ o off v, s.freed o = 0 → s.pde o off = some v → s.Live v.1

/-- **Every object has one owner, or was freed once.**  The object `x` has none yet. -/
structure Owned (s : State) (x : Option ℕ) : Prop where
  owner : ∀ o < s.created, x ≠ some o →
    s.freed o = 1 ∧ (∀ p, (s.entry p).own.count o = 0) ∨
      s.freed o = 0 ∧ ∃ p, (s.entry p).own.count o = 1 ∧ ∀ q ≠ p, (s.entry q).own.count o = 0
  unowned : ∀ o ∈ x, s.Live o ∧ ∀ p, (s.entry p).own.count o = 0

/-- A table of entries is below a table. -/
def HasMo (s : State) : Prop := ∀ p, s.tables p = true → (s.entry p).mo.isSome = true

/-- **The invariant.** -/
structure Inv (cfg : Config) (s : State) : Prop where
  shape : Shape cfg s
  owned : Owned s none
  hasMo : HasMo s

/-! ### Entries -/

/-- More tables make more entries. -/
theorem Exists.mono {t : State} (h : s.Exists cfg path)
    (ht : ∀ p, s.tables p = true → t.tables p = true) : t.Exists cfg path := by
  unfold Exists at h ⊢
  induction path with
  | nil => trivial
  | cons i p ih => exact ⟨ih h.1, ht p h.2.1, h.2.2⟩

/-- The same tables make the same entries. -/
theorem exists_congr {t : State} (ht : t.tables = s.tables) :
    t.Exists cfg path ↔ s.Exists cfg path := by
  unfold Exists
  rw [ht]

theorem tables_setEntry {e : Entry} (he : e.entries = (s.entry path).entries) :
    (s.setEntry path e).tables = s.tables := by
  funext p
  unfold tables setEntry
  dsimp only
  by_cases hp : p = path
  · subst hp
    rw [Function.update_self, he]
  · rw [Function.update_of_ne hp]

/-- What is in an entry that was set. -/
theorem entry_setEntry {e : Entry} {P : List ℕ → Entry → Prop} (hset : P path e)
    (hother : ∀ p, p ≠ path → P p (s.entry p)) (p : List ℕ) :
    P p ((s.setEntry path e).entry p) := by
  unfold setEntry
  dsimp only
  by_cases hp : p = path
  · subst hp
    rw [Function.update_self]
    exact hset
  · rw [Function.update_of_ne hp]
    exact hother p hp

/-- **An entry is set.** -/
theorem Shape.setEntry {e : Entry} (h : Shape cfg s) (hpath : s.Exists cfg path)
    (he : e.entries = (s.entry path).entries)
    (hblank : e.mo = none → e.is_shared_mo = false ∧ e.mo_offset = 0)
    (hlive : ∀ o, e.Refers o → s.Live o) : Shape cfg (s.setEntry path e) := by
  have htables : (s.setEntry path e).tables = s.tables := tables_setEntry he
  refine ⟨fun p hp => ?_, fun p hp => h.level p (htables ▸ hp),
    entry_setEntry (P := fun _ e => e.mo = none → e.is_shared_mo = false ∧ e.mo_offset = 0)
      hblank fun p _ => h.blank p,
    entry_setEntry (P := fun _ e => ∀ o, e.Refers o → s.Live o) hlive fun p _ => h.live p,
    h.fresh, h.pde⟩
  rw [exists_congr htables] at hp
  have hne : p ≠ path := by
    rintro rfl
    exact hp hpath
  exact (Function.update_of_ne hne _ _).trans (h.outside p hp)

/-- **An entry is set** that owns what it owned. -/
theorem Owned.setEntry {e : Entry} (h : Owned s x)
    (hown : ∀ o, e.own.count o = (s.entry path).own.count o) :
    Owned (s.setEntry path e) x := by
  have hsame : ∀ p o, ((s.setEntry path e).entry p).own.count o = (s.entry p).own.count o :=
    entry_setEntry (P := fun p e => ∀ o, e.own.count o = (s.entry p).own.count o) hown
      fun _ _ _ => rfl
  constructor
  · simp only [hsame]
    exact h.owner
  · simp only [hsame]
    exact h.unowned

/-- **An entry takes the object that has no owner.** -/
theorem Owned.take {e : Entry} {y : ℕ} (h : Owned s (some y))
    (hown : ∀ o, e.own.count o = (s.entry path).own.count o + if o = y then 1 else 0) :
    Owned (s.setEntry path e) none := by
  obtain ⟨⟨-, hfreed⟩, hno⟩ := h.unowned y rfl
  have hother : ∀ p o, o ≠ y →
      ((s.setEntry path e).entry p).own.count o = (s.entry p).own.count o := by
    intro p o ho
    refine entry_setEntry (P := fun p e => e.own.count o = (s.entry p).own.count o) ?_
      (fun _ _ => rfl) p
    rw [hown, if_neg ho]
    rfl
  have hself : ∀ p, ((s.setEntry path e).entry p).own.count y = if p = path then 1 else 0 := by
    refine entry_setEntry (P := fun p e => e.own.count y = if p = path then 1 else 0) ?_ ?_
    · rw [hown, hno, if_pos rfl, if_pos rfl]
    · intro p hp
      rw [hno, if_neg hp]
  refine ⟨fun o ho _ => ?_, nofun⟩
  by_cases hoy : o = y
  · subst hoy
    refine .inr ⟨hfreed, path, ?_, fun q hq => ?_⟩
    · rw [hself, if_pos rfl]
    · rw [hself, if_neg hq]
  · simp only [hother _ o hoy]
    exact h.owner o ho fun heq => hoy (Option.some.inj heq).symm

/-! ### Objects -/

/-- An object is created. -/
theorem Shape.newMo (h : Shape cfg s) : Shape cfg s.newMo where
  outside := h.outside
  level := h.level
  blank := h.blank
  live p o ho := ⟨Nat.lt_succ_of_lt (h.live p o ho).1, (h.live p o ho).2⟩
  fresh o ho := h.fresh o (Nat.le_of_succ_le ho)
  pde o off v hfreed hv := by
    unfold State.newMo at hv
    dsimp only at hv
    by_cases ho : o = s.created
    · subst ho
      rw [Function.update_self] at hv
      exact nomatch hv
    · rw [Function.update_of_ne ho] at hv
      have hlive := h.pde o off v hfreed hv
      exact ⟨Nat.lt_succ_of_lt hlive.1, hlive.2⟩

theorem Owned.newMo (h : Owned s none) (hshape : Shape cfg s) :
    Owned s.newMo (some s.created) := by
  constructor
  · intro o ho hne
    have hlt : o < s.created := by
      have hne' : o ≠ s.created := fun heq => hne (congrArg some heq.symm)
      exact Nat.lt_of_le_of_ne (Nat.le_of_lt_succ ho) hne'
    exact h.owner o hlt nofun
  · intro o ho
    obtain rfl := Option.mem_some_iff.1 ho
    refine ⟨⟨Nat.lt_succ_self _, hshape.fresh _ (Nat.le_refl _)⟩, fun p => ?_⟩
    refine List.count_eq_zero.2 fun hmem => ?_
    exact Nat.lt_irrefl _ (hshape.live p _ (Entry.refers_of_mem hmem)).1

/-- **An object is created and freed**, and the entries are as they were. -/
theorem Inv.discarded {t : State} (h : Inv cfg s) (hentry : t.entry = s.entry)
    (hcreated : t.created = s.created + 1)
    (hfreed : t.freed = Function.update s.freed s.created (s.freed s.created + 1))
    (hpde : ∀ o, o ≠ s.created → t.pde o = s.pde o) : Inv cfg t := by
  have htables : t.tables = s.tables := by
    unfold tables
    rw [hentry]
  have hnew : t.freed s.created = 1 := by
    rw [hfreed, Function.update_self, h.shape.fresh _ (Nat.le_refl _)]
  have hold : ∀ o, o ≠ s.created → t.freed o = s.freed o := fun o ho => by
    rw [hfreed, Function.update_of_ne ho]
  have hlive : ∀ o, s.Live o → t.Live o := fun o ho =>
    ⟨by rw [hcreated]; exact Nat.lt_succ_of_lt ho.1,
      (hold o (Nat.ne_of_lt ho.1)).trans ho.2⟩
  refine ⟨⟨fun p hp => ?_, fun p hp => h.shape.level p (htables ▸ hp), fun p hp => ?_,
    fun p o ho => ?_, fun o ho => ?_, fun o off v hf hv => ?_⟩, ⟨fun o ho _ => ?_, nofun⟩,
    fun p hp => ?_⟩
  · rw [exists_congr htables] at hp
    rw [hentry]
    exact h.shape.outside p hp
  · rw [hentry] at hp ⊢
    exact h.shape.blank p hp
  · rw [hentry] at ho
    exact hlive o (h.shape.live p o ho)
  · rw [hold o (by omega)]
    exact h.shape.fresh o (by omega)
  · have hne : o ≠ s.created := by
      rintro rfl
      omega
    rw [hpde o hne] at hv
    rw [hold o hne] at hf
    exact hlive _ (h.shape.pde o off v hf hv)
  · rw [hentry]
    by_cases hne : o = s.created
    · subst hne
      refine .inl ⟨hnew, fun p => List.count_eq_zero.2 fun hmem => ?_⟩
      exact Nat.lt_irrefl _ (h.shape.live p _ (Entry.refers_of_mem hmem)).1
    · rw [hold o hne]
      exact h.owned.owner o (by omega) nofun
  · rw [hentry]
    exact h.hasMo p (htables ▸ hp)

/-! ### Tables of entries -/

/-- The entries of a new array were none before. -/
theorem newEntries_eq (h : Shape cfg s) (ht : s.tables path = false) :
    s.newEntries path = s.setEntry path { s.entry path with entries := true } := by
  unfold newEntries setEntry
  refine congrArg (fun entry => { s with entry }) (funext fun q => ?_)
  by_cases hq : q = path
  · subst hq
    rw [if_pos rfl, Function.update_self]
  · rw [if_neg hq, Function.update_of_ne hq]
    split_ifs with hchild
    · refine (h.outside q fun hin => ?_).symm
      obtain ⟨rfl, hne⟩ := hchild
      cases q with
      | nil => exact hne rfl
      | cons i q => exact Bool.false_ne_true (ht.symm.trans hin.2.1)
    · rfl

/-- **A new array.** -/
theorem Shape.newEntries (h : Shape cfg s) (hpath : s.Exists cfg path)
    (ht : s.tables path = false) (hlevel : levelOf cfg path ≤ OPU_VM_PTE) :
    Shape cfg (s.newEntries path) := by
  rw [newEntries_eq h ht]
  have htables : ∀ p, (s.setEntry path { s.entry path with entries := true }).tables p = true →
      p = path ∨ s.tables p = true := fun p hp => by
    by_cases hp' : p = path
    · exact .inl hp'
    · refine .inr ?_
      unfold tables State.setEntry at hp
      dsimp only at hp
      rwa [Function.update_of_ne hp'] at hp
  have hmono : ∀ p, s.tables p = true →
      (s.setEntry path { s.entry path with entries := true }).tables p = true := fun p hp =>
    entry_setEntry (P := fun p e => s.tables p = true → e.entries = true)
      (fun _ => rfl) (fun _ _ => id) p hp
  refine ⟨fun p hp => ?_, fun p hp => ?_,
    entry_setEntry (P := fun _ e => e.mo = none → e.is_shared_mo = false ∧ e.mo_offset = 0)
      (h.blank path) fun p _ => h.blank p,
    entry_setEntry (P := fun _ e => ∀ o, e.Refers o → s.Live o) (h.live path)
      fun p _ => h.live p, h.fresh, h.pde⟩
  · have hold : ¬s.Exists cfg p := fun hin => hp (hin.mono hmono)
    have hne : p ≠ path := by
      rintro rfl
      exact hold hpath
    exact (Function.update_of_ne hne _ _).trans (h.outside p hold)
  · rcases htables p hp with rfl | hp
    · exact hlevel
    · exact h.level p hp

end State

end Codrive.Vm.PageTables
