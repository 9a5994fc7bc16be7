/-
# Runs of the VM mappings

Any sequence of opening a buffer, adding its mapping, removing it and closing the buffer, over any
number of buffers, for both readings of the two lines.  What `StepOk` keeps out: as they stand, the
lines keep every mapping from being added; read as meant, a record is mapped again while it is
linked, an address range that ends at `2 ^ 64` or an offset and size that wrap are taken for good,
and a removed mapping is still there by its record.
-/

import Codrive.Basis.Run
import Codrive.Vm.BoMap

namespace Codrive.Vm

open Codrive.Basis

/-! ### What a mapping asks for -/

/-- Address, offset and size are whole pages, and there is one. -/
def Request.Aligned (r : Request) : Prop :=
  r.saddr % 4096 = 0 ∧ r.offset % 4096 = 0 ∧ r.size ≠ 0 ∧ r.size % 4096 = 0

/-- No mapping of the tree has one of the pages. -/
def State.Free (s : State) (start last : ℕ) : Prop :=
  ∀ id ∈ s.va, last < (s.mapping id).start ∨ (s.mapping id).last < start

/-- **The request is good**: whole pages, no sum that wraps, inside the buffer, and free. -/
structure State.Fits (s : State) (size : ℕ) (r : Request) : Prop where
  aligned : r.Aligned
  saddr_lt : r.saddr + r.size < 2 ^ 64
  offset_lt : r.offset + r.size < 2 ^ 64
  inside : r.offset + r.size ≤ size
  free : s.Free (r.saddr / 4096) ((r.saddr + r.size - 1) / 4096)

/-- A request that is good but for sums that wrap has none, and its record is not linked. -/
def MapOk (dev : Device) (s : State) (id : ℕ) (r : Request) : Prop :=
  r.Aligned → r.saddr + r.size ≤ 2 ^ 64 →
    (r.offset + r.size) % 2 ^ 64 ≤ (dev.obos (s.mem id).bo).size →
    s.Free (r.saddr / 4096) ((r.saddr + r.size - 1) / 4096) →
      r.saddr + r.size ≠ 2 ^ 64 ∧ r.offset + r.size < 2 ^ 64 ∧ id ∉ s.va

section

variable {dev : Device} {s t : State} {id o : ℕ} {r : Request} {flags : ℕ}

theorem and_mask (x : ℕ) : x &&& OPU_PAGE4K_MASK = x % 4096 :=
  Nat.and_two_pow_sub_one_eq_mod x 12

theorem vmItIterFirst_eq_none {start last : ℕ} :
    (s.vmItIterFirst start last).isSome = false ↔ s.Free start last := by
  rw [Option.isSome_eq_false_iff, Option.isNone_iff_eq_none, State.vmItIterFirst,
    List.find?_eq_none]
  refine forall₂_congr fun id _ => ?_
  rw [decide_eq_true_eq]
  omega

/-- The state after a record is mapped. -/
def State.map (s : State) (id : ℕ) (r : Request) (flags : ℕ) : State :=
  { s with
    mem := Function.update s.mem id { s.mem id with bo_va_mapping :=
      ⟨r.saddr / 4096, (r.saddr + r.size - 1) / 4096, r.offset, flags⟩ }
    va := id :: s.va }

/-- **`opu_vm_bo_map`** maps a good request, and refuses the others with nothing changed. -/
theorem opuVmBoMap_spec (hok : MapOk dev s id r) :
    s.Fits (dev.obos (s.mem id).bo).size r ∧ id ∉ s.va ∧
        opuVmBoMap dev s id r flags = some (none, s.map id r flags) ∨
      ¬s.Fits (dev.obos (s.mem id).bo).size r ∧
        opuVmBoMap dev s id r flags = some (some .einval, s) := by
  have hs := r.saddr_lt
  have hz := r.size_lt
  by_cases hal : r.Aligned
  swap
  · refine .inr ⟨fun h => hal h.aligned, if_pos ?_⟩
    simp only [and_mask]
    unfold Request.Aligned at hal
    omega
  have hal' : ¬(r.saddr &&& OPU_PAGE4K_MASK ≠ 0 ∨ r.offset &&& OPU_PAGE4K_MASK ≠ 0 ∨ r.size = 0 ∨
      r.size &&& OPU_PAGE4K_MASK ≠ 0) := by
    simp only [and_mask]
    unfold Request.Aligned at hal
    omega
  have ⟨h₁, h₂, h₃, h₄⟩ := hal
  unfold opuVmBoMap
  rw [if_neg hal']
  dsimp only
  have hsub : u64 (r.saddr + r.size - 1) = (r.saddr + r.size - 1) % 2 ^ 64 := rfl
  have hadd : u64 (r.offset + r.size) = (r.offset + r.size) % 2 ^ 64 := rfl
  by_cases hsum : r.saddr ≥ u64 (r.saddr + r.size - 1) ∨
      u64 (r.offset + r.size) > (dev.obos (s.mem id).bo).size
  · refine .inr ⟨fun h => ?_, if_pos hsum⟩
    have h₁ := h.saddr_lt
    have h₂ := h.offset_lt
    have h₃ := h.inside
    omega
  rw [if_neg hsum]
  have hle : r.saddr + r.size ≤ 2 ^ 64 := by omega
  have hmod : u64 (r.saddr + r.size - 1) = r.saddr + r.size - 1 := u64_of_lt (by omega)
  rw [hmod]
  by_cases hfree : s.Free (r.saddr / 4096) ((r.saddr + r.size - 1) / 4096)
  · have hnone : (s.vmItIterFirst (r.saddr / OPU_PAGE4K_SIZE)
        ((r.saddr + r.size - 1) / OPU_PAGE4K_SIZE)).isSome = false :=
      vmItIterFirst_eq_none.2 hfree
    rw [if_neg (by simp [hnone])]
    obtain ⟨hne, hoff, hid⟩ := hok hal hle (by omega) hfree
    rw [if_neg hid]
    rw [u64_of_lt hoff] at hsum
    exact .inl ⟨⟨hal, by omega, hoff, by omega, hfree⟩, hid, rfl⟩
  · refine .inr ⟨fun h => hfree h.free, if_pos ?_⟩
    rw [← Bool.not_eq_false]
    exact fun h => hfree (vmItIterFirst_eq_none.1 h)

/-! ### The invariant -/

/-- The record is in use. -/
def State.Live (s : State) (id : ℕ) : Prop := ∃ o, id ∈ s.lists o

/-- What the VM is between two calls. -/
structure State.Inv (reading : Reading) (s : State) : Prop where
  nodup : s.va.Nodup
  apart : ∀ a ∈ s.va, ∀ b ∈ s.va, a ≠ b →
    (s.mapping a).last < (s.mapping b).start ∨ (s.mapping b).last < (s.mapping a).start
  mem_va : ∀ id, id ∈ s.va ↔ s.Live id ∧ (s.mapping id).start ≠ INVALID_ADDR
  lists_nodup : ∀ o, (s.lists o).Nodup
  owner : ∀ o, ∀ id ∈ s.lists o,
    (s.mem id).bo = o ∧ (s.mem id).vm = reading.assigns ∧ id < s.next

/-- **A record is mapped.** -/
theorem State.Inv.map {reading : Reading} (h : s.Inv reading) (hid : id ∉ s.va) (hl : s.Live id)
    {size : ℕ} (hf : s.Fits size r) (flags : ℕ) : (s.map id r flags).Inv reading := by
  have hself : (s.map id r flags).mapping id =
      ⟨r.saddr / 4096, (r.saddr + r.size - 1) / 4096, r.offset, flags⟩ := by
    simp [State.map, State.mapping]
  have hother : ∀ a, a ≠ id → (s.map id r flags).mapping a = s.mapping a := fun a ha => by
    simp [State.map, State.mapping, Function.update_of_ne ha]
  have hne : ∀ a ∈ s.va, a ≠ id := fun a ha h => hid (h ▸ ha)
  constructor
  case nodup => exact List.nodup_cons.2 ⟨hid, h.nodup⟩
  case apart =>
    intro a ha b hb hab
    rcases List.mem_cons.1 ha with ha | ha <;> rcases List.mem_cons.1 hb with hb | hb
    · exact absurd (ha.trans hb.symm) hab
    · rw [ha, hself, hother b (hne b hb)]
      exact hf.free b hb
    · rw [hb, hself, hother a (hne a ha)]
      exact (hf.free a ha).symm
    · rw [hother a (hne a ha), hother b (hne b hb)]
      exact h.apart a ha b hb hab
  case mem_va =>
    intro a
    by_cases ha : a = id
    · subst ha
      refine ⟨fun _ => ⟨hl, ?_⟩, fun _ => List.mem_cons_self⟩
      rw [hself]
      have := r.saddr_lt
      dsimp only [INVALID_ADDR]
      omega
    · rw [hother a ha]
      exact (List.mem_cons.trans (or_iff_right ha)).trans (h.mem_va a)
  case lists_nodup => exact h.lists_nodup
  case owner =>
    intro o a ha
    have := h.owner o a ha
    by_cases hai : a = id
    · subst hai
      simpa [State.map] using this
    · simpa [State.map, Function.update_of_ne hai] using this

/-- The record that is found is one of the buffer. -/
theorem findBoVa_mem {id : ℕ} (hf : s.findBoVa o = some id) :
    id ∈ s.lists o ∧ (s.mem id).vm = true :=
  ⟨List.mem_of_find?_eq_some hf, by simpa using List.find?_some hf⟩

/-- A mapping is added to an open buffer. -/
theorem findBoVa_eq_none {reading : Reading} (h : s.Inv reading) (ha : reading.assigns) :
    s.findBoVa o = none ↔ s.lists o = [] := by
  rw [State.findBoVa, List.find?_eq_none]
  constructor
  · intro hno
    refine List.eq_nil_iff_forall_not_mem.2 fun id hid => hno id hid ?_
    rw [(h.owner o id hid).2.1, ha]
  · intro hnil
    simp [hnil]

/-- **A buffer is opened.** -/
theorem State.Inv.open {reading : Reading} {alloc : Bool} {e : Option Errno} (h : s.Inv reading)
    (hstep : opuBoGemOpenObject reading dev alloc s o = some (e, t)) : t.Inv reading := by
  unfold opuBoGemOpenObject at hstep
  split_ifs at hstep
  · cases hstep
    exact h
  · cases hstep
    have hnew : ∀ o', s.next ∉ s.lists o' := fun o' hm => absurd (h.owner o' _ hm).2.2 (by omega)
    have hnva : s.next ∉ s.va := fun hm => by
      obtain ⟨⟨o', ho'⟩, -⟩ := (h.mem_va _).1 hm
      exact hnew o' ho'
    have hne : ∀ a ∈ s.va, a ≠ s.next := fun a ha h => hnva (h ▸ ha)
    constructor
    case nodup => exact h.nodup
    case apart =>
      intro a ha b hb hab
      dsimp only [State.mapping]
      rw [Function.update_of_ne (hne a ha), Function.update_of_ne (hne b hb)]
      exact h.apart a ha b hb hab
    case mem_va =>
      intro a
      by_cases ha : a = s.next
      · subst ha
        simp [hnva, State.mapping]
      · dsimp only [State.mapping]
        rw [Function.update_of_ne ha]
        refine (h.mem_va a).trans (and_congr_left fun _ => exists_congr fun o' => ?_)
        dsimp only
        by_cases ho : o' = o
        · subst ho
          rw [Function.update_self]
          simp [ha]
        · rw [Function.update_of_ne ho]
    case lists_nodup =>
      intro o'
      dsimp only
      by_cases ho : o' = o
      · subst ho
        rw [Function.update_self]
        exact List.nodup_cons.2 ⟨hnew _, h.lists_nodup _⟩
      · rw [Function.update_of_ne ho]
        exact h.lists_nodup o'
    case owner =>
      intro o' a ha
      dsimp only at ha ⊢
      by_cases hnext : a = s.next
      · subst hnext
        rw [Function.update_self]
        by_cases ho : o' = o
        · exact ⟨ho.symm, rfl, Nat.lt_succ_self _⟩
        · rw [Function.update_of_ne ho] at ha
          exact absurd ha (hnew o')
      · rw [Function.update_of_ne hnext]
        have ha' : a ∈ s.lists o' := by
          by_cases ho : o' = o
          · subst ho
            rw [Function.update_self] at ha
            exact (List.mem_cons.1 ha).resolve_left hnext
          · rwa [Function.update_of_ne ho] at ha
        obtain ⟨h₁, h₂, h₃⟩ := h.owner o' a ha'
        exact ⟨h₁, h₂, Nat.lt_succ_of_lt h₃⟩
  · cases hstep
    exact h

/-- **A record is taken out of use**, and its mapping with it. -/
theorem State.Inv.drop {reading : Reading} (h : s.Inv reading) {ids : List ℕ}
    (hl : s.lists o = id :: ids) : State.Inv reading { s with
      va := s.va.erase id, lists := Function.update s.lists o ids } := by
  have hnodup := h.lists_nodup o
  rw [hl] at hnodup
  obtain ⟨hid, hnodup⟩ := List.nodup_cons.1 hnodup
  have hsub : ∀ o' a, a ∈ Function.update s.lists o ids o' → a ∈ s.lists o' := by
    intro o' a ha
    by_cases ho : o' = o
    · subst ho
      rw [Function.update_self] at ha
      rw [hl]
      exact List.mem_cons_of_mem _ ha
    · rwa [Function.update_of_ne ho] at ha
  constructor
  case nodup => exact h.nodup.erase _
  case apart =>
    exact fun a ha b hb => h.apart a (List.mem_of_mem_erase ha) b (List.mem_of_mem_erase hb)
  case mem_va =>
    intro a
    dsimp only
    rw [h.nodup.mem_erase_iff, h.mem_va a]
    constructor
    · rintro ⟨hne, ⟨o', ho'⟩, hs⟩
      refine ⟨⟨o', ?_⟩, hs⟩
      dsimp only
      by_cases ho : o' = o
      · subst ho
        rw [hl] at ho'
        rw [Function.update_self]
        exact (List.mem_cons.1 ho').resolve_left hne
      · rwa [Function.update_of_ne ho]
    · rintro ⟨⟨o', ho'⟩, hs⟩
      refine ⟨?_, ⟨o', hsub o' a ho'⟩, hs⟩
      rintro rfl
      -- the record is in the list of its own buffer alone
      have hown := (h.owner o' a (hsub o' a ho')).1
      have hown' := (h.owner o a (hl ▸ List.mem_cons_self)).1
      rw [← hown, hown'] at ho'
      dsimp only at ho'
      rw [Function.update_self] at ho'
      exact hid ho'
  case lists_nodup =>
    intro o'
    dsimp only
    by_cases ho : o' = o
    · rw [ho, Function.update_self]
      exact hnodup
    · rw [Function.update_of_ne ho]
      exact h.lists_nodup o'
  case owner => exact fun o' a ha => h.owner o' a (hsub o' a ha)

/-- The loop over the records of a buffer, of which it takes all or none. -/
theorem closeLoop_spec {reading : Reading} (h : s.Inv reading)
    (hsupport : dev.caps.support_vm_pt) {ids : List ℕ} (hl : s.lists o = ids) :
    ∃ t, closeLoop dev o ids s = some t ∧ t.Inv reading := by
  induction ids generalizing s with
  | nil => exact ⟨s, rfl, h⟩
  | cons id ids ih =>
    have hvm := (h.owner o id (hl ▸ List.mem_cons_self)).2.1
    cases ha : reading.assigns with
    | false =>
      -- no record has the VM
      have hnone : ∀ js ⊆ s.lists o, closeLoop dev o js s = some s := by
        intro js hjs
        induction js with
        | nil => rfl
        | cons j js ihj =>
          obtain ⟨hj, hjs⟩ := List.cons_subset.1 hjs
          rw [closeLoop, if_neg (by simp [(h.owner o j hj).2.1, ha])]
          exact ihj hjs
      exact ⟨s, hnone _ (hl ▸ List.Subset.refl _), h⟩
    | true =>
      rw [closeLoop, if_pos (hvm.trans ha)]
      have herase : (s.lists o).erase id = ids := by rw [hl, List.erase_cons_head]
      have hfind : s.findBoVa o = some id := by
        rw [State.findBoVa, hl, List.find?_cons, hvm, ha]
      have hdrop := h.drop hl
      by_cases hstart : (s.mapping id).start = INVALID_ADDR
      · have hid : id ∉ s.va := fun hm => ((h.mem_va id).1 hm).2 hstart
        rw [List.erase_of_not_mem hid] at hdrop
        simp only [hstart, ne_eq, not_true_eq_false, if_false, herase]
        exact ih hdrop (Function.update_self ..)
      · have hid : id ∈ s.va := (h.mem_va id).2 ⟨⟨o, hl ▸ List.mem_cons_self⟩, hstart⟩
        have hremove :
            opuBoRemoveMapping dev s o = some (none, { s with va := s.va.erase id }) := by
          simp [opuBoRemoveMapping, hsupport, hfind, opuVmBoUnmap, hid]
        simp only [hremove, ne_eq, hstart, not_false_eq_true, if_true, Option.map_some, herase]
        exact ih hdrop (Function.update_self ..)

end

/-! ### Runs -/

/-- A call on a buffer of the device. -/
inductive Op where
  | open (o : ℕ) (alloc : Bool)
  | add (o : ℕ) (va : Fin (2 ^ 64)) (flags : ℕ)
  | remove (o : ℕ)
  | close (o : ℕ)

/-- What a call does. -/
def Op.apply (reading : Reading) (dev : Device) (s : State) : Op → Result
  | .open o alloc => opuBoGemOpenObject reading dev alloc s o
  | .add o va flags => opuBoAddMapping reading dev s o va flags
  | .remove o => opuBoRemoveMapping dev s o
  | .close o => opuBoGemCloseObject dev s o

/-- A call that returns. -/
def Step (reading : Reading) (dev : Device) (s : State) (op : Op) (t : State) : Prop :=
  ∃ e, op.apply reading dev s = some (e, t)

/-- A mapping that should be added: the buffer is open, and the request is good. -/
def State.Wanted (dev : Device) (s : State) (o : ℕ) (va : Fin (2 ^ 64)) : Prop :=
  s.lists o ≠ [] ∧ s.Fits (dev.obos o).size (dev.request o va)

/-- **When a call does what it is for.**  A mapping that should be added is not waited for at a lock
and finds its record; the record is not linked, and the address range does not end at `2 ^ 64`.  No
mapping is removed but by closing the buffer. -/
def StepOk (reading : Reading) (dev : Device) (s : State) : Op → Prop
  | .open _ _ => True
  | .add o va _ => dev.caps.support_vm_pt →
      (s.Wanted dev o va → reading.assigns ∧ reading.unlocks) ∧
        ∀ id, s.findBoVa o = some id → MapOk dev s id (dev.request o va)
  | .remove o => dev.caps.support_vm_pt → s.findBoVa o = none
  | .close _ => True

/-- What the VM promises between two calls: the mappings of the tree are linked once and have no
page in common, and they are those of the records in use. -/
structure State.Promise (s : State) : Prop where
  nodup : s.va.Nodup
  disjoint : ∀ a ∈ s.va, ∀ b ∈ s.va, a ≠ b →
    (s.mapping a).last < (s.mapping b).start ∨ (s.mapping b).last < (s.mapping a).start
  mem_va : ∀ id, id ∈ s.va ↔ s.Live id ∧ (s.mapping id).start ≠ INVALID_ADDR

section

variable {reading : Reading} {dev : Device} {s t : State} {o : ℕ} {va : Fin (2 ^ 64)} {flags : ℕ}

theorem State.inv_init (reading : Reading) : State.Inv reading {} := by
  constructor <;> simp [State.Live]

/-- **A mapping is added** when it should be, and otherwise nothing is changed. -/
theorem opuBoAddMapping_spec (h : s.Inv reading) (hsupport : dev.caps.support_vm_pt)
    (hok : StepOk reading dev s (.add o va flags)) :
    (s.Wanted dev o va ∧ ∃ t, opuBoAddMapping reading dev s o va flags = some (none, t) ∧
        t.Inv reading) ∨
      ¬s.Wanted dev o va ∧ ∀ e t, opuBoAddMapping reading dev s o va flags = some (e, t) →
        e ≠ none ∧ t = s := by
  obtain ⟨hwant, hmap⟩ := hok hsupport
  unfold opuBoAddMapping
  rw [hsupport, Bool.not_true, if_neg Bool.false_ne_true]
  cases hu : reading.unlocks with
  | false =>
    refine .inr ⟨fun hw => ?_, by simp⟩
    have := (hwant hw).2
    rw [hu] at this
    cases this
  | true =>
    rw [Bool.not_true, if_neg Bool.false_ne_true]
    cases hf : s.findBoVa o with
    | none =>
      refine .inr ⟨fun hw => hw.1 ((findBoVa_eq_none h (hwant hw).1).1 hf), ?_⟩
      rintro e t ⟨⟩
      exact ⟨by simp, rfl⟩
    | some id =>
      obtain ⟨hmem, -⟩ := findBoVa_mem hf
      have hbo := (h.owner o id hmem).1
      have hne : s.lists o ≠ [] := List.ne_nil_of_mem hmem
      rcases @opuVmBoMap_spec dev s id (dev.request o va) flags (hmap id hf) with
        ⟨hfits, hid, heq⟩ | ⟨hfits, heq⟩
      · rw [hbo] at hfits
        exact .inl ⟨⟨hne, hfits⟩, _, heq, h.map hid ⟨o, hmem⟩ hfits flags⟩
      · rw [hbo] at hfits
        refine .inr ⟨fun hw => hfits hw.2, fun e t het => ?_⟩
        simp only [heq] at het
        cases het
        exact ⟨by simp, rfl⟩

/-- **A call that meets `StepOk` keeps the VM what it is.** -/
theorem Step.inv {op : Op} (h : s.Inv reading) (hok : StepOk reading dev s op)
    (hstep : Step reading dev s op t) : t.Inv reading := by
  obtain ⟨e, hstep⟩ := hstep
  cases op with
  | «open» o alloc => exact h.open hstep
  | add o va flags =>
    by_cases hsupport : dev.caps.support_vm_pt
    · rcases opuBoAddMapping_spec h hsupport hok with ⟨-, u, hu, hinv⟩ | ⟨-, hno⟩
      · rw [Op.apply, hu] at hstep
        cases hstep
        exact hinv
      · rw [(hno e t hstep).2]
        exact h
    · rw [Op.apply, opuBoAddMapping, if_pos (by simpa using hsupport)] at hstep
      cases hstep
      exact h
  | remove o =>
    rw [Op.apply, opuBoRemoveMapping] at hstep
    split_ifs at hstep with hsupport
    · cases hstep
      exact h
    · rw [hok (by simpa using hsupport)] at hstep
      cases hstep
      exact h
  | close o =>
    rw [Op.apply, opuBoGemCloseObject] at hstep
    split_ifs at hstep with hm
    · have hsupport : dev.caps.support_vm_pt := by
        simp only [Device.mapped, Bool.and_eq_true] at hm
        exact hm.1.1
      obtain ⟨u, hu, hinv⟩ := closeLoop_spec h hsupport rfl
      rw [hu] at hstep
      cases hstep
      exact hinv
    · cases hstep
      exact h

/-- **The VM in every run whose calls meet `StepOk`.**  In every state the tree has the mappings of
the records in use, with no page in common; `opu_vm_bo_map` succeeds for the good requests, where
`MapOk` holds, and changes nothing when it fails; and a mapping is added exactly when it should
be. -/
theorem mappings_of_run {reading : Reading} {dev : Device} {ops : List Op} {s : State}
    (h : Run (Guarded (StepOk reading dev) (Step reading dev)) {} ops s) :
    s.Promise ∧
      (∀ id r flags, MapOk dev s id r →
        ((∃ t, opuVmBoMap dev s id r flags = some (none, t)) ↔
          s.Fits (dev.obos (s.mem id).bo).size r) ∧
        ∀ e t, opuVmBoMap dev s id r flags = some (some e, t) → t = s) ∧
      ∀ o va flags, dev.caps.support_vm_pt → StepOk reading dev s (.add o va flags) →
        ((∃ t, opuBoAddMapping reading dev s o va flags = some (none, t)) ↔ s.Wanted dev o va) ∧
        ∀ e t, opuBoAddMapping reading dev s o va flags = some (some e, t) → t = s := by
  have hinv : s.Inv reading :=
    h.inv (fun _ _ _ hs ⟨hok, hstep⟩ => Step.inv hs hok hstep) (State.inv_init reading)
  refine ⟨⟨hinv.nodup, hinv.apart, hinv.mem_va⟩, fun id r flags hok => ?_,
    fun o va flags hsupport hok => ?_⟩
  · rcases @opuVmBoMap_spec dev s id r flags hok with ⟨hfits, -, heq⟩ | ⟨hfits, heq⟩
    · exact ⟨⟨fun _ => hfits, fun _ => ⟨_, heq⟩⟩, by simp [heq]⟩
    · exact ⟨⟨by simp [heq], fun hf => absurd hf hfits⟩, by simp [heq]⟩
  · rcases opuBoAddMapping_spec hinv hsupport hok with ⟨hw, t, heq, -⟩ | ⟨hw, hno⟩
    · exact ⟨⟨fun _ => hw, fun _ => ⟨t, heq⟩⟩, by simp [heq]⟩
    · refine ⟨⟨fun ⟨t, ht⟩ => absurd rfl (hno none t ht).1, fun h => absurd h hw⟩,
        fun e t het => ?_⟩
      exact (hno _ t het).2

end

/-- A device whose buffers have two pages. -/
def twoPages : Device := ⟨⟨true, false⟩, fun _ => ⟨8192, by decide, false⟩⟩

/-- With both lines as they are meant, a buffer is opened and mapped at its second page. -/
theorem mappings_of_run_two : ∃ s : State, s.Promise ∧ s.mapping 0 = ⟨1, 2, 0, 5⟩ ∧ s.va = [0] := by
  have hrun : Run (Guarded (StepOk ⟨true, true⟩ twoPages) (Step ⟨true, true⟩ twoPages)) {}
      [.open 0 true, .add 0 ⟨4096, by decide⟩ 5] _ :=
    .cons ⟨trivial, _, rfl⟩ (.cons ⟨fun _ => ⟨fun _ => ⟨rfl, rfl⟩,
      fun _ _ _ _ _ _ => ⟨by decide, by decide, List.not_mem_nil⟩⟩, _, rfl⟩ (.nil _))
  exact ⟨_, (mappings_of_run hrun).1, rfl, rfl⟩

/-- **A mapping that should be added is not**, as the lines stand: the call waits for the lock that
it has.  With the lines as they are meant, a removed mapping is still in its record. -/
theorem good_mapping_not_added :
    (∃ s, Run (Step .asWritten twoPages) {} [.open 0 true] s ∧
      s.Wanted twoPages 0 ⟨4096, by decide⟩ ∧
      ∀ t, opuBoAddMapping .asWritten twoPages s 0 ⟨4096, by decide⟩ 5 ≠ some (none, t)) ∧
    ∃ s, Run (Step ⟨true, true⟩ twoPages) {}
      [.open 0 true, .add 0 ⟨4096, by decide⟩ 5, .remove 0] s ∧ ¬s.Promise := by
  refine ⟨⟨_, .cons ⟨_, rfl⟩ (.nil _), ⟨?_, ?_⟩, ?_⟩,
    _, .cons ⟨_, rfl⟩ (.cons ⟨_, rfl⟩ (.cons ⟨_, rfl⟩ (.nil _))), fun h => ?_⟩
  · exact List.cons_ne_nil 0 []
  · exact ⟨⟨rfl, rfl, by decide, rfl⟩, by decide, by decide, by decide,
      fun _ h => absurd h List.not_mem_nil⟩
  · rintro t ⟨⟩
  · exact absurd ((h.mem_va 0).2 ⟨⟨0, List.mem_cons_self⟩, by decide⟩) List.not_mem_nil

end Codrive.Vm
