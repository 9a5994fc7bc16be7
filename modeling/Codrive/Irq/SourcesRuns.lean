/-
# Runs of the interrupt sources

The counters of the manager against its sources, and in shared-line mode the physical line, over any
sequence of calls that meet `StepOk`.  What `StepOk` keeps out: `opu_disable_timer_source` counts
up; a source whose line is refused is freed and stays in its slot; a call is not kept from
registering, enabling or disabling twice; the shared line follows the first and the last of all
enabled sources, with timers and clients of the IH ring among them; and the calls for all sources
reach the clients alone.
-/

import Codrive.Basis.Run
import Codrive.Irq.Sources

namespace Codrive.Irq

open Codrive.Basis

/-! ### Client numbers -/

theorem clientId_eq (type : ℕ) : clientId type = type / 2 ^ 16 % 2 ^ 16 := by
  have h : IH_CLIENT_ID_MASK >>> 16 = 2 ^ 16 - 1 := by decide
  rw [clientId, Nat.shiftRight_and_distrib, h, Nat.and_two_pow_sub_one_eq_mod,
    Nat.shiftRight_eq_div_pow]

/-- A type with a bit of the mask has a client number other than 0. -/
theorem clientId_ne_zero {type : ℕ} (h : type &&& IH_CLIENT_ID_MASK ≠ 0) : clientId type ≠ 0 := by
  intro h0
  have hlow : (type &&& IH_CLIENT_ID_MASK) % 2 ^ 16 = 0 := by
    rw [Nat.and_mod_two_pow]
    exact Nat.and_zero _
  have hhigh : (type &&& IH_CLIENT_ID_MASK) / 2 ^ 16 = 0 := by
    rw [← Nat.shiftRight_eq_div_pow]
    exact h0
  generalize type &&& IH_CLIENT_ID_MASK = x at *
  omega

theorem clientId_lt (type : ℕ) : clientId type < 2 ^ 16 := by
  rw [clientId_eq]
  exact Nat.mod_lt _ (by decide)

/-- The type that the calls for all sources make of a client. -/
theorem clientId_shiftLeft {i : ℕ} (h : i < 2 ^ 16) :
    clientId ((i <<< IH_CLIENT_ID_SHIFT) % 2 ^ 32) = i := by
  have hshift : i <<< IH_CLIENT_ID_SHIFT = i * 2 ^ 16 := Nat.shiftLeft_eq ..
  rw [clientId_eq, hshift]
  omega

theorem mask_ne_zero_of_clientId {type : ℕ} (h : clientId type ≠ 0) :
    type &&& IH_CLIENT_ID_MASK ≠ 0 := by
  rintro h0
  rw [clientId, h0] at h
  exact h rfl

/-! ### The invariant -/

/-- The source of a client of the IH ring. -/
def Mgr.ihSource (mgr : Mgr) (client_id : ℕ) : Option Source := mgr.ih.bind (· client_id)

/-- An enabled plain source. -/
def Source.plainEnabled (src : Source) : Bool := src.timeout = 0 && src.enabled

/-- How many sources have their flag `enabled` set. -/
def Mgr.enabledSources (client_max : ℕ) (mgr : Mgr) : ℤ :=
  Slots.count Source.enabled OPU_IRQ_SOURCE_MAX mgr.sources +
    Slots.count Source.enabled client_max mgr.ihSource

/-- How many sources other than clients of the IH ring are registered. -/
def Mgr.registeredSources (mgr : Mgr) : ℤ :=
  Slots.count (fun _ => true) OPU_IRQ_SOURCE_MAX mgr.sources

/-- How many plain sources are enabled. -/
def Mgr.enabledPlain (mgr : Mgr) : ℤ :=
  Slots.count Source.plainEnabled OPU_IRQ_SOURCE_MAX mgr.sources

/-- What the manager is between two calls. -/
structure Mgr.Inv (client_max : ℕ) (mgr : Mgr) : Prop where
  src_enabled : mgr.src_enabled = mgr.enabledSources client_max
  src_registered : mgr.src_registered = mgr.registeredSources
  live : ∀ i src, mgr.sources i = some src → src.freed = false
  ihLive : ∀ i src, mgr.ihSource i = some src → src.freed = false
  client : ∀ i src, mgr.ihSource i = some src → i ≠ 0 ∧ i < 2 ^ 16 ∧ i < client_max
  line : mgr.reused → (mgr.lines mgr.irq_base).depth = if 0 < mgr.enabledPlain then 0 else 1

section

variable {client_max : ℕ} {mgr : Mgr}

/-- **One of the sources changes**, and the counters and the line with it. -/
theorem Mgr.Inv.setSource (h : mgr.Inv client_max) {type : ℕ} (ht : type < OPU_IRQ_SOURCE_MAX)
    {o : Option Source} (ho : ∀ src, o = some src → src.freed = false) {e r : ℤ} {lines : Lines}
    (he : e = mgr.src_enabled - Slots.one Source.enabled (mgr.sources type) +
      Slots.one Source.enabled o)
    (hr : r = mgr.src_registered - Slots.one (fun _ => true) (mgr.sources type) +
      Slots.one (fun _ => true) o)
    (hl : mgr.reused → (lines mgr.irq_base).depth =
      if 0 < mgr.enabledPlain - Slots.one Source.plainEnabled (mgr.sources type) +
        Slots.one Source.plainEnabled o then 0 else 1) :
    Mgr.Inv client_max { mgr.setSource type o with
      src_enabled := e, src_registered := r, lines := lines } where
  src_enabled := by
    have := h.src_enabled
    unfold enabledSources at this ⊢
    unfold Mgr.setSource
    rw [Slots.count_update ht, he, this]
    unfold ihSource
    dsimp only
    omega
  src_registered := by
    have := h.src_registered
    unfold registeredSources at this ⊢
    unfold Mgr.setSource
    rw [Slots.count_update ht, hr, this]
  live i src hs := by
    by_cases hi : i = type
    · subst hi
      exact ho src (by simpa [Mgr.setSource] using hs)
    · exact h.live i src (by simpa [Mgr.setSource, Function.update_of_ne hi] using hs)
  ihLive := h.ihLive
  client := h.client
  line hreused := by
    unfold enabledPlain Mgr.setSource
    rw [Slots.count_update ht]
    exact hl hreused

/-- **One of the clients changes**, and the counter with it. -/
theorem Mgr.Inv.setIhSource (h : mgr.Inv client_max) {slots : Slots Source}
    (hih : mgr.ih = some slots) {i : ℕ} (hi : i ≠ 0 ∧ i < 2 ^ 16 ∧ i < client_max)
    {o : Option Source} (ho : ∀ src, o = some src → src.freed = false) {e : ℤ}
    (he : e = mgr.src_enabled - Slots.one Source.enabled (slots i) + Slots.one Source.enabled o) :
    Mgr.Inv client_max { mgr.setIhSource slots i o with src_enabled := e } := by
  have hold : mgr.ihSource = slots := by
    funext j
    simp [Mgr.ihSource, hih]
  have hnew : Mgr.ihSource { mgr.setIhSource slots i o with src_enabled := e } =
      Function.update slots i o := by
    funext j
    simp [Mgr.ihSource, Mgr.setIhSource]
  constructor
  case src_enabled =>
    have := h.src_enabled
    unfold enabledSources at this ⊢
    rw [hnew, Slots.count_update hi.2.2]
    rw [hold] at this
    dsimp only [Mgr.setIhSource]
    omega
  case src_registered => exact h.src_registered
  case live => exact h.live
  case line => exact h.line
  case ihLive =>
    intro j src hs
    rw [hnew] at hs
    by_cases hj : j = i
    · subst hj
      exact ho src (by simpa using hs)
    · exact h.ihLive j src (by rwa [hold, ← Function.update_of_ne hj o slots])
  case client =>
    intro j src hs
    rw [hnew] at hs
    by_cases hj : j = i
    · exact hj ▸ hi
    · exact h.client j src (by rwa [hold, ← Function.update_of_ne hj o slots])

/-- A call on a source either finds none, or a source that is not freed. -/
theorem onSource_eq_some {n i : ℕ} {slots : Slots Source} {null : Result} {f : Source → Result}
    {x : Option Errno × Mgr} (h : onSource n slots i null f = some x) :
    i < n ∧ (slots i = none ∧ null = some x ∨ ∃ src, slots i = some src ∧ f src = some x) := by
  unfold onSource at h
  split_ifs at h with hi
  refine ⟨hi, ?_⟩
  split at h
  · exact .inl ⟨‹_›, h⟩
  · split_ifs at h
    exact .inr ⟨_, ‹_›, h⟩

theorem onSource_live {n i : ℕ} {slots : Slots Source} {null : Result} {f : Source → Result}
    {src : Source} (hi : i < n) (hs : slots i = some src) (hf : src.freed = false) :
    onSource n slots i null f = f src := by
  simp [onSource, hi, hs, hf]

/-- A call on a client either returns an error, or finds its source. -/
theorem onIhSource_eq_some {type : ℕ} {f : Slots Source → Source → Result}
    {x : Option Errno × Mgr} (h : onIhSource client_max mgr type f = some x) :
    x = (some .enoent, mgr) ∨ ∃ slots src, mgr.ih = some slots ∧ slots (clientId type) = some src ∧
      f slots src = some x := by
  unfold onIhSource at h
  split at h
  · exact .inl (Option.some.inj h).symm
  · rename_i slots hih
    rcases (onSource_eq_some h).2 with ⟨-, h⟩ | ⟨src, hs, h⟩
    · exact .inl (Option.some.inj h).symm
    · exact .inr ⟨slots, src, hih, hs, h⟩

end

/-! ### The calls -/

/-- A call of the driver on the manager; `alloc` and `refused` are what the kernel answers. -/
inductive Op where
  | register (alloc : Bool) (refused : Option Errno) (info : Info)
  | unregister (type : ℕ)
  | enable (type : ℕ)
  | disable (type : ℕ)
  | enableAll
  | disableAll

/-- What a call does. -/
def Op.apply (client_max : ℕ) (mgr : Mgr) : Op → Result
  | .register alloc refused info => opuRegisterIrq client_max alloc refused mgr info
  | .unregister type => opuUnregisterIrq client_max mgr type
  | .enable type => opuEnableIrq client_max mgr type
  | .disable type => opuDisableIrq client_max mgr type
  | .enableAll => opuEnableAllIrq client_max mgr
  | .disableAll => opuDisableAllIrq client_max mgr

/-- The source a type names. -/
def Mgr.sourceOf (mgr : Mgr) (type : ℕ) : Option Source :=
  if type &&& IH_CLIENT_ID_MASK ≠ 0 then mgr.ihSource (clientId type) else mgr.sources type

/-- A plain source other than that of the type is enabled. -/
def Mgr.OtherPlain (mgr : Mgr) (type : ℕ) : Prop :=
  ∃ i < OPU_IRQ_SOURCE_MAX, i ≠ type ∧ ∃ src, mgr.sources i = some src ∧ src.plainEnabled

/-- The line of a plain source is there when it is registered. -/
def Mgr.LineOk (mgr : Mgr) (refused : Option Errno) (type : ℕ) : Prop :=
  mgr.reused ∧ mgr.src_registered ≠ 0 ∨ refused = none ∧
    (mgr.lines (if mgr.reused then mgr.irq_base else mgr.irq_base + type)).requested = false

/-- **When a call does what it is for.**

* A source is registered in an empty slot, a client of the IH ring also over a disabled one, and the
  line of a plain source is not refused.
* A source is disabled when it is unregistered or enabled, and enabled when it is disabled; the
  source that is disabled is not a timer.
* On a shared line, a plain source is the first of all enabled sources when it is the first of the
  plain ones, and the last of all when it is the last of the plain ones.
* All sources are enabled when the clients of the IH ring are disabled and the others enabled; all
  are disabled when the clients are enabled and the others disabled. -/
def StepOk (mgr : Mgr) : Op → Prop
  | .register alloc refused info =>
    info.handler → info.checker → alloc →
      if info.type &&& IH_CLIENT_ID_MASK ≠ 0 then
        ∀ src, mgr.ihSource (clientId info.type) = some src → src.enabled = false
      else mgr.sources info.type = none ∧ (info.timeout = 0 → mgr.LineOk refused info.type)
  | .unregister type => ∀ src, mgr.sourceOf type = some src → src.enabled = false
  | .enable type => ∀ src, mgr.sourceOf type = some src → src.enabled = false ∧
      (type &&& IH_CLIENT_ID_MASK = 0 → mgr.reused → src.timeout = 0 →
        mgr.src_enabled = 0 ∨ mgr.OtherPlain type)
  | .disable type => ∀ src, mgr.sourceOf type = some src → src.enabled = true ∧
      (type &&& IH_CLIENT_ID_MASK = 0 → src.timeout = 0 ∧
        (mgr.reused → mgr.src_enabled = 1 ∨ mgr.OtherPlain type))
  | .enableAll => (∀ i src, mgr.ihSource i = some src → src.enabled = false) ∧
      ∀ i < OPU_IRQ_SOURCE_MAX, ∀ src, mgr.sources i = some src → src.enabled = true
  | .disableAll => (∀ i src, mgr.ihSource i = some src → src.enabled = true) ∧
      ∀ i < OPU_IRQ_SOURCE_MAX, ∀ src, mgr.sources i = some src → src.enabled = false

section

variable {client_max : ℕ} {mgr mgr' : Mgr} {r : Option Errno}

/-- What is counted without a slot is counted in the others. -/
theorem Mgr.otherPlain_iff {type : ℕ} (ht : type < OPU_IRQ_SOURCE_MAX) :
    mgr.OtherPlain type ↔
      0 < mgr.enabledPlain - Slots.one Source.plainEnabled (mgr.sources type) := by
  have h := @Slots.count_update _ Source.plainEnabled _ type mgr.sources ht none
  have h' : mgr.enabledPlain - Slots.one Source.plainEnabled (mgr.sources type) =
      Slots.count Source.plainEnabled OPU_IRQ_SOURCE_MAX
        (Function.update mgr.sources type none) := by
    rw [h, Slots.one_none, add_zero]
    rfl
  rw [h', Slots.count_pos_iff]
  constructor
  · rintro ⟨i, hi, hne, src, hs, hp⟩
    exact ⟨i, hi, src, by rwa [Function.update_of_ne hne], hp⟩
  · rintro ⟨i, hi, src, hs, hp⟩
    have hne : i ≠ type := by
      rintro rfl
      simp at hs
    exact ⟨i, hi, hne, src, by rwa [Function.update_of_ne hne] at hs, hp⟩

/-- Of the enabled sources some are plain. -/
theorem Mgr.Inv.enabledPlain_le (h : mgr.Inv client_max) :
    0 ≤ mgr.enabledPlain ∧ mgr.enabledPlain ≤ mgr.src_enabled := by
  have h₁ : mgr.enabledPlain ≤ Slots.count Source.enabled OPU_IRQ_SOURCE_MAX mgr.sources :=
    Slots.count_le_count fun src hsrc => by
      simp only [Source.plainEnabled, Bool.and_eq_true] at hsrc
      exact hsrc.2
  have h₂ : 0 ≤ Slots.count Source.enabled client_max mgr.ihSource := Slots.count_nonneg
  have h₃ := h.src_enabled
  unfold enabledSources at h₃
  exact ⟨Slots.count_nonneg, by omega⟩

/-- A registered source is counted. -/
theorem Mgr.Inv.src_registered_pos (h : mgr.Inv client_max) {i : ℕ} (hi : i < OPU_IRQ_SOURCE_MAX)
    {src : Source} (hs : mgr.sources i = some src) : 0 < mgr.src_registered := by
  rw [h.src_registered]
  exact Slots.count_pos_iff.2 ⟨i, hi, src, hs, rfl⟩

/-- A line that is there is left disabled, where it was. -/
theorem requestLine_spec (h : mgr.Inv client_max) {refused : Option Errno} {type : ℕ}
    (hok : mgr.LineOk refused type) : ∃ lines, requestLine refused mgr type = (none, lines) ∧
      (mgr.reused → (lines mgr.irq_base).depth = if 0 < mgr.enabledPlain then 0 else 1) := by
  unfold requestLine
  by_cases hlate : mgr.reused ∧ mgr.src_registered ≠ 0
  · rw [if_pos hlate]
    exact ⟨_, rfl, h.line⟩
  · rw [if_neg hlate]
    obtain hok | ⟨rfl, hline⟩ := hok
    · exact absurd hok hlate
    · refine ⟨_, by simp only [requestIrq, hline]; rfl, fun hreused => ?_⟩
      -- nothing is registered, so nothing is enabled
      have hnone : ¬0 < mgr.enabledPlain := by
        intro hpos
        obtain ⟨i, hi, src, hs, -⟩ := Slots.count_pos_iff.1 hpos
        have := h.src_registered_pos hi hs
        exact hlate ⟨hreused, by omega⟩
      simp [hnone, hreused, disableIrq]

theorem opuRegisterIrq_inv (h : mgr.Inv client_max) {alloc : Bool} {refused : Option Errno}
    {info : Info} (hok : StepOk mgr (.register alloc refused info))
    (hstep : opuRegisterIrq client_max alloc refused mgr info = some (r, mgr')) :
    mgr'.Inv client_max := by
  unfold opuRegisterIrq at hstep
  split_ifs at hstep with hf hih htime
  · cases hstep
    exact h
  · -- a client of the IH ring
    unfold opuRegisterIhSource at hstep
    split at hstep
    · cases hstep
      exact h
    · rename_i slots hslots
      split_ifs at hstep with ha hc
      · cases hstep
        exact h
      · cases hstep
        have hoff := hok (by simp_all) (by simp_all) (by simpa using ha)
        rw [if_pos hih] at hoff
        refine h.setIhSource hslots ⟨clientId_ne_zero hih, clientId_lt _, Nat.lt_of_not_le hc⟩
          (by rintro src ⟨⟩; rfl) ?_
        cases hs : slots (clientId info.type) with
        | none => simp [Info.source]
        | some src => simp [Info.source, hoff src (by simp [Mgr.ihSource, hslots, hs])]
  · -- a timer
    unfold opuRegisterTimerSource at hstep
    split_ifs at hstep with hmax ha
    · cases hstep
      exact h
    · cases hstep
      have hempty := hok (by simp_all) (by simp_all) (by simpa using ha)
      rw [if_neg hih] at hempty
      refine h.setSource (Nat.lt_of_not_le hmax) (by rintro src ⟨⟩; rfl) ?_ ?_ ?_
      · simp [hempty.1, Info.source, Mgr.setSource]
      · simp [hempty.1]
      · simpa [hempty.1, Info.source, Source.plainEnabled, Mgr.setSource] using h.line
  · -- a plain source
    unfold opuRegisterIrqSource at hstep
    split at hstep
    · cases hstep
    · rename_i hmax
      split at hstep
      · cases hstep
        exact h
      rename_i ha
      have hempty := hok (by simp_all) (by simp_all) (by simpa using ha)
      rw [if_neg hih] at hempty
      obtain ⟨lines, hreq, hline⟩ := requestLine_spec h (hempty.2 (by simpa using htime))
      simp only [hreq] at hstep
      cases hstep
      refine h.setSource (Nat.lt_of_not_le hmax) (by rintro src ⟨⟩; rfl) ?_ ?_ ?_
      · simp [hempty.1, Info.source, Mgr.setSource]
      · simp [hempty.1]
      · simpa [hempty.1, Info.source, Source.plainEnabled] using hline

/-- **The flag of a client changes**, and the counter with it. -/
theorem Mgr.Inv.setIhEnabled (h : mgr.Inv client_max) {slots : Slots Source}
    (hih : mgr.ih = some slots) {i : ℕ} {src : Source} (hs : slots i = some src) (b : Bool) {e : ℤ}
    (he : e = mgr.src_enabled - (if src.enabled then 1 else 0) + if b then 1 else 0) :
    Mgr.Inv client_max { mgr.setIhSource slots i (some { src with enabled := b }) with
      src_enabled := e } := by
  have hs' : mgr.ihSource i = some src := by simp [Mgr.ihSource, hih, hs]
  refine h.setIhSource hih (h.client i src hs') ?_ (by rw [hs]; exact he)
  rintro _ ⟨⟩
  exact h.ihLive i src hs'

/-- **The flag of a source changes**, and the counter and the line with it. -/
theorem Mgr.Inv.setEnabled (h : mgr.Inv client_max) {type : ℕ} (ht : type < OPU_IRQ_SOURCE_MAX)
    {src : Source} (hs : mgr.sources type = some src) {b : Bool} {e : ℤ} {lines : Lines}
    (he : e = mgr.src_enabled - (if src.enabled then 1 else 0) + if b then 1 else 0)
    (hl : mgr.reused → (lines mgr.irq_base).depth =
      if 0 < mgr.enabledPlain - Slots.one Source.plainEnabled (mgr.sources type) +
        (if src.timeout = 0 && b then 1 else 0) then 0 else 1) :
    Mgr.Inv client_max { mgr.setSource type (some { src with enabled := b }) with
      src_enabled := e, lines := lines } := by
  refine h.setSource ht ?_ (by rw [hs]; exact he) (by simp [hs, Mgr.setSource]) fun hreused => ?_
  · rintro _ ⟨⟩
    exact h.live type src hs
  · rw [hl hreused]
    rfl

theorem sourceOf_ih {type : ℕ} (hih : type &&& IH_CLIENT_ID_MASK ≠ 0) {slots : Slots Source}
    (hslots : mgr.ih = some slots) {src : Source} (hs : slots (clientId type) = some src) :
    mgr.sourceOf type = some src := by
  rw [Mgr.sourceOf, if_pos hih, Mgr.ihSource, hslots]
  exact hs

theorem sourceOf_plain {type : ℕ} (hih : ¬type &&& IH_CLIENT_ID_MASK ≠ 0) :
    mgr.sourceOf type = mgr.sources type := by
  rw [Mgr.sourceOf, if_neg hih]

theorem opuEnableIrq_inv (h : mgr.Inv client_max) {type : ℕ} (hok : StepOk mgr (.enable type))
    (hstep : opuEnableIrq client_max mgr type = some (r, mgr')) : mgr'.Inv client_max := by
  unfold opuEnableIrq at hstep
  split_ifs at hstep with hih
  · rcases onIhSource_eq_some hstep with hstep | ⟨slots, src, hslots, hs, hstep⟩
    · cases hstep
      exact h
    · cases hstep
      obtain ⟨hoff, -⟩ := hok src (sourceOf_ih hih hslots hs)
      exact h.setIhEnabled hslots hs true (by simp [hoff])
  · obtain ⟨ht, ⟨-, hstep⟩ | ⟨src, hs, hstep⟩⟩ := onSource_eq_some hstep
    · cases hstep
    obtain ⟨hoff, hline⟩ := hok src (by rw [sourceOf_plain hih, hs])
    have hlive := h.live type src hs
    split_ifs at hstep with htime
    · rw [opuEnableTimerSource, onSource_live ht hs hlive] at hstep
      cases hstep
      refine h.setEnabled ht hs (by simp [hoff]) fun hreused => ?_
      simpa [hs, Source.plainEnabled, htime, Mgr.setSource] using h.line hreused
    · rw [opuEnableIrqSource, onSource_live ht hs hlive] at hstep
      cases hstep
      refine h.setEnabled ht hs (by simp [hoff]) fun hreused => ?_
      have hpos : 0 < mgr.enabledPlain - Slots.one Source.plainEnabled (mgr.sources type) + 1 := by
        have := h.enabledPlain_le
        simp only [hs, Slots.one_some, Source.plainEnabled, hoff, Bool.and_false]
        simp only [Bool.false_eq_true, if_false]
        omega
      simp only [Decidable.not_not.1 htime, decide_true, Bool.and_self, if_true, if_pos hpos,
        hreused]
      rcases hline (Decidable.not_not.1 hih) hreused (Decidable.not_not.1 htime) with h0 | hother
      · -- the first of all is the first of the plain ones
        have hdepth := h.line hreused
        rw [if_neg (by have := h.enabledPlain_le; omega)] at hdepth
        rw [if_pos h0]
        simp [enableIrq, hdepth]
      · rw [Mgr.otherPlain_iff ht] at hother
        have hdepth := h.line hreused
        simp only [hs, Slots.one_some, Source.plainEnabled, hoff, Bool.and_false] at hother
        rw [if_pos (by simpa using hother)] at hdepth
        rw [if_neg (by have := h.enabledPlain_le; simp at hother; omega)]
        exact hdepth

theorem opuDisableIrq_inv (h : mgr.Inv client_max) {type : ℕ} (hok : StepOk mgr (.disable type))
    (hstep : opuDisableIrq client_max mgr type = some (r, mgr')) : mgr'.Inv client_max := by
  unfold opuDisableIrq at hstep
  split_ifs at hstep with hih
  · rcases onIhSource_eq_some hstep with hstep | ⟨slots, src, hslots, hs, hstep⟩
    · cases hstep
      exact h
    · cases hstep
      obtain ⟨hon, -⟩ := hok src (sourceOf_ih hih hslots hs)
      exact h.setIhEnabled hslots hs false (by simp [hon])
  · obtain ⟨ht, ⟨-, hstep⟩ | ⟨src, hs, hstep⟩⟩ := onSource_eq_some hstep
    · cases hstep
    obtain ⟨hon, hline⟩ := hok src (by rw [sourceOf_plain hih, hs])
    obtain ⟨htime, hline⟩ := hline (Decidable.not_not.1 hih)
    rw [if_neg (by simp [htime]), opuDisableIrqSource,
      onSource_live ht hs (h.live type src hs)] at hstep
    cases hstep
    refine h.setEnabled ht hs (by simp [hon]) fun hreused => ?_
    have hone : Slots.one Source.plainEnabled (mgr.sources type) = 1 := by
      simp [hs, Source.plainEnabled, htime, hon]
    have hplain : 0 < mgr.enabledPlain :=
      Slots.count_pos_iff.2 ⟨type, ht, src, hs, by simp [Source.plainEnabled, htime, hon]⟩
    have hdepth := h.line hreused
    rw [if_pos hplain] at hdepth
    have hle := h.enabledPlain_le
    have hother := @Mgr.otherPlain_iff mgr type ht
    rw [hone] at hother ⊢
    simp only [hreused, if_true, Bool.and_false, Bool.false_eq_true, if_false, add_zero]
    by_cases h1 : mgr.src_enabled = 1
    · -- the last of all is the last of the plain ones
      rw [if_pos h1, if_neg (by omega)]
      simp [disableIrq, hdepth]
    · rw [if_neg h1, if_pos (hother.1 ((hline hreused).resolve_left h1))]
      exact hdepth

/-- The shared line is given up by a source that leaves it disabled. -/
theorem releaseLine_spec (h : mgr.Inv client_max) {type : ℕ} (ht : type < OPU_IRQ_SOURCE_MAX)
    {src : Source} (hs : mgr.sources type = some src) (hoff : src.enabled = false)
    (hreused : mgr.reused) :
    (releaseLine mgr src mgr.irq_base).depth = (mgr.lines mgr.irq_base).depth := by
  unfold releaseLine freeIrq
  split_ifs with htime h1 hreq
  · -- the last registered source was not enabled
    have hnone : ¬0 < mgr.enabledPlain := by
      intro hpos
      obtain ⟨i, hi, hne, a, ha, -⟩ := (@Mgr.otherPlain_iff mgr type ht).2
        (by simpa [hs, Source.plainEnabled, hoff] using hpos)
      have hrest : 0 < Slots.count (fun _ => true) OPU_IRQ_SOURCE_MAX
          (Function.update mgr.sources type none) :=
        Slots.count_pos_iff.2 ⟨i, hi, a, by rwa [Function.update_of_ne hne], rfl⟩
      rw [Slots.count_update ht, hs] at hrest
      have := h.src_registered
      unfold Mgr.registeredSources at this
      simp only [Slots.one_some, Slots.one_none, if_true] at hrest
      omega
    rw [h.line hreused, if_neg hnone, Function.update_self]
  all_goals rfl

theorem opuUnregisterIrq_inv (h : mgr.Inv client_max) {type : ℕ}
    (hok : StepOk mgr (.unregister type))
    (hstep : opuUnregisterIrq client_max mgr type = some (r, mgr')) : mgr'.Inv client_max := by
  unfold opuUnregisterIrq at hstep
  obtain ⟨⟨r', t⟩, hcall, hret⟩ := Option.map_eq_some_iff.1 hstep
  clear hstep
  cases hret
  dsimp only
  rename' hcall => hstep
  split_ifs at hstep with hih
  · rcases onIhSource_eq_some hstep with hstep | ⟨slots, src, hslots, hs, hstep⟩
    · cases hstep
      exact h
    · cases hstep
      have hoff := hok src (sourceOf_ih hih hslots hs)
      exact h.setIhSource hslots
        (h.client (clientId type) src (by simp [Mgr.ihSource, hslots, hs])) (by simp)
        (by simp [hs, hoff])
  · obtain ⟨ht, ⟨-, hstep⟩ | ⟨src, hs, hstep⟩⟩ := onSource_eq_some hstep
    · cases hstep
    cases hstep
    have hoff := hok src (by rw [sourceOf_plain hih, hs])
    refine h.setSource ht (by simp) (by simp [hs, hoff, Mgr.setSource]) (by simp [hs])
      fun hreused => ?_
    have hdepth := h.line hreused
    simp only [hs, Slots.one_some, Slots.one_none, Source.plainEnabled, hoff, Bool.and_false,
      Bool.false_eq_true, if_false, add_zero, sub_zero]
    rw [releaseLine_spec h ht hs hoff hreused]
    exact hdepth

/-- What a call for all clients does to one of them: its flag becomes `b`, and nothing else. -/
structure SetsFlag (client_max : ℕ) (call : Mgr → ℕ → Result) (b : Bool) : Prop where
  call_eq : ∀ mgr i src, Mgr.Inv client_max mgr → mgr.ihSource i = some src → src.enabled = !b →
    ∃ mgr', call mgr ((i <<< IH_CLIENT_ID_SHIFT) % 2 ^ 32) = some (none, mgr') ∧
      mgr'.Inv client_max ∧ mgr'.sources = mgr.sources ∧
      mgr'.ihSource = Function.update mgr.ihSource i (some { src with enabled := b })

theorem Mgr.Inv.exists_ih (h : mgr.Inv client_max) {i : ℕ} {src : Source}
    (hs : mgr.ihSource i = some src) : ∃ slots, mgr.ih = some slots ∧ mgr.ihSource = slots ∧
      slots i = some src ∧ ∀ f, onIhSource client_max mgr ((i <<< IH_CLIENT_ID_SHIFT) % 2 ^ 32) f =
        f slots src := by
  obtain ⟨slots, hih, hi⟩ := Option.bind_eq_some_iff.1 hs
  have heq : mgr.ihSource = slots := by
    funext j
    simp [Mgr.ihSource, hih]
  obtain ⟨-, hlt, hmax⟩ := h.client i src hs
  refine ⟨slots, hih, heq, hi, fun f => ?_⟩
  unfold onIhSource
  rw [hih, clientId_shiftLeft hlt]
  exact onSource_live hmax hi (h.ihLive i src hs)

theorem setsFlag_enable : SetsFlag client_max (opuEnableIrq client_max) true where
  call_eq mgr i src h hs hoff := by
    obtain ⟨slots, hih, heq, hi, hon⟩ := h.exists_ih hs
    have hid := clientId_shiftLeft (h.client i src hs).2.1
    have hmask := mask_ne_zero_of_clientId (hid ▸ (h.client i src hs).1)
    rw [opuEnableIrq, if_pos hmask, opuEnableIhSource, hon, hid]
    refine ⟨_, rfl, h.setIhEnabled hih hi true (by simp [hoff]), rfl, ?_⟩
    rw [heq]
    rfl

theorem setsFlag_disable : SetsFlag client_max (opuDisableIrq client_max) false where
  call_eq mgr i src h hs hon := by
    obtain ⟨slots, hih, heq, hi, hcall⟩ := h.exists_ih hs
    have hid := clientId_shiftLeft (h.client i src hs).2.1
    have hmask := mask_ne_zero_of_clientId (hid ▸ (h.client i src hs).1)
    rw [opuDisableIrq, if_pos hmask, opuDisableIhSource, hcall, hid]
    refine ⟨_, rfl, h.setIhEnabled hih hi false (by simp [hon]), rfl, ?_⟩
    rw [heq]
    rfl

/-- **The loop over the clients** sets the flag of every registered one. -/
theorem forClients_spec {call : Mgr → ℕ → Result} {b : Bool} (hcall : SetsFlag client_max call b)
    {is : List ℕ} (hn : is.Nodup) (h : mgr.Inv client_max)
    (hflag : ∀ i ∈ is, ∀ src, mgr.ihSource i = some src → src.enabled = !b) :
    ∃ mgr', forClients call is mgr = some (none, mgr') ∧ mgr'.Inv client_max ∧
      mgr'.sources = mgr.sources ∧ (∀ i ∉ is, mgr'.ihSource i = mgr.ihSource i) ∧
      ∀ i ∈ is, ∀ src, mgr'.ihSource i = some src → src.enabled = b := by
  induction is generalizing mgr with
  | nil => exact ⟨mgr, rfl, h, rfl, fun _ _ => rfl, by simp⟩
  | cons i is ih =>
    obtain ⟨hi, hn⟩ := List.nodup_cons.1 hn
    rw [forClients]
    cases hs : mgr.ihSource i with
    | none =>
      obtain ⟨mgr', hrun, h', hsrc, hout, hin⟩ := ih hn h fun j hj =>
        hflag j (List.mem_cons_of_mem _ hj)
      have hs' : (mgr.ih.bind fun x => x i) = none := hs
      simp only [hs']
      refine ⟨mgr', hrun, h', hsrc, fun j hj => hout j fun h => hj (List.mem_cons_of_mem _ h),
        fun j hj src hsj => ?_⟩
      rcases List.mem_cons.1 hj with rfl | hj
      · rw [hout j hi, hs] at hsj
        cases hsj
      · exact hin j hj src hsj
    | some src =>
      obtain ⟨t, hone, ht, hts, hti⟩ := hcall.call_eq mgr i src h hs
        (hflag i List.mem_cons_self src hs)
      obtain ⟨mgr', hrun, h', hsrc, hout, hin⟩ := ih hn ht fun j hj a ha => by
        have hne : j ≠ i := by
          rintro rfl
          exact hi hj
        rw [hti, Function.update_of_ne hne] at ha
        exact hflag j (List.mem_cons_of_mem _ hj) a ha
      have hs' : (mgr.ih.bind fun x => x i) = some src := hs
      simp only [hs', hone]
      refine ⟨mgr', hrun, h', hsrc.trans hts, fun j hj => ?_, fun j hj a ha => ?_⟩
      · rw [hout j fun h => hj (List.mem_cons_of_mem _ h), hti,
          Function.update_of_ne (List.ne_of_not_mem_cons hj)]
      · rcases List.mem_cons.1 hj with rfl | hj
        · rw [hout j hi, hti, Function.update_self] at ha
          cases ha
          rfl
        · exact hin j hj a ha

/-- **A call for all sources** that may be made succeeds, and gives every source the flag. -/
theorem callAll_spec {call : Mgr → ℕ → Result} {b : Bool} (hcall : SetsFlag client_max call b)
    (h : mgr.Inv client_max) (hih : ∀ i src, mgr.ihSource i = some src → src.enabled = !b)
    (hstep : (if mgr.ih.isSome then forClients call (List.range client_max) mgr
      else some (none, mgr)) = some (r, mgr')) :
    r = none ∧ mgr'.Inv client_max ∧ mgr'.sources = mgr.sources ∧
      ∀ i src, mgr'.ihSource i = some src → src.enabled = b := by
  split_ifs at hstep with hring
  · obtain ⟨t, hrun, ht, hsrc, -, hin⟩ :=
      forClients_spec hcall List.nodup_range h fun i _ => hih i
    rw [hrun] at hstep
    cases hstep
    exact ⟨rfl, ht, hsrc, fun i src hs =>
      hin i (List.mem_range.2 (ht.client i src hs).2.2) src hs⟩
  · cases hstep
    refine ⟨rfl, h, rfl, fun i src hs => ?_⟩
    obtain ⟨slots, hslots, -⟩ := Option.bind_eq_some_iff.1 hs
    simp [hslots] at hring

/-- Every registered source has its flag `enabled` like this. -/
def Mgr.AllEnabled (mgr : Mgr) (b : Bool) : Prop :=
  (∀ i src, mgr.ihSource i = some src → src.enabled = b) ∧
    ∀ i < OPU_IRQ_SOURCE_MAX, ∀ src, mgr.sources i = some src → src.enabled = b

/-- **A call keeps the manager what it is**, and a call for all sources reaches all of them. -/
theorem Op.apply_inv {op : Op} (h : mgr.Inv client_max) (hok : StepOk mgr op)
    (hstep : op.apply client_max mgr = some (r, mgr')) : mgr'.Inv client_max ∧
      (op = .enableAll → mgr'.AllEnabled true) ∧ (op = .disableAll → mgr'.AllEnabled false) := by
  cases op with
  | register alloc refused info => exact ⟨opuRegisterIrq_inv h hok hstep, by simp, by simp⟩
  | unregister type => exact ⟨opuUnregisterIrq_inv h hok hstep, by simp, by simp⟩
  | enable type => exact ⟨opuEnableIrq_inv h hok hstep, by simp, by simp⟩
  | disable type => exact ⟨opuDisableIrq_inv h hok hstep, by simp, by simp⟩
  | enableAll =>
    obtain ⟨-, ht, hsrc, hih⟩ := callAll_spec setsFlag_enable h hok.1 hstep
    exact ⟨ht, fun _ => ⟨hih, hsrc ▸ hok.2⟩, by simp⟩
  | disableAll =>
    obtain ⟨-, ht, hsrc, hih⟩ := callAll_spec setsFlag_disable h hok.1 hstep
    exact ⟨ht, by simp, fun _ => ⟨hih, hsrc ▸ hok.2⟩⟩

end

/-! ### Runs -/

/-- A call that returns. -/
def Step (client_max : ℕ) (mgr : Mgr) (op : Op) (mgr' : Mgr) : Prop :=
  ∃ r, op.apply client_max mgr = some (r, mgr')

/-- A manager with no source, with or without an IH ring. -/
def Mgr.init (reused ih : Bool) (irq_base : ℕ) : Mgr :=
  { reused := reused, irq_base := irq_base, ih := if ih then some fun _ => none else none }

theorem Mgr.inv_init (client_max : ℕ) (reused ih : Bool) (irq_base : ℕ) :
    (Mgr.init reused ih irq_base).Inv client_max := by
  have hih : (Mgr.init reused ih irq_base).ihSource = fun _ => none := by
    funext i
    cases ih <;> rfl
  constructor
  case src_enabled =>
    rw [enabledSources, hih]
    exact (congrArg₂ (· + ·) Slots.count_empty Slots.count_empty).symm
  case src_registered => exact Slots.count_empty.symm
  case live => simp [Mgr.init]
  case ihLive => simp [hih]
  case client => simp [hih]
  case line =>
    intro _
    have h0 : (Mgr.init reused ih irq_base).enabledPlain = 0 := Slots.count_empty
    rw [h0]
    rfl

/-- What the manager promises between two calls: its counters count, its slots are not stale, and
the shared line is enabled while a plain source is. -/
structure Mgr.Promise (client_max : ℕ) (mgr : Mgr) : Prop where
  src_enabled : mgr.src_enabled = mgr.enabledSources client_max
  src_registered : mgr.src_registered = mgr.registeredSources
  live : ∀ i src, mgr.sources i = some src ∨ mgr.ihSource i = some src → src.freed = false
  line : mgr.reused → ((mgr.lines mgr.irq_base).Enabled ↔
    ∃ i < OPU_IRQ_SOURCE_MAX, ∃ src, mgr.sources i = some src ∧ src.timeout = 0 ∧ src.enabled)

theorem Mgr.Inv.promise {client_max : ℕ} {mgr : Mgr} (h : mgr.Inv client_max) :
    mgr.Promise client_max where
  src_enabled := h.src_enabled
  src_registered := h.src_registered
  live i src hs := hs.elim (h.live i src) (h.ihLive i src)
  line hreused := by
    have hpos : 0 < mgr.enabledPlain ↔ _ := Slots.count_pos_iff
    unfold Line.Enabled
    rw [h.line hreused]
    simp only [Source.plainEnabled, Bool.and_eq_true, decide_eq_true_eq] at hpos
    rw [← hpos]
    split_ifs with hif <;> simp [hif]

/-- **The interrupt sources in every run whose calls meet `StepOk`.**  In every state the manager
keeps its promise, and after a successful call for all sources they all are enabled, or
disabled. -/
theorem promise_of_run {client_max irq_base : ℕ} {reused ih : Bool} {ops : List Op} {mgr : Mgr}
    (h : Run (Guarded StepOk (Step client_max)) (.init reused ih irq_base) ops mgr) :
    mgr.Promise client_max ∧ ∀ op mgr', StepOk mgr op →
      op.apply client_max mgr = some (none, mgr') →
        (op = .enableAll → mgr'.AllEnabled true) ∧ (op = .disableAll → mgr'.AllEnabled false) := by
  have hinv : mgr.Inv client_max :=
    h.inv (fun _ _ _ hs ⟨hok, r, hstep⟩ => (Op.apply_inv hs hok hstep).1) (Mgr.inv_init ..)
  exact ⟨hinv.promise, fun op mgr' hok hstep => (Op.apply_inv hinv hok hstep).2⟩

/-- A plain source, a client of the IH ring and a timer; the plain source is enabled, and the shared
line with it. -/
theorem promise_of_run_shared : ∃ mgr : Mgr, mgr.src_enabled = 2 ∧ mgr.Promise 4 ∧
    (mgr.lines 40).Enabled := by
  have hrun : Run (Guarded StepOk (Step 4)) (.init true true 40)
      [.register true none ⟨1, true, 0, true, true⟩,
        .register true none ⟨0x20000, false, 0, true, true⟩,
        .register true none ⟨2, false, 5, true, true⟩, .enable 1, .enable 0x20000] _ :=
    .cons ⟨fun _ _ _ => ⟨rfl, fun _ => .inr ⟨rfl, rfl⟩⟩, _, rfl⟩
      (.cons ⟨fun _ _ _ => by rintro _ ⟨⟩, _, rfl⟩
        (.cons ⟨fun _ _ _ => ⟨rfl, by rintro ⟨⟩⟩, _, rfl⟩
          (.cons ⟨by rintro _ ⟨⟩; exact ⟨rfl, fun _ _ _ => .inl rfl⟩, _, rfl⟩
            (.cons ⟨by rintro _ ⟨⟩; exact ⟨rfl, by rintro ⟨⟩⟩, _, rfl⟩ (.nil _)))))
  exact ⟨_, rfl, (promise_of_run hrun).1, rfl⟩

/-- **The counter and the slots go wrong**: a timer that is enabled and disabled is counted twice,
and a source whose line is refused is freed and stays in its slot. -/
theorem disabled_timer_counts :
    (∃ ops mgr, Run (Step 4) (.init true true 40) ops mgr ∧ mgr.src_enabled = 2 ∧
      mgr.enabledSources 4 = 0) ∧
    ∃ ops mgr, Run (Step 4) (.init true true 40) ops mgr ∧
      ∃ src, mgr.sources 1 = some src ∧ src.freed := by
  refine ⟨⟨[.register true none ⟨2, false, 5, true, true⟩, .enable 2, .disable 2], _,
    .cons ⟨_, rfl⟩ (.cons ⟨_, rfl⟩ (.cons ⟨_, rfl⟩ (.nil _))), rfl, ?_⟩,
    [.register true (some .ebusy) ⟨1, false, 0, true, true⟩], _,
    .cons ⟨_, rfl⟩ (.nil _), _, rfl, rfl⟩
  decide +kernel

end Codrive.Irq
