/-
# The reference count of the runtime

`Runtime::Acquire`, `Runtime::Release` and `RuntimeCleanup` of `src/src/drive/Runtime.cpp`.

| here | source |
|---|---|
| `runtime_singleton_` | the count of the object that is pointed to; `none` is a null pointer |
| a count | `ref_count_`, a word of 32 bits; from `2 ^ 31` on it reads as negative |
| `load` of `acquire` | what `Load` returns, if it is called |
| `calls` | the calls of `Load` and of `Unload`, the last one first |

Every call holds `bootstrap_lock_`, and so is one step.  At the end of the process the object is
deleted if it has no references; no call follows the pointer after that, and it is null here.

`references_of_run` says that the runs in which the count, the object and the platform agree are
those in which `Load` does not fail.
-/

import Codrive.Basis.Machine
import Codrive.Basis.Run

namespace Codrive.Runtime.References

open Codrive.Basis

/-- `status_t`, as far as it is returned here. -/
inductive Status
  | success
  | error
  | outOfResources
  | refcountOverflow
  | notInitialized
  deriving DecidableEq

/-- What is done with the platform. -/
inductive Call
  | load (ok : Bool)
  | unload
  deriving DecidableEq

/-- The state that `Acquire` and `Release` share. -/
structure State where
  loaded : Bool := true
  runtime_singleton_ : Option ℕ := none
  calls : List Call := []

/-- `INT32_MAX`. -/
def int32Max : ℕ := 2 ^ 31 - 1

/-- The reference count; it is zero where there is no object. -/
def State.count (s : State) : ℕ := s.runtime_singleton_.getD 0

/-- `ref_count_--`. -/
def decrement (ref_count_ : ℕ) : ℕ := wrap 32 (ref_count_ + (2 ^ 32 - 1))

/-- `Runtime::Acquire`. -/
def acquire (s : State) (load : Status) : Status × State :=
  if !s.loaded then (.outOfResources, s)
  else
    let ref_count_ := s.runtime_singleton_.getD 0
    if ref_count_ = int32Max then
      (.refcountOverflow, { s with runtime_singleton_ := some ref_count_ })
    else
      let ref_count_ := wrap 32 (ref_count_ + 1)
      if ref_count_ = 1 then
        let calls := Call.load (load = .success) :: s.calls
        if load ≠ .success then
          -- The guard takes the reference back.
          (.outOfResources, { s with runtime_singleton_ := some (decrement ref_count_), calls })
        else (.success, { s with runtime_singleton_ := some ref_count_, calls })
      else (.success, { s with runtime_singleton_ := some ref_count_ })

/-- `Runtime::Release`. -/
def release (s : State) : Status × State :=
  if !s.loaded then (.success, s)
  else
    match s.runtime_singleton_ with
    | none => (.notInitialized, s)
    | some ref_count_ =>
      let calls := if ref_count_ = 1 then .unload :: s.calls else s.calls
      let ref_count_ := decrement ref_count_
      (.success,
        { s with runtime_singleton_ := if ref_count_ = 0 then none else some ref_count_, calls })

/-- `Runtime::IsOpen`. -/
def isOpen (s : State) : Bool := s.runtime_singleton_.isSome && s.runtime_singleton_ ≠ some 0

/-- `~RuntimeCleanup`. -/
def cleanup (s : State) : State :=
  { s with
    loaded := false
    runtime_singleton_ := if !isOpen s then none else s.runtime_singleton_ }

/-! ### Runs -/

/-- A call, or the end of the process. -/
inductive Op
  | acquire (load : Status)
  | release
  | exit

/-- **The steps**: an operation, and what it returns. -/
inductive Step : State → Op × Option Status → State → Prop
  | acquire {s load} : Step s (.acquire load, some (acquire s load).1) (acquire s load).2
  | release {s} : Step s (.release, some (release s).1) (release s).2
  | exit {s} : Step s (.exit, none) (cleanup s)

/-- The platform is loaded after these calls. -/
def isLoaded : List Call → Bool
  | [] => false
  | .load ok :: calls => ok || isLoaded calls
  | .unload :: _ => false

/-- The platform is loaded and unloaded in turn. -/
def Alternates : List Call → Prop
  | [] => True
  | .load ok :: calls => (ok = true → isLoaded calls = false) ∧ Alternates calls
  | .unload :: calls => isLoaded calls = true ∧ Alternates calls

/-- What is right in a state: the count is not negative, the object is there if and only if the
count is positive, and the platform was loaded and unloaded in turn. -/
structure RightState (s : State) : Prop where
  nonneg : s.count ≤ int32Max
  singleton : s.runtime_singleton_.isSome ↔ 0 < s.count
  alternates : Alternates s.calls

/-- What is right in a step: after it the state is right, and an acquire has taken one reference of
the loaded runtime, or has failed and left count and object as they were. -/
structure RightStep (s : State) (o : Op × Option Status) (t : State) : Prop where
  state : RightState t
  success : ∀ load, o = (.acquire load, some .success) →
    isLoaded t.calls = true ∧ t.count = s.count + 1
  failure : ∀ load status, o = (.acquire load, some status) → status ≠ .success →
    t.runtime_singleton_ = s.runtime_singleton_

/-- **The condition**: where an acquire calls `Load` for the first reference, it succeeds. -/
def LoadOk (s : State) (o : Op × Option Status) : Prop :=
  ∀ load, o.1 = .acquire load → s.loaded = true → s.count = 0 → load = .success

/-- **The invariant**: the platform is loaded as long as there is an object, which has a
reference. -/
structure Inv (s : State) : Prop extends RightState s where
  platform : isLoaded s.calls = s.runtime_singleton_.isSome

variable {s : State}

/-- Two cases: there is no object, or it has so many references. -/
theorem Inv.cases (h : Inv s) : s.runtime_singleton_ = none ∨
    ∃ n, s.runtime_singleton_ = some (n + 1) ∧ n + 1 ≤ int32Max := by
  have hnonneg := h.nonneg
  have hsingleton := h.singleton
  unfold State.count at hnonneg hsingleton
  rcases hs : s.runtime_singleton_ with _ | n
  · exact .inl rfl
  · rw [hs] at hnonneg hsingleton
    have hpos : 0 < n := hsingleton.1 rfl
    obtain ⟨n, rfl⟩ := Nat.exists_eq_succ_of_ne_zero (Nat.ne_of_gt hpos)
    exact .inr ⟨n, rfl, hnonneg⟩

/-- A positive count goes down by one. -/
theorem decrement_succ {n : ℕ} (h : n + 1 ≤ int32Max) : decrement (n + 1) = n := by
  have hmax : int32Max = 2 ^ 31 - 1 := rfl
  unfold decrement wrap
  omega

/-- An acquire after the end of the process. -/
theorem acquire_exit {load : Status} (h : s.loaded = false) :
    acquire s load = (.outOfResources, s) := by
  unfold acquire
  rw [h]
  rfl

/-- The first acquire. -/
theorem acquire_first {load : Status} (h : s.loaded = true) (hnone : s.runtime_singleton_ = none) :
    acquire s load = if load = .success then
        (.success, { s with runtime_singleton_ := some 1, calls := .load true :: s.calls })
      else
        (.outOfResources,
          { s with runtime_singleton_ := some 0, calls := .load false :: s.calls }) := by
  unfold acquire
  rw [h, hnone]
  by_cases hload : load = .success
  · rw [if_pos hload, hload]
    rfl
  · rw [if_neg hload]
    dsimp only
    rw [if_pos hload, decide_eq_false hload]
    rfl

/-- An acquire with references. -/
theorem acquire_more {load : Status} {n : ℕ} (h : s.loaded = true)
    (hsome : s.runtime_singleton_ = some (n + 1)) (hmax : n + 1 ≤ int32Max) :
    acquire s load = if n + 1 = int32Max then (.refcountOverflow, s)
      else (.success, { s with runtime_singleton_ := some (n + 2) }) := by
  obtain ⟨loaded, runtime_singleton_, calls⟩ := s
  obtain rfl : loaded = true := h
  obtain rfl : runtime_singleton_ = some (n + 1) := hsome
  have hmax' : int32Max = 2 ^ 31 - 1 := rfl
  have hwrap : wrap 32 (n + 1 + 1) = n + 2 := wrap_of_lt (by omega)
  unfold acquire
  dsimp only [Option.getD_some]
  rw [hwrap, if_neg (by decide), if_neg (show n + 2 ≠ 1 by omega)]

/-- A release of one of the references. -/
theorem release_some {n : ℕ} (h : s.loaded = true) (hsome : s.runtime_singleton_ = some (n + 1))
    (hmax : n + 1 ≤ int32Max) :
    release s = (.success, if n = 0 then
        { s with runtime_singleton_ := none, calls := .unload :: s.calls }
      else { s with runtime_singleton_ := some n }) := by
  unfold release
  rw [h, hsome]
  dsimp only
  rw [decrement_succ hmax, if_neg (by decide)]
  by_cases hn : n = 0
  · rw [if_pos hn, if_pos hn, if_pos (by omega)]
  · rw [if_neg hn, if_neg hn, if_neg (by omega)]

/-- Without an object and without the platform. -/
theorem Inv.of_none (hnone : s.runtime_singleton_ = none) (halternates : Alternates s.calls)
    (hunloaded : isLoaded s.calls = false) : Inv s := by
  refine { nonneg := ?_, singleton := ?_, alternates := halternates, platform := ?_ }
  · unfold State.count
    rw [hnone]
    exact Nat.zero_le _
  · unfold State.count
    rw [hnone]
    decide
  · rw [hunloaded, hnone]
    rfl

/-- With references and with the platform. -/
theorem Inv.of_some {n : ℕ} (hsome : s.runtime_singleton_ = some (n + 1)) (hmax : n + 1 ≤ int32Max)
    (halternates : Alternates s.calls) (hloaded : isLoaded s.calls = true) : Inv s := by
  refine { nonneg := ?_, singleton := ?_, alternates := halternates, platform := ?_ }
  · unfold State.count
    rw [hsome]
    exact hmax
  · unfold State.count
    rw [hsome]
    exact iff_of_true rfl (Nat.succ_pos n)
  · rw [hloaded, hsome]
    rfl

/-- **What an acquire in a good state does**: it fails without a trace, takes a reference of the
loaded runtime, or fails to load it. -/
theorem Inv.acquire_cases (h : Inv s) (load : Status) :
    ((acquire s load).1 ≠ .success ∧ (acquire s load).2 = s ∧
        (s.loaded = true → 0 < s.count)) ∨
      ((acquire s load).1 = .success ∧ Inv (acquire s load).2 ∧
        isLoaded (acquire s load).2.calls = true ∧ (acquire s load).2.count = s.count + 1 ∧
          (s.count = 0 → load = .success)) ∨
      ((acquire s load).1 ≠ .success ∧ (acquire s load).2.runtime_singleton_ = some 0 ∧
        s.loaded = true ∧ s.count = 0 ∧ load ≠ .success) := by
  rcases hloaded : s.loaded with _ | _
  · rw [acquire_exit hloaded]
    exact .inl ⟨nofun, rfl, nofun⟩
  rcases h.cases with hnone | ⟨n, hsome, hmax⟩
  · have hcount : s.count = 0 := by
      unfold State.count
      rw [hnone]
      rfl
    rw [acquire_first hloaded hnone]
    by_cases hload : load = .success
    · rw [if_pos hload]
      have hunloaded : isLoaded s.calls = false := by
        rw [h.platform, hnone]
        rfl
      refine .inr (.inl ⟨rfl, .of_some rfl (by decide) ⟨fun _ => hunloaded, h.alternates⟩ rfl, rfl,
        ?_, fun _ => hload⟩)
      rw [hcount]
      rfl
    · rw [if_neg hload]
      exact .inr (.inr ⟨nofun, rfl, rfl, hcount, hload⟩)
  · have hcount : s.count = n + 1 := by
      unfold State.count
      rw [hsome]
      rfl
    rw [acquire_more hloaded hsome hmax]
    by_cases hfull : n + 1 = int32Max
    · rw [if_pos hfull]
      exact .inl ⟨nofun, rfl, fun _ => by omega⟩
    · rw [if_neg hfull]
      have hplatform : isLoaded s.calls = true := by
        rw [h.platform, hsome]
        rfl
      refine .inr (.inl ⟨rfl, .of_some rfl (by omega) h.alternates hplatform, hplatform, ?_,
        fun hzero => by omega⟩)
      rw [hcount]
      rfl

/-- A release keeps the invariant. -/
theorem Inv.release (h : Inv s) : Inv (References.release s).2 := by
  rcases hloaded : s.loaded with _ | _
  · unfold References.release
    rw [hloaded]
    exact h
  rcases h.cases with hnone | ⟨n, hsome, hmax⟩
  · unfold References.release
    rw [hloaded, hnone]
    exact h
  · have hplatform : isLoaded s.calls = true := by
      rw [h.platform, hsome]
      rfl
    rw [release_some hloaded hsome hmax]
    by_cases hn : n = 0
    · rw [if_pos hn]
      exact .of_none rfl ⟨hplatform, h.alternates⟩ rfl
    · obtain ⟨n, rfl⟩ := Nat.exists_eq_succ_of_ne_zero hn
      rw [if_neg hn]
      exact .of_some rfl (by omega) h.alternates hplatform

/-- The end of the process keeps the invariant: an object that has no references is not there. -/
theorem Inv.cleanup (h : Inv s) : Inv (References.cleanup s) := by
  rcases h.cases with hnone | ⟨n, hsome, hmax⟩
  · have hunloaded : isLoaded s.calls = false := by
      rw [h.platform, hnone]
      rfl
    refine .of_none ?_ h.alternates hunloaded
    unfold References.cleanup isOpen
    rw [hnone]
    rfl
  · have hplatform : isLoaded s.calls = true := by
      rw [h.platform, hsome]
      rfl
    have hopen : isOpen s = true := by
      unfold isOpen
      rw [hsome]
      refine Bool.and_eq_true_iff.2 ⟨rfl, decide_eq_true fun heq => ?_⟩
      exact Nat.succ_ne_zero n (Option.some.inj heq)
    refine .of_some ?_ hmax h.alternates hplatform
    unfold References.cleanup
    rw [hopen]
    exact hsome

/-- **A step from a good state is right if and only if `Load` does not fail in it**, and then the
state after it is good. -/
theorem Inv.step {o : Op × Option Status} {t : State} (h : Inv s) (hstep : Step s o t) :
    (RightStep s o t ↔ LoadOk s o) ∧ (LoadOk s o → Inv t) := by
  induction hstep with
  | @acquire load =>
    rcases h.acquire_cases load with ⟨hstatus, hsame, hpos⟩ |
      ⟨hstatus, hinv, hplatform, hcount, hload⟩ | ⟨hstatus, hobject, hloaded, hcount, hload⟩
    · have hok : LoadOk s (.acquire load, some (References.acquire s load).1) := by
        intro load' _ hl hzero
        exact absurd hzero (Nat.ne_of_gt (hpos hl))
      rw [hsame]
      refine ⟨iff_of_true ⟨h.toRightState, fun load' heq => ?_, fun _ _ _ _ => rfl⟩ hok, fun _ => h⟩
      exact absurd (Option.some.inj (Prod.mk.inj heq).2) hstatus
    · have hok : LoadOk s (.acquire load, some (References.acquire s load).1) := by
        intro load' heq _ hzero
        injection heq with heq
        exact heq ▸ hload hzero
      refine ⟨iff_of_true ⟨hinv.toRightState, fun _ _ => ⟨hplatform, hcount⟩, ?_⟩ hok,
        fun _ => hinv⟩
      intro load' status heq hne
      exact absurd ((Option.some.inj (Prod.mk.inj heq).2).symm.trans hstatus) hne
    · have hbad : ¬LoadOk s (.acquire load, some (References.acquire s load).1) :=
        fun hok => hload (hok load rfl hloaded hcount)
      refine ⟨iff_of_false (fun hright => ?_) hbad, fun hok => absurd hok hbad⟩
      -- The object is there, and has no references.
      have hpos := hright.state.singleton
      unfold State.count at hpos
      rw [hobject] at hpos
      exact absurd (hpos.1 rfl) (by decide)
  | release =>
    have hok : LoadOk s (.release, some (References.release s).1) := fun _ heq => nomatch heq
    refine ⟨iff_of_true ⟨h.release.toRightState, ?_, ?_⟩ hok, fun _ => h.release⟩
    · exact fun _ heq => nomatch (Prod.mk.inj heq).1
    · exact fun _ _ heq => nomatch (Prod.mk.inj heq).1
  | exit =>
    have hok : LoadOk s (.exit, none) := fun _ heq => nomatch heq
    refine ⟨iff_of_true ⟨h.cleanup.toRightState, ?_, ?_⟩ hok, fun _ => h.cleanup⟩
    · exact fun _ heq => nomatch (Prod.mk.inj heq).1
    · exact fun _ _ heq => nomatch (Prod.mk.inj heq).1

/-- **The runs whose steps are right are those in which `Load` does not fail.** -/
theorem references_of_run (ops : List (Op × Option Status)) (s : State) :
    Run (fun s o t => Step s o t ∧ RightStep s o t) {} ops s ↔
      Run (Guarded LoadOk Step) {} ops s := by
  have hstart : Inv {} := .of_none rfl trivial rfl
  refine Run.congr_of_inv (I := Inv) ?_ ?_ hstart
  · intro s o t h
    constructor
    · exact fun ⟨hstep, hright⟩ => ⟨(h.step hstep).1.1 hright, hstep⟩
    · exact fun ⟨hok, hstep⟩ => ⟨hstep, (h.step hstep).1.2 hok⟩
  · exact fun s o t h ⟨hok, hstep⟩ => (h.step hstep).2 hok

/-- **A failed `Load` leaves an object without references**: a release makes the count negative, and
the next acquire succeeds although the platform is not loaded. -/
theorem failed_load_leaves_object :
    ∃ s t u, Step {} (.acquire .error, some .outOfResources) s ∧
      Step s (.release, some .success) t ∧ Step t (.acquire .success, some .success) u ∧
      s.runtime_singleton_ = some 0 ∧ t.count = 2 ^ 32 - 1 ∧ isLoaded u.calls = false :=
  ⟨_, _, _, .acquire, .release, .acquire, rfl, rfl, rfl⟩

end Codrive.Runtime.References
