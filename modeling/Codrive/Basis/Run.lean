/-
# Runs of a labelled step relation

A run is a finite sequence of labelled steps.  `Run.inv` is the one induction over
runs the development uses: what the start has and every step preserves, every state of
the run has.  A run restricted to steps that meet a condition is a run of the relation
`Guarded cond step`.
-/

import Mathlib.Tactic.Common

namespace Codrive.Basis

variable {σ ι : Type*} {step : σ → ι → σ → Prop}

/-- `Run step s ops t`: the labels `ops`, taken in order, lead from `s` to `t`. -/
inductive Run (step : σ → ι → σ → Prop) : σ → List ι → σ → Prop
  /-- No step. -/
  | nil (s : σ) : Run step s [] s
  /-- A step and a run from where it leads. -/
  | cons {s t u : σ} {i : ι} {ops : List ι} : step s i t → Run step t ops u →
      Run step s (i :: ops) u

/-- The steps that are taken where `cond` allows them. -/
def Guarded (cond : σ → ι → Prop) (step : σ → ι → σ → Prop) (s : σ) (i : ι) (t : σ) : Prop :=
  cond s i ∧ step s i t

/-- **An invariant of the steps is an invariant of the runs.** -/
theorem Run.inv {I : σ → Prop} (hI : ∀ s i t, I s → step s i t → I t) {s t : σ} {ops : List ι}
    (h : Run step s ops t) (hs : I s) : I t := by
  induction h with
  | nil => exact hs
  | cons h _ ih => exact ih (hI _ _ _ hs h)

/-- **A simulation of the steps is one of the runs.** -/
theorem Run.simulates {τ : Type*} {step' : τ → ι → τ → Prop} {I : σ → Prop} {f : σ → τ}
    (hI : ∀ s i t, I s → step s i t → I t ∧ step' (f s) i (f t)) {s t : σ} {ops : List ι}
    (h : Run step s ops t) (hs : I s) : I t ∧ Run step' (f s) ops (f t) := by
  induction h with
  | nil => exact ⟨hs, .nil _⟩
  | cons h _ ih =>
    obtain ⟨hs, hstep⟩ := hI _ _ _ hs h
    obtain ⟨ht, hrun⟩ := ih hs
    exact ⟨ht, .cons hstep hrun⟩

theorem Run.append {s t u : σ} {ops ops' : List ι} (h : Run step s ops t)
    (h' : Run step t ops' u) : Run step s (ops ++ ops') u := by
  induction h with
  | nil => exact h'
  | cons h _ ih => exact .cons h (ih h')

/-- **Two relations have the same runs** from where the invariant holds, if they have the same steps
there and these keep it. -/
theorem Run.congr_of_inv {step' : σ → ι → σ → Prop} {I : σ → Prop}
    (hiff : ∀ s i t, I s → (step s i t ↔ step' s i t)) (hI : ∀ s i t, I s → step' s i t → I t)
    {s t : σ} {ops : List ι} (hs : I s) : Run step s ops t ↔ Run step' s ops t := by
  constructor
  · intro h
    induction h with
    | nil => exact .nil _
    | cons h _ ih =>
      have h' := (hiff _ _ _ hs).1 h
      exact .cons h' (ih (hI _ _ _ hs h'))
  · intro h
    induction h with
    | nil => exact .nil _
    | cons h _ ih => exact .cons ((hiff _ _ _ hs).2 h) (ih (hI _ _ _ hs h))

/-- A run ends with one more step. -/
theorem Run.snoc {s t u : σ} {ops : List ι} {i : ι} (h : Run step s ops t) (hi : step t i u) :
    Run step s (ops ++ [i]) u :=
  h.append (.cons hi (.nil u))

/-- The steps of a run may be weakened. -/
theorem Run.mono {step' : σ → ι → σ → Prop} (hle : ∀ s i t, step s i t → step' s i t) {s t : σ}
    {ops : List ι} (h : Run step s ops t) : Run step' s ops t := by
  induction h with
  | nil => exact .nil _
  | cons h _ ih => exact .cons (hle _ _ _ h) ih

/-- **A measure that goes down in every step** bounds the length of the runs. -/
theorem Run.length_le {I : σ → Prop} {μ : σ → ℕ} (hI : ∀ s i t, I s → step s i t → I t ∧ μ t < μ s)
    {s t : σ} {ops : List ι} (h : Run step s ops t) (hs : I s) : ops.length + μ t ≤ μ s := by
  induction h with
  | nil => simp
  | cons h _ ih =>
    obtain ⟨ht, hlt⟩ := hI _ _ _ hs h
    have := ih ht
    rw [List.length_cons]
    omega

/-- **Runs of bounded length that can always be continued** until they are done, get done. -/
theorem Run.exists_done {s : σ} {done : σ → Prop} {bound : ℕ}
    (hbound : ∀ ops t, Run step s ops t → ops.length ≤ bound)
    (hnext : ∀ ops t, Run step s ops t → ¬done t → ∃ i u, step t i u) :
    ∃ ops t, Run step s ops t ∧ done t := by
  by_contra hnone
  push Not at hnone
  have hlong : ∀ n, ∃ ops t, Run step s ops t ∧ ops.length = n := by
    intro n
    induction n with
    | zero => exact ⟨[], s, .nil s, rfl⟩
    | succ n ih =>
      obtain ⟨ops, t, hrun, rfl⟩ := ih
      obtain ⟨i, u, hstep⟩ := hnext ops t hrun (hnone ops t hrun)
      exact ⟨ops ++ [i], u, hrun.snoc hstep, by simp⟩
  obtain ⟨ops, t, hrun, hlength⟩ := hlong (bound + 1)
  have := hbound ops t hrun
  omega

end Codrive.Basis
