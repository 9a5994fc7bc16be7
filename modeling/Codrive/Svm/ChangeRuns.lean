/-
# The registered pages over runs

The registered ranges are there to say which pages are registered, and with which attributes.  A
run of requests and of unmappings changes that as if there were no ranges (`pages_of_run`): a
request gives its pages the attributes that it names, and what the CPU unmaps is gone, however the
ranges are split for it.
-/

import Codrive.Basis.Run
import Codrive.Svm.UnmapWork

namespace Codrive.Svm

open Codrive.Basis

/-- A change of the registered ranges. -/
inductive Change where
  /-- A request of `SET_ATTR`. -/
  | setAttr (start size : ℕ) (attrs : List SvmAttribute)
  /-- The CPU unmaps pages, and the deferred work is done. -/
  | unmap (l : List UnmapEvent)

/-- What the change is for, where `pages` says which page has which attributes. -/
def Change.apply (p : OpuProcess) (pages : ℕ → SvmAttrs → Prop) : Change → ℕ → SvmAttrs → Prop
  | .setAttr start size attrs, v, x =>
    if start ≤ v ∧ v ≤ start + size - 1 then
      (∃ y, pages v y ∧ x = svmRangeApplyAttrs p attrs y) ∨
        (∀ y, ¬pages v y) ∧ x = svmRangeApplyAttrs p attrs (defaultAttrs p)
    else pages v x
  | .unmap l, v, x => pages v x ∧ ¬Unmapped l v

/-- **The steps**: a request that succeeds, and notifications for a range where nothing is pending,
with the deferred work after them.  They keep away from the defects at page 0 and of
`svm_range_is_same_attrs`. -/
inductive Changes (p : OpuProcess) : Svms → Change → Svms → Prop
  | setAttr {mm : List Vma} {s t : Svms} {start size : ℕ} {attrs : List SvmAttribute}
      (hstart : 0 < start) (hsize : 0 < size) (h : Applies p attrs s start (start + size - 1))
      (hrun : svmRangeSetAttr p mm s start size attrs = (none, t)) :
      Changes p s (.setAttr start size attrs) t
  | unmap {s t : Svms} {b : ItNode} {l : List UnmapEvent} (hb : b ∈ s.objects) (hidle : Idle s b)
      (h₀ : b.start ≠ 0) (hl : ∀ q ∈ l, q.Within b) (hrun : unmapAll p b.prange l s = some t) :
      Changes p s (.unmap l) (svmRangeDeferredListWork p t)

variable {p : OpuProcess} {s t : Svms}

/-- **One step.** -/
theorem Changes.pages {c : Change} (h : Changes p s c t) (hs : Registered s) :
    Registered t ∧ At t.segs = c.apply p (At s.segs) := by
  cases h with
  | @setAttr mm _ _ start size attrs hstart hsize h hrun =>
    have hle : start ≤ start + size - 1 := by omega
    have h₀ := fun n hn h₁ h₂ => (h n hn h₁ h₂).1
    have hperm := setAttr_segs hs hstart hsize hrun
    rw [stale_eq_nil h₀, List.map_nil, List.append_nil] at hperm
    have hdone : CarriedOut (svmRangeApplyAttrs p attrs) (defaultAttrs p) start (start + size - 1)
        s.segs t.segs := by
      refine (carriedOut_overlay hs.nodes.ascending hle fun a hmem hm => ?_).perm hperm.symm
      obtain ⟨n, hn, rfl⟩ := List.mem_map.1 hmem
      unfold updatedAttrs
      split_ifs with hsame
      · exact ((h n hn hm.1 hm.2).2 hsame).symm
      · rfl
    refine ⟨hs.setAttr hstart hsize h₀ hrun, funext fun v => funext fun x => propext ?_⟩
    unfold Change.apply
    dsimp only
    split_ifs with hv
    · exact hdone.inside v x hv.1 hv.2
    · exact hdone.outside v x hv
  | unmap hb hidle h₀ hl hrun =>
    obtain ⟨ht, hat⟩ := hidle.work hs hb hl h₀ hrun
    exact ⟨ht, funext fun v => funext fun x => propext (hat v x)⟩

/-- **The registered ranges are a map from pages to attributes**: after every run of requests and
unmappings they are pairwise disjoint, the tree and the list agree, and each page is registered with
the attributes that the changes, one after the other, give it. -/
theorem pages_of_run {ops : List Change} (h : Run (Changes p) s ops t) (hs : Registered s) :
    Registered t ∧ At t.segs = ops.foldl (Change.apply p) (At s.segs) := by
  induction h with
  | nil => exact ⟨hs, rfl⟩
  | cons h _ ih =>
    obtain ⟨ht, hpages⟩ := h.pages hs
    obtain ⟨hu, hrest⟩ := ih ht
    rw [hrest, hpages]
    exact ⟨hu, rfl⟩

/-- A request for two registered pages and two others; page 5 is unmapped again. -/
theorem pages_of_run_split : ∃ t, Run (Changes cpuProcess) (oneRange (defaultAttrs cpuProcess))
    [.setAttr 3 4 [⟨.prefetchLoc, 0⟩], .unmap [⟨5, 5⟩]] t ∧ Registered t ∧
      At t.segs = [.setAttr 3 4 [⟨.prefetchLoc, 0⟩], .unmap [⟨5, 5⟩]].foldl
        (Change.apply cpuProcess) (At (oneRange (defaultAttrs cpuProcess)).segs) := by
  have hset : svmRangeSetAttr cpuProcess userMm (oneRange (defaultAttrs cpuProcess)) 3 4
      [⟨.prefetchLoc, 0⟩] = (none, (svmRangeSetAttr cpuProcess userMm
        (oneRange (defaultAttrs cpuProcess)) 3 4 [⟨.prefetchLoc, 0⟩]).2) := by
    unfold svmRangeSetAttr
    rw [svmRangeIsValid_userMm (by decide) (by decide) (by decide)]
    rfl
  have happlies : Applies cpuProcess [⟨.prefetchLoc, 0⟩] (oneRange (defaultAttrs cpuProcess)) 3
      (3 + 4 - 1) := by
    intro n hn _ _
    obtain rfl := List.mem_singleton.1 hn
    exact ⟨by decide, by decide⟩
  generalize hs : (svmRangeSetAttr cpuProcess userMm (oneRange (defaultAttrs cpuProcess)) 3 4
    [⟨.prefetchLoc, 0⟩]).2 = s at hset
  obtain ⟨t, hunmap⟩ : ∃ t, unmapAll cpuProcess 3 [⟨5, 5⟩] s = some t :=
    Option.isSome_iff_exists.1 (hs ▸ by decide +kernel)
  have hidle : Idle s ⟨5, 6, 3⟩ := by
    subst hs
    constructor <;> decide +kernel
  have hsecond : Changes cpuProcess s (.unmap [⟨5, 5⟩]) (svmRangeDeferredListWork cpuProcess t) :=
    .unmap (hs ▸ by decide +kernel) hidle (by decide) (by simp [UnmapEvent.Within]) hunmap
  have hrun := Run.cons (.setAttr (by decide) (by decide) happlies hset) (.cons hsecond (.nil _))
  exact ⟨_, hrun, pages_of_run hrun (registered_oneRange _)⟩

end Codrive.Svm
