/-
# Memory objects, over every run

`used_size_of_run` says that in every state of a run of allocations and removals the used size of
the domain is the size of the live objects, and that each of them has nodes of its size, as long as
each allocation meets `StepOk`: it fails, or an external address is used, or the request is `Whole`.
A failing allocation leaves the domain as it was, and a removal undoes an allocation.
-/

import Codrive.Basis.Run
import Codrive.Memobj.AllocationSpec

namespace Codrive.Memobj

open Codrive.Basis

namespace State

variable {mgr : VmMgr} {s : State}

/-- The sizes of the live objects. -/
def liveSize (s : State) : ℕ := (s.live.map (·.request.size)).sum

/-- **The accounts of the domain.** -/
structure Accounted (mgr : VmMgr) (s : State) : Prop where
  used : s.domain.used_size = s.liveSize
  right : ∀ o ∈ s.live, Right mgr o.request o.nodes
  taken : s.domain.mm.Perm (s.live.flatMap (·.nodes.allocated))
  bound : s.domain.used_size < 2 ^ 64

/-- **The condition on a call.** -/
def StepOk (mgr : VmMgr) (s : State) : Call → Prop
  | .alloc r env => ∃ n, r.nodeCount mgr = some n ∧
      (env.array = false ∨ r.use_external_addr = false ∧ r.Refused mgr env n ∨
        (r.use_external_addr = true ∨ r.Whole mgr) ∧ s.domain.used_size + r.size < 2 ^ 64)
  | .remove _ => True

/-! ### Removing -/

/-- The nodes are taken off one by one. -/
theorem foldl_remove (nodes : List DrmMmNode) (d : Domain) (hd : d.used_size < 2 ^ 64)
    (hle : (nodes.map DrmMmNode.size).sum ≤ d.used_size) :
    nodes.foldl (fun d node =>
        ⟨if node.allocated then d.mm.erase node else d.mm, sub64 d.used_size node.size⟩) d =
      ⟨removeNodes d.mm (nodes.filter (·.allocated)),
        d.used_size - (nodes.map DrmMmNode.size).sum⟩ := by
  induction nodes generalizing d with
  | nil => rfl
  | cons node nodes ih =>
    rw [List.map_cons, List.sum_cons] at hle ⊢
    have hsub : sub64 d.used_size node.size = d.used_size - node.size :=
      sub64_of_le (by omega) hd
    rw [List.foldl_cons, hsub, ih _ (by dsimp only; omega) (by dsimp only; omega), Nat.sub_sub]
    cases hall : node.allocated with
    | false => rw [List.filter_cons_of_neg (by rw [hall]; exact Bool.false_ne_true),
        if_neg Bool.false_ne_true]
    | true => rw [List.filter_cons_of_pos hall, if_pos rfl]; rfl

/-- **A removal** gives back the nodes and the size. -/
theorem remove_eq {r : Request} {nodes : MmNodes} {d : Domain} (h : Right mgr r nodes)
    (hd : d.used_size < 2 ^ 64) (hle : r.size ≤ d.used_size) :
    opuMmRemoveMemobj d nodes = ⟨removeNodes d.mm nodes.allocated, d.used_size - r.size⟩ := by
  unfold opuMmRemoveMemobj
  rw [← h.length, List.take_length, foldl_remove _ _ hd (by rw [h.size]; exact hle), h.size]
  rfl

/-- Nodes that are there are removed. -/
theorem removeNodes_perm {mm nodes rest : List DrmMmNode} (h : mm.Perm (nodes ++ rest)) :
    (removeNodes mm nodes).Perm rest := by
  unfold removeNodes
  induction nodes generalizing mm with
  | nil => exact h
  | cons node nodes ih =>
    rw [List.foldl_cons]
    refine ih ?_
    have herase := h.erase node
    rwa [List.cons_append, List.erase_cons_head] at herase

/-! ### The steps -/

/-- What an allocation that meets the condition does. -/
theorem StepOk.allocated {r : Request} {env : Env} {nodes : MmNodes} {d : Domain}
    (hok : StepOk mgr s (.alloc r env))
    (halloc : opuMmAllocMemobj mgr r env s.domain = some (.ok nodes, d)) :
    Right mgr r nodes ∧ d.used_size = s.domain.used_size + r.size ∧ d.used_size < 2 ^ 64 ∧
      d.mm = nodes.allocated.reverse ++ s.domain.mm := by
  obtain ⟨n, hn, harray | hrefused | ⟨hwhole, hbound⟩⟩ := hok
  · exact absurd halloc (alloc_refused hn (.inl harray))
  · exact absurd halloc (alloc_refused hn (.inr hrefused))
  · obtain ⟨hright, hused, hmm⟩ := alloc_ok hwhole halloc
    rw [u64_of_lt hbound] at hused
    exact ⟨hright, hused, hused ▸ hbound, hmm⟩

theorem Accounted.alloc {r : Request} {env : Env} {nodes : MmNodes} {d : Domain}
    (h : Accounted mgr s) (hok : StepOk mgr s (.alloc r env))
    (halloc : opuMmAllocMemobj mgr r env s.domain = some (.ok nodes, d)) :
    Accounted mgr ⟨d, ⟨r, nodes⟩ :: s.live⟩ := by
  obtain ⟨hright, hused, hbound, hmm⟩ := StepOk.allocated hok halloc
  refine ⟨?_, ?_, ?_, hbound⟩
  · unfold liveSize
    dsimp only
    rw [List.map_cons, List.sum_cons, hused, h.used, Nat.add_comm]
    rfl
  · intro o ho
    rcases List.mem_cons.1 ho with rfl | ho
    · exact hright
    · exact h.right o ho
  · dsimp only
    rw [hmm, List.flatMap_cons]
    exact (List.reverse_perm _).append h.taken

theorem Accounted.remove {k : ℕ} {o : MemObj} (h : Accounted mgr s) (hk : s.live[k]? = some o) :
    Accounted mgr ⟨opuMmRemoveMemobj s.domain o.nodes, s.live.eraseIdx k⟩ := by
  obtain ⟨hlt, hget⟩ := List.getElem?_eq_some_iff.1 hk
  have hperm : s.live.Perm (o :: s.live.eraseIdx k) := by
    rw [← hget]
    exact (List.getElem_cons_eraseIdx_perm hlt).symm
  have hright := h.right o (hperm.mem_iff.2 List.mem_cons_self)
  have hsize : s.domain.used_size =
      o.request.size + ((s.live.eraseIdx k).map (·.request.size)).sum := by
    rw [h.used, ← List.sum_cons]
    exact (hperm.map _).sum_eq
  have hbound := h.bound
  rw [remove_eq hright h.bound (by omega)]
  refine ⟨?_, fun o' ho' => ?_, ?_, ?_⟩
  · unfold liveSize
    dsimp only
    omega
  · exact h.right o' (hperm.mem_iff.2 (List.mem_cons_of_mem _ ho'))
  · refine removeNodes_perm (h.taken.trans ?_)
    exact hperm.flatMap_right _
  · dsimp only
    omega

/-- **The accounts stay right over a call.** -/
theorem Accounted.step {c : Call} {t : State} (h : Accounted mgr s)
    (hstep : Guarded (StepOk mgr) (Step mgr) s c t) : Accounted mgr t := by
  obtain ⟨hok, hcall⟩ := hstep
  cases c with
  | alloc r env =>
    obtain ⟨⟨res, d⟩, halloc, ht⟩ := Option.map_eq_some_iff.1 hcall
    cases res with
    | error errno =>
      obtain rfl := alloc_error halloc
      rw [← ht]
      exact h
    | ok nodes =>
      rw [← ht]
      exact h.alloc hok halloc
  | remove k =>
    dsimp only [Step, State.call] at hcall
    cases hk : s.live[k]? with
    | none =>
      rw [hk] at hcall
      obtain rfl := Option.some.inj hcall
      exact h
    | some o =>
      rw [hk] at hcall
      obtain rfl := Option.some.inj hcall
      exact h.remove hk

/-- **The used size is that of the live objects**, in every state of a run whose calls meet the
condition.  There an allocation that fails leaves the domain as it was, one that meets the condition
does not fault, and where it succeeds its nodes are right and the removal of the object restores
the domain. -/
theorem used_size_of_run {calls : List Call}
    (hrun : Run (Guarded (StepOk mgr) (Step mgr)) {} calls s) :
    Accounted mgr s ∧ ∀ r env,
      (∀ errno d, opuMmAllocMemobj mgr r env s.domain = some (.error errno, d) → d = s.domain) ∧
      (StepOk mgr s (.alloc r env) →
        (∃ p, opuMmAllocMemobj mgr r env s.domain = some p) ∧
        ∀ nodes d, opuMmAllocMemobj mgr r env s.domain = some (.ok nodes, d) →
          Right mgr r nodes ∧ opuMmRemoveMemobj d nodes = s.domain) := by
  have hstart : Accounted mgr {} :=
    ⟨rfl, nofun, List.Perm.refl _, Nat.two_pow_pos 64⟩
  have h : Accounted mgr s := hrun.inv (fun _ _ _ h hstep => h.step hstep) hstart
  refine ⟨h, fun r env => ⟨fun errno d => alloc_error, fun hok => ⟨?_, fun nodes d halloc => ?_⟩⟩⟩
  · obtain ⟨n, hn, harray | ⟨-, hrefused⟩ | ⟨hwhole, -⟩⟩ := hok
    · exact alloc_total hn (.inl harray)
    · exact alloc_total hn (.inr (.inr (.inl hrefused)))
    · exact alloc_total hn (.inr (hwhole.imp id .inr))
  · obtain ⟨hright, hused, hbound, hmm⟩ := StepOk.allocated hok halloc
    refine ⟨hright, ?_⟩
    rw [remove_eq hright hbound (by omega), hmm, hused,
      removeNodes_append (List.reverse_perm _), Nat.add_sub_cancel]

/-- Huge pages of two pages. -/
def twoPages : VmMgr :=
  { support_vm_pt := true, vmid0_only := false, va_align := 4096, huge_page_size := 8192 }

/-- A hole for each node, one behind the other. -/
def holes : Env := ⟨true, fun k _ => some (65536 * k)⟩

/-- Five pages from an odd page on. -/
def fivePages : Request := { size := 20480, align := 4096, va := 4096 }

/-- The nodes of one, two and two pages. -/
def fiveNodes : List DrmMmNode :=
  [⟨0, 4096, true⟩, ⟨65536, 8192, true⟩, ⟨131072, 8192, true⟩]

/-- The five pages are allocated. -/
theorem used_size_of_run_five :
    Accounted twoPages ⟨⟨fiveNodes.reverse, 20480⟩, [⟨fivePages, ⟨fiveNodes, 3⟩⟩]⟩ := by
  have hcount : fivePages.nodeCount twoPages = some 3 := by decide +kernel
  have hwhole : fivePages.Whole twoPages :=
    { pages := by decide +kernel
      size := by decide +kernel
      one := fun h => absurd h (by decide +kernel)
      first := fun _ _ => by decide +kernel
      count := fun _ => by decide +kernel
      node := fun _ => .inl (by decide +kernel) }
  have hrun : Run (Guarded (StepOk twoPages) (Step twoPages)) {} [.alloc fivePages holes]
      ⟨⟨fiveNodes.reverse, 20480⟩, [⟨fivePages, ⟨fiveNodes, 3⟩⟩]⟩ :=
    .cons ⟨⟨3, hcount, .inr (.inr ⟨.inr hwhole, by decide +kernel⟩)⟩, rfl⟩ (.nil _)
  exact (used_size_of_run hrun).1

/-- Contiguous memory of 4 GiB and a page. -/
def fourGiB : Request :=
  { size := 4294971392, align := 4096, is_contiguous := true }

/-- `opu_bo_create` accepts the size, the object gets a single page, and after its removal 4 GiB
are still accounted for. -/
theorem contiguous_size_wraps :
    opuBoCreateSize twoPages false fourGiB.size fourGiB.align = some fourGiB.size ∧
    Run (Step twoPages) {} [.alloc fourGiB holes]
      ⟨⟨[⟨0, 4096, true⟩], fourGiB.size⟩, [⟨fourGiB, ⟨[⟨0, 4096, true⟩], 1⟩⟩]⟩ ∧
    Run (Step twoPages) {} [.alloc fourGiB holes, .remove 0] ⟨⟨[], 4294967296⟩, []⟩ :=
  ⟨by decide +kernel, .cons rfl (.nil _), .cons rfl (.cons rfl (.nil _))⟩

end State

end Codrive.Memobj
