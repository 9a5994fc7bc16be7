/-
# The references of the buffers, over every run

A process sets attributes, and its ranges move to VRAM and back.  The moves are taken apart into
what they do to buffers: `svm_range_vram_node_new`, `svm_range_vram_node_free`, and the references
of the device pages.  `accounted_of_run` says that the buffers stay accounted for, and that a
request that fails leaves everything, as long as

- no request runs out of memory while a clone of a range with a buffer is on its insert list, nor
  for the pages behind the last range it meets (`Spared`),
- a range that gives up its VRAM holds the last reference of its buffer.  For one that does not,
  `svm_range_vram_node_free` leaves it on the list of the buffer without a reference.
-/

import Codrive.Basis.Run
import Codrive.Svm.Rollback

namespace Codrive.Svm

open Codrive.Basis

/-! ### The transaction -/

section

variable {pages : ℕ → ℕ} {p : OpuProcess} {attrs : List SvmAttribute} {mm : List Vma}
  {s t : Svms} {start size : ℕ}

theorem sameBuffers_insertAll (l : List ℕ) (s : Svms) :
    SameBuffers s.mem (insertAll s l).mem := by
  induction l generalizing s with
  | nil => exact .refl _
  | cons k l ih =>
    refine .trans ?_ (ih (svmRangeAddNotifierLocked (svmRangeAddToSvms s k) k))
    have hadd : SameBuffers s.mem (svmRangeAddToSvms s k).mem := by
      unfold svmRangeAddToSvms
      dsimp only
      exact .setRange s.mem k fun _ => ⟨rfl, rfl⟩
    refine hadd.trans ?_
    unfold svmRangeAddNotifierLocked
    dsimp only
    split_ifs
    all_goals
      dsimp only
      exact .setRange _ k fun _ => ⟨rfl, rfl⟩

theorem sameBuffers_updateAll (l : List ℕ) (s : Svms) :
    SameBuffers s.mem (updateAll p attrs s l).mem := by
  induction l generalizing s with
  | nil => exact .refl _
  | cons k l ih =>
    refine .trans ?_ (ih _)
    dsimp only
    exact .setRange s.mem k fun _ => ⟨rfl, rfl⟩

/-- **The removals.** -/
theorem Accounted.removeAll {l : List ℕ} (h : Accounted pages s.mem) (hl : l.Nodup)
    (hlive : ∀ k ∈ l, s.mem.Live k) : Accounted pages (l.foldl (Svm.removeOld p) s).mem ∧
      ∀ j, (l.foldl (Svm.removeOld p) s).mem.Live j ↔ j ∉ l ∧ s.mem.Live j := by
  induction l generalizing s with
  | nil => exact ⟨h, fun j => by simp⟩
  | cons k l ih =>
    obtain ⟨hkl, hl⟩ := List.nodup_cons.1 hl
    obtain ⟨hacc, hfreed⟩ := h.removeOld (p := p) (hlive k List.mem_cons_self)
    have hone : ∀ j, (Svm.removeOld p s k).mem.Live j ↔ j ≠ k ∧ s.mem.Live j := fun j => by
      unfold Mem.Live
      rw [(removeOld_ok p s k).1, hfreed, List.mem_cons, not_or]
      tauto
    obtain ⟨g₁, g₂⟩ := ih hacc hl fun j hj =>
      (hone j).2 ⟨fun e => hkl (e ▸ hj), hlive j (List.mem_cons_of_mem _ hj)⟩
    refine ⟨g₁, fun j => (g₂ j).trans ?_⟩
    rw [hone, List.mem_cons, not_or]
    tauto

/-- The registered ranges exist, none at page 0, and the buffers are accounted for. -/
structure Svms.Sound (pages : ℕ → ℕ) (s : Svms) : Prop where
  registered : Registered s
  start_ne : ∀ n ∈ s.objects, n.start ≠ 0
  live : ∀ n ∈ s.objects, s.mem.Live n.prange
  accounted : Accounted pages s.mem

/-- **A request that is carried through** keeps the account. -/
theorem Svms.Sound.setAttr_ok (hs : s.Sound pages) (hstart : 0 < start) (hsize : 0 < size)
    (hspared : Spared (plan s.mem (start + size - 1) start start s.objects false) s.mem.answer)
    (h : svmRangeSetAttr p mm s start size attrs = (none, t)) : t.Sound pages := by
  have hreg := hs.registered.setAttr hstart hsize (fun n hn _ _ => hs.start_ne n hn) h
  have hsegs := setAttr_segs hs.registered hstart hsize h
  obtain ⟨o', hadd', -, hobj, -⟩ := setAttr_effect hs.registered hsize h
  obtain ⟨o, hadd, rfl⟩ := setAttr_cases h
  obtain rfl : o = o' := by
    rw [hadd] at hadd'
    exact (Prod.mk.inj hadd').2
  obtain ⟨-, -, -, hr, -⟩ := svmRangeAdd_ok hs.registered.nodes hsize hadd
  have hpending := @svmRangeAdd_spared pages p s start size attrs hs.accounted
    hs.registered.nodes hs.live hsize hspared
  rw [hadd] at hpending
  have hold : ∀ k ∈ o.remove_list, s.mem.Live k := fun k hk => by
    obtain ⟨n, hn, rfl⟩ := List.mem_map.1 (hr.mem_iff.1 hk)
    exact hs.live n (meeting_subset (List.mem_of_mem_filter hn))
  have hnodup : o.remove_list.Nodup := by
    refine hr.nodup_iff.2 (hs.registered.nodes.nodup.sublist ?_)
    exact (List.filter_sublist.trans List.filter_sublist).map _
  have hsame := (sameBuffers_insertAll o.insert_list { s with mem := o.mem }).trans
    (@sameBuffers_updateAll p attrs o.update_list _)
  obtain ⟨hacc, hlive⟩ := (hpending.accounted.frame hsame).removeAll (p := p) hnodup
    fun k hk => hsame.live.2 (hpending.live_old (hold k hk))
  refine ⟨hreg, fun n hn h0 => ?_, fun n hn => (hlive _).2 ?_, hacc⟩
  · -- page 0 was in no range, and is not in the request
    rw [stale_eq_nil fun n hn _ _ => hs.start_ne n hn, List.map_nil, List.append_nil] at hsegs
    have hasc : Ascending s.segs := hs.registered.nodes.ascending
    have hat : At (Svms.segs _) 0 (n.seg _).val :=
      ⟨_, List.mem_map_of_mem hn, ⟨h0.le, Nat.zero_le _⟩, rfl⟩
    rw [at_perm hsegs, hasc.at_overlay (by omega), if_neg (by omega)] at hat
    obtain ⟨a, ha, hav, -⟩ := hat
    obtain ⟨b, hb, rfl⟩ := List.mem_map.1 ha
    exact hs.start_ne b hb (Nat.le_zero.1 hav.1)
  · rcases List.mem_append.1 (hobj.mem_iff.1 hn) with hn | hn
    · obtain ⟨k, hk, rfl⟩ := List.mem_map.1 hn
      refine ⟨fun hkr => ?_, hsame.live.2 (hpending.live hk)⟩
      have h₁ := ((hpending.mem_insert k).1 hk).1
      have h₂ := (hold k hkr).1
      omega
    · obtain ⟨hn, hkept⟩ := List.mem_filter.1 hn
      refine ⟨fun hnr => ?_, hsame.live.2 (hpending.live_old (hs.live n hn))⟩
      have hne := hs.start_ne n hn
      have hle : n.start ≤ n.last :=
        hs.registered.nodes.ascending.nonempty (n.seg s.mem) (List.mem_map_of_mem hn)
      simp only [decide_eq_true_eq] at hkept
      exact hkept ⟨hnr, hne, by omega⟩

/-- **The request leaves everything**, but for ranges it has made and freed. -/
structure Svms.Restored (s t : Svms) : Prop where
  same : t = { s with mem := t.mem }
  undone : Undone s.mem t.mem

theorem Svms.Restored.refl (s : Svms) : s.Restored s :=
  ⟨rfl, Nat.le_refl _, fun _ _ => rfl, rfl, fun k => (or_iff_left (by omega)).symm⟩

/-- What a change of the memory leaves of the registered ranges. -/
theorem Svms.Sound.of_mem {pages' : ℕ → ℕ} {m : Mem} (hs : s.Sound pages)
    (hnext : s.mem.next ≤ m.next)
    (hfreed : ∀ k < s.mem.next, k ∈ m.freed ↔ k ∈ s.mem.freed)
    (hranges : ∀ k < s.mem.next, (m.ranges k).seg = (s.mem.ranges k).seg ∧
      (m.ranges k).links = (s.mem.ranges k).links)
    (hacc : Accounted pages' m) : Svms.Sound pages' { s with mem := m } := by
  obtain ⟨⟨⟨hok, hasc, hnodup⟩, hlinked, hlist⟩, hne, hlive, -⟩ := hs
  have hseg : ∀ n ∈ s.objects, n.seg m = n.seg s.mem := fun n hn => by
    have hval : (m.ranges n.prange).toSvmAttrs = (s.mem.ranges n.prange).toSvmAttrs :=
      congrArg Seg.val (hranges n.prange (hok n hn).1).1
    rw [ItNode.seg, ItNode.seg, hval]
  refine ⟨⟨⟨fun n hn => ?_, ?_, hnodup⟩, fun n hn => ?_, hlist⟩, hne, fun n hn => ?_, hacc⟩
  · obtain ⟨hlt, hns⟩ := hok n hn
    exact ⟨Nat.lt_of_lt_of_le hlt hnext, by rw [(hranges _ hlt).1, hns, hseg n hn]⟩
  · rw [List.map_congr_left hseg]
    exact hasc
  · obtain ⟨h₁, h₂⟩ := Prod.mk.inj (Prod.mk.inj (hranges _ (hok n hn).1).2).1
    dsimp only
    rw [h₁, h₂]
    exact hlinked n hn
  · obtain ⟨h₁, h₂⟩ := hlive n hn
    exact ⟨Nat.lt_of_lt_of_le h₁ hnext, fun h => h₂ ((hfreed _ h₁).1 h)⟩

/-- **A request** keeps the account, and one that fails leaves everything. -/
theorem Svms.Sound.setAttr {r : Option Errno} (hs : s.Sound pages) (hstart : 0 < start)
    (hsize : 0 < size)
    (hspared : Spared (plan s.mem (start + size - 1) start start s.objects false) s.mem.answer)
    (h : svmRangeSetAttr p mm s start size attrs = (r, t)) :
    t.Sound pages ∧ (r ≠ none → s.Restored t) := by
  cases r with
  | none => exact ⟨hs.setAttr_ok hstart hsize hspared h, fun hne => absurd rfl hne⟩
  | some e =>
    have hadd := @svmRangeAdd_spared pages p s start size attrs hs.accounted hs.registered.nodes
      hs.live hsize hspared
    unfold svmRangeSetAttr at h
    split at h
    · cases h
      exact ⟨hs, fun _ => .refl s⟩
    split_ifs at h
    · cases h
      exact ⟨hs, fun _ => .refl s⟩
    · split at h
      · rename_i e' o hres
        rw [hres] at hadd
        obtain ⟨hacc, hundone⟩ := hadd
        cases h
        refine ⟨hs.of_mem hundone.next_le (fun k hk => ?_) (fun k hk => ?_) hacc,
          fun _ => ⟨rfl, hundone⟩⟩
        · rw [hundone.freed]
          exact or_iff_left (by omega)
        · rw [hundone.ranges k hk]
          exact ⟨rfl, rfl⟩
      · cases h

end

/-! ### The moves to VRAM and back -/

/-- Whether `svm_range_vram_node_new` gets a buffer when it needs one: `svm_range_bo_new` or what
follows it up to the buffer object fails, the buffer object does, or neither. -/
inductive NewBo where
  | noMemory (r : Errno)
  | noObject (r : Errno)
  | made (b : ℕ)

/-- What `svm_range_vram_node_new` is told by others. -/
structure VramEnv where
  /-- `bo_adev != adev`: the buffer is on another device. -/
  elsewhere : Bool
  /-- `svm_bo->evicting`. -/
  evicting : Bool
  newBo : NewBo
  /-- `bo->tbo.resource`. -/
  resource : ℕ → ℕ

/-- `svm_range_validate_svm_bo`. -/
def svmRangeValidateSvmBo (e : VramEnv) (prange : ℕ) (m : Mem) : Bool × Mem :=
  match (m.ranges prange).svm_bo with
  | none => (false, m)
  | some b =>
    if (m.ranges prange).ttm_res.isSome then (true, m)
    else if (m.bos b).kref = 0 then (false, m)
    else
      let m := m.setBo b fun bo => { bo with kref := bo.kref + 1 }
      if e.elsewhere then
        (false, svmRangeBoUnref (m.setBo b fun bo =>
          { bo with range_list := bo.range_list.erase prange }) (some b))
      else if e.evicting then (false, svmRangeBoUnref m (some b))
      else (true, m.setRange prange fun r => { r with ttm_res := some (e.resource b) })

/-- `svm_range_vram_node_new`. -/
def svmRangeVramNodeNew (e : VramEnv) (prange : ℕ) (m : Mem) : Option Errno × Mem :=
  match svmRangeValidateSvmBo e prange m with
  | (true, m) => (none, m)
  | (false, m) =>
    match e.newBo with
    | .noMemory r => (some r, m)
    | .noObject r => (some r, m.setRange prange fun r => { r with ttm_res := none })
    | .made b =>
      (none, (m.setBo b fun _ => { kref := 1, range_list := [prange] }).setRange prange fun r =>
        { r with svm_bo := some b, ttm_res := some (e.resource b), offset := 0 })

/-- What a process does to its ranges; the moves are the parts of `svm_migrate_ram_to_vram` and
`svm_migrate_vram_to_ram` that concern the buffers. -/
inductive Op where
  /-- A request of `SET_ATTR`; `allocs` is what its allocations answer. -/
  | setAttr (allocs : List Bool) (mm : List Vma) (start size : ℕ) (attrs : List SvmAttribute)
  | vramNodeNew (prange : ℕ) (e : VramEnv)
  /-- `svm_migrate_get_vram_page`: a page of the range is on the device. -/
  | getVramPage (prange : ℕ)
  /-- `svm_migrate_page_free`: a page of the buffer is gone. -/
  | freeVramPage (b : ℕ)
  /-- `prange->actual_loc = best_loc` -/
  | setLoc (prange : ℕ) (best_loc : BitVec 32)
  /-- The pages are in system memory: `svm_range_vram_node_free`. -/
  | leaveVram (prange : ℕ)

/-- The registered ranges, and the number of device pages in each buffer. -/
structure State where
  svms : Svms
  pages : ℕ → ℕ

namespace State

/-- One step and what it returns. -/
def step (p : OpuProcess) (s : State) : Op → Option Errno × State
  | .setAttr allocs mm start size attrs =>
    let (r, svms) := svmRangeSetAttr p mm { s.svms with mem := { s.svms.mem with allocs } }
      start size attrs
    (r, { s with svms })
  | .vramNodeNew prange e =>
    let (r, mem) := svmRangeVramNodeNew e prange s.svms.mem
    (r, { s with svms := { s.svms with mem } })
  | .getVramPage prange =>
    match (s.svms.mem.ranges prange).svm_bo with
    | none => (none, s)
    | some b =>
      (none, {
        svms := { s.svms with mem := s.svms.mem.setBo b fun bo => { bo with kref := bo.kref + 1 } }
        pages := Function.update s.pages b (s.pages b + 1) })
  | .freeVramPage b =>
    (none, {
      svms := { s.svms with mem := svmRangeBoUnref s.svms.mem (some b) }
      pages := Function.update s.pages b (s.pages b - 1) })
  | .setLoc prange best_loc =>
    (none, { s with svms := { s.svms with
      mem := s.svms.mem.setRange prange fun r => { r with actual_loc := best_loc } } })
  | .leaveVram prange =>
    (none, { s with svms := { s.svms with
      mem := (svmRangeVramNodeFree s.svms.mem prange).setRange prange fun r =>
        { r with actual_loc := 0 } } })

/-- What the callers see to: `opu_ioctl_svm` refuses an address or a size of 0, ranges that move
are registered ones, the memory of a new buffer is of none that is in use, and a page that goes
away was there. -/
def Valid (s : State) : Op → Prop
  | .setAttr _ _ start size _ => 0 < start ∧ 0 < size
  | .vramNodeNew prange e =>
    prange ∈ s.svms.list ∧ ∀ b, e.newBo = .made b → (s.svms.mem.bos b).kref = 0
  | .getVramPage prange => prange ∈ s.svms.list
  | .freeVramPage b => 0 < s.pages b
  | .setLoc prange _ => prange ∈ s.svms.list
  | .leaveVram prange => prange ∈ s.svms.list

/-- **The condition**: no allocation of a request is the first to fail that `plan` says `true` of,
and a range that leaves VRAM has the last reference of its buffer. -/
def StepOk (s : State) : Op → Prop
  | .setAttr allocs _ start size _ =>
    let m : Mem := { s.svms.mem with allocs }
    Spared (plan m (start + size - 1) start start s.svms.objects false) m.answer
  | .leaveVram prange =>
    ∀ b, (s.svms.mem.ranges prange).svm_bo = some b → (s.svms.mem.bos b).kref = 1
  | _ => True

/-- The steps of a process. -/
def Step (p : OpuProcess) (s : State) (op : Op) (t : State) : Prop :=
  s.Valid op ∧ t = (s.step p op).2

variable {p : OpuProcess} {s t : State} {ops : List Op}

/-! ### The steps keep the account -/

/-- The registered ranges of a state are sound, its pages counted. -/
def Sound (s : State) : Prop := s.svms.Sound s.pages

theorem Sound.live_of_mem {k : ℕ} (hs : s.Sound) (hk : k ∈ s.svms.list) : s.svms.mem.Live k := by
  obtain ⟨n, hn, rfl⟩ := List.mem_map.1 (hs.registered.list.mem_iff.1 hk)
  exact hs.live n hn

/-- A step that changes what backs ranges and where they are. -/
theorem Sound.of_mem {m : Mem} {pages : ℕ → ℕ} (hs : s.Sound) (hnext : m.next = s.svms.mem.next)
    (hfreed : m.freed = s.svms.mem.freed)
    (hranges : ∀ k, (m.ranges k).seg = (s.svms.mem.ranges k).seg ∧
      (m.ranges k).links = (s.svms.mem.ranges k).links) (hacc : Accounted pages m) :
    Sound { svms := { s.svms with mem := m }, pages } :=
  Svms.Sound.of_mem hs (Nat.le_of_eq hnext.symm) (fun k _ => by rw [hfreed])
    (fun k _ => hranges k) hacc

/-- **`svm_range_vram_node_new`** for a registered range. -/
theorem Sound.vramNodeNew {k : ℕ} {e : VramEnv} (hs : s.Sound) (hk : k ∈ s.svms.list)
    (hnew : ∀ b, e.newBo = .made b → (s.svms.mem.bos b).kref = 0) :
    Sound { s with svms := { s.svms with mem := (svmRangeVramNodeNew e k s.svms.mem).2 } } := by
  have hlive := hs.live_of_mem hk
  have hacc : Accounted s.pages s.svms.mem := hs.accounted
  have hheld := hacc.held k hlive
  unfold svmRangeVramNodeNew svmRangeValidateSvmBo
  cases hb : (s.svms.mem.ranges k).svm_bo with
  | some b =>
    dsimp only
    rw [if_pos (by rw [hheld, hb]; rfl)]
    exact hs
  | none =>
    rw [hb] at hheld
    have hres : (s.svms.mem.ranges k).ttm_res = none := by
      exact Option.isSome_eq_false_iff.1 hheld |> Option.isNone_iff_eq_none.1
    dsimp only
    cases he : e.newBo with
    | noMemory r => exact hs
    | noObject r =>
      refine hs.of_mem rfl rfl (fun j => ?_) (hacc.frame ⟨rfl, rfl, rfl, fun j => ?_⟩)
      all_goals
        by_cases hj : j = k
        · rw [hj, Mem.setRange_self]
          first
          | exact ⟨rfl, rfl⟩
          | exact ⟨rfl, hres.symm⟩
        · rw [Mem.setRange_of_ne _ _ hj]
          exact ⟨rfl, rfl⟩
    | made b =>
      have h₀ := hnew b he
      have hkref := hacc.kref b
      have hlist : (s.svms.mem.bos b).range_list = [] :=
        List.length_eq_zero_iff.1 (by omega)
      refine hs.of_mem rfl rfl (fun j => ?_) (hacc.joined (b := b) hlive hb
        ⟨?_, rfl, rfl, ?_, ?_, fun j hj => ?_⟩)
      · by_cases hj : j = k
        · rw [hj, Mem.setRange_self]
          exact ⟨rfl, rfl⟩
        · rw [Mem.setRange_of_ne _ _ hj]
          exact ⟨rfl, rfl⟩
      · show Function.update s.svms.mem.bos b { kref := 1, range_list := [k] } = _
        rw [h₀, hlist]
      · rw [Mem.setRange_self]
      · rw [Mem.setRange_self]
        rfl
      · rw [Mem.setRange_of_ne _ _ hj]
        exact ⟨rfl, rfl⟩

/-- **Every step keeps the account.** -/
theorem Sound.step {op : Op} (hs : s.Sound) (hok : s.StepOk op) (h : Step p s op t) :
    t.Sound := by
  obtain ⟨hv, rfl⟩ := h
  have hacc : Accounted s.pages s.svms.mem := hs.accounted
  cases op with
  | setAttr allocs mm start size attrs =>
    have hs' : Svms.Sound s.pages { s.svms with mem := { s.svms.mem with allocs } } :=
      @Sound.of_mem s { s.svms.mem with allocs } _ hs rfl rfl (fun _ => ⟨rfl, rfl⟩)
        (hacc.frame ⟨rfl, rfl, rfl, fun _ => ⟨rfl, rfl⟩⟩)
    exact (hs'.setAttr hv.1 hv.2 hok rfl).1
  | vramNodeNew k e => exact hs.vramNodeNew hv.1 hv.2
  | getVramPage k =>
    dsimp only [State.step]
    cases hb : (s.svms.mem.ranges k).svm_bo with
    | none => exact hs
    | some b =>
      refine hs.of_mem rfl rfl (fun _ => ⟨rfl, rfl⟩) (hacc.recount (b := b) ?_ fun b' hb' => ?_)
      · rw [Function.update_self, hacc.kref]
        omega
      · rw [Function.update_of_ne hb']
  | freeVramPage b =>
    have hv : 0 < s.pages b := hv
    have hkref := hacc.kref b
    dsimp only [State.step]
    rw [svmRangeBoUnref_eq fun hle => List.length_eq_zero_iff.1 (by omega)]
    refine hs.of_mem rfl rfl (fun _ => ⟨rfl, rfl⟩) (hacc.recount (b := b) ?_ fun b' hb' => ?_)
    · rw [Function.update_self, hkref]
      omega
    · rw [Function.update_of_ne hb']
  | setLoc k loc =>
    refine hs.of_mem rfl rfl (fun j => ?_) (hacc.frame (.setRange _ k fun _ => ⟨rfl, rfl⟩))
    by_cases hj : j = k
    · rw [hj, Mem.setRange_self]
      exact ⟨rfl, rfl⟩
    · rw [Mem.setRange_of_ne _ _ hj]
      exact ⟨rfl, rfl⟩
  | leaveVram k =>
    obtain ⟨hacc', hnext, hfreed, hsame⟩ := hacc.vramNodeFree (hs.live_of_mem hv) hok
    refine hs.of_mem hnext hfreed (fun j => ?_) (hacc'.frame (.setRange _ k fun _ => ⟨rfl, rfl⟩))
    obtain ⟨d, t, o, b, hj⟩ := hsame j
    by_cases hjk : j = k
    · subst hjk
      rw [Mem.setRange_self, hj]
      exact ⟨rfl, rfl⟩
    · rw [Mem.setRange_of_ne _ _ hjk, hj]
      exact ⟨rfl, rfl⟩

/-! ### Runs -/

/-- **The buffers of a run.**  In every state a run reaches whose steps meet the condition, the list
of a buffer has the ranges that exist and have it, each once, and its references are theirs and
those of its pages.  A request that fails then leaves everything. -/
theorem buffers_of_run (hs : s.Sound) (h : Run (Guarded StepOk (Step p)) s ops t) :
    (∀ b, (t.svms.mem.bos b).range_list.Perm (t.svms.mem.holders b) ∧
      (t.svms.mem.bos b).kref = (t.svms.mem.holders b).length + t.pages b) ∧
    ∀ allocs mm start size attrs, t.Valid (.setAttr allocs mm start size attrs) →
      t.StepOk (.setAttr allocs mm start size attrs) →
      (t.step p (.setAttr allocs mm start size attrs)).1 ≠ none →
      t.svms.Restored (t.step p (.setAttr allocs mm start size attrs)).2.svms := by
  have ht : t.Sound := h.inv (fun _ _ _ hi hstep => hi.step hstep.1 hstep.2) hs
  have hacc : Accounted t.pages t.svms.mem := ht.accounted
  refine ⟨fun b => ?_, fun allocs mm start size attrs hv hok hfails => ?_⟩
  · have hperm := hacc.perm_holders b
    exact ⟨hperm, by rw [hacc.kref, hperm.length_eq]⟩
  · have hs' : Svms.Sound t.pages { t.svms with mem := { t.svms.mem with allocs } } :=
      @Sound.of_mem t { t.svms.mem with allocs } _ ht rfl rfl (fun _ => ⟨rfl, rfl⟩)
        (hacc.frame ⟨rfl, rfl, rfl, fun _ => ⟨rfl, rfl⟩⟩)
    obtain ⟨hsame, h₁, h₂, h₃, h₄⟩ := (hs'.setAttr hv.1 hv.2 hok rfl).2 hfails
    exact ⟨hsame, h₁, h₂, h₃, h₄⟩

/-- One registered range, the pages 1 to 4, which are in a buffer of GPU 1. -/
def inVram : State where
  svms :=
    { mem :=
        { ranges := fun _ =>
            { defaultAttrs twoGpus with
              start := 1, last := 4, npages := 4, it_start := 1, it_last := 4
              actual_loc := 1, ttm_res := some 0, svm_bo := some 0 }
          bos := Function.update (fun _ => {}) 0 { kref := 1, range_list := [0] }
          next := 1 }
      list := [0]
      objects := [⟨1, 4, 0⟩] }
  pages _ := 0

theorem sound_inVram : inVram.Sound where
  registered := by
    refine ⟨⟨fun n hn => ?_, ?_, List.nodup_singleton _⟩, fun n hn => ?_, .refl _⟩
    · obtain rfl := List.mem_singleton.1 hn
      exact ⟨Nat.zero_lt_one, rfl⟩
    · exact ascending_cons.2 ⟨by show 1 ≤ 4; omega, by simp, .nil⟩
    · obtain rfl := List.mem_singleton.1 hn
      exact ⟨rfl, rfl⟩
  start_ne n hn := by
    obtain rfl := List.mem_singleton.1 hn
    decide
  live n hn := by
    obtain rfl := List.mem_singleton.1 hn
    decide
  accounted := by
    have hbos (b : ℕ) : inVram.svms.mem.bos b =
        if b = 0 then { kref := 1, range_list := [0] } else {} := by
      show Function.update (fun _ : ℕ => ({} : SvmBo)) 0 { kref := 1, range_list := [0] } b = _
      rw [Function.update_apply]
    refine ⟨fun b => ?_, fun b k => ?_, fun b => ?_, fun _ _ => rfl, fun k hk => (nomatch hk)⟩
    · rw [hbos]
      split_ifs <;> simp
    · rw [hbos]
      have hlive : inVram.svms.mem.Live k ↔ k = 0 := by
        simp [Mem.Live, inVram]
      have hbo : (inVram.svms.mem.ranges k).svm_bo = some 0 := rfl
      rw [hlive, hbo]
      split_ifs with hb
      · simp [hb]
      · simp [Ne.symm hb]
    · rw [hbos]
      split_ifs <;> rfl

/-- A page of the range is on the device, and a request for a part of the range and two pages
behind it is carried through. -/
theorem buffers_of_run_split : ∃ t, t = (inVram.step twoGpus (.getVramPage 0)).2.step twoGpus
      (.setAttr [] userMm 3 4 [⟨.prefetchLoc, 0⟩]) ∧
    ∀ b, (t.2.svms.mem.bos b).range_list.Perm (t.2.svms.mem.holders b) ∧
      (t.2.svms.mem.bos b).kref = (t.2.svms.mem.holders b).length + t.2.pages b := by
  have hrun : Run (Guarded StepOk (Step twoGpus)) inVram
      [.getVramPage 0, .setAttr [] userMm 3 4 [⟨.prefetchLoc, 0⟩]] _ :=
    .cons ⟨trivial, List.mem_singleton.2 rfl, rfl⟩
      (.cons ⟨by show Spared _ _; decide +kernel, ⟨by decide, by decide⟩, rfl⟩ (.nil _))
  exact ⟨_, rfl, (buffers_of_run sound_inVram hrun).1⟩

/-- **A freed range stays on the list.**  The request needs three ranges, and there is memory for
the clone only: the clone is freed while it is on the list of the buffer. -/
theorem freed_clone_is_listed : ∃ p s allocs mm start size attrs, State.Sound s ∧
    (∀ b, s.pages b = 0) ∧ s.Valid (.setAttr allocs mm start size attrs) ∧
    (s.step p (.setAttr allocs mm start size attrs)).1 = some .enomem ∧
    ∃ b k, k ∈ ((s.step p (.setAttr allocs mm start size attrs)).2.svms.mem.bos b).range_list ∧
      k ∈ (s.step p (.setAttr allocs mm start size attrs)).2.svms.mem.freed := by
  refine ⟨twoGpus, inVram, [true, false], userMm, 3, 4, [⟨.prefetchLoc, 0⟩], sound_inVram,
    fun _ => rfl, ⟨by decide, by decide⟩, ?_⟩
  dsimp only [State.step]
  unfold svmRangeSetAttr
  rw [svmRangeIsValid_userMm (by decide) (by decide) (by decide)]
  exact ⟨by decide +kernel, 0, 1, by decide +kernel, by decide +kernel⟩

end State

end Codrive.Svm
