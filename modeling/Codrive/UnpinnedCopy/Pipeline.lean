/-
# A copy through staging buffers

What holds of the device while chunks are on their way through the staging buffers: the chunks up to
some place have been given to the buffers and those up to an earlier one have been taken from them,
a running copy fills a buffer or drains it, and what it has moved is right (`Transfer.Pipe`).  The
steps of the device keep it (`Transfer.Pipe.step`), as does the next chunk that a buffer is filled
with or drained of, by the host or by the device.
-/

import Codrive.UnpinnedCopy.Engine
import Mathlib.Tactic.Tauto

namespace Codrive.UnpinnedCopy

open Codrive.Basis

/-- What is copied, and through what. -/
structure Transfer where
  path : Path
  size : ℕ
  bufferSize : ℕ
  buffers : ℕ
  mem : Buffer → ℕ → UInt8
  bufferSize_pos : 0 < bufferSize
  buffers_pos : 0 < buffers

namespace Transfer

variable {j : Transfer} {F D : ℕ} {d d' : CopyDevice Buffer Signal} {c : AsyncCopy Buffer Signal}

/-- The length of the chunk at a place. -/
def len (j : Transfer) (o : ℕ) : ℕ := min j.bufferSize (j.size - o)

/-- The buffer of the chunk at a place. -/
def buf (j : Transfer) (o : ℕ) : ℕ := o / j.bufferSize % j.buffers

theorem buf_lt (j : Transfer) (o : ℕ) : j.buf o < j.buffers := Nat.mod_lt _ j.buffers_pos

theorem len_pos {o : ℕ} (h : o < j.size) : 0 < j.len o := by
  have := j.bufferSize_pos
  rw [len]
  omega

theorem len_le (j : Transfer) (o : ℕ) : j.len o ≤ j.bufferSize := Nat.min_le_left _ _

theorem add_len_le {o : ℕ} (h : o ≤ j.size) : o + j.len o ≤ j.size := by
  rw [len]
  omega

/-- The chunk behind a chunk. -/
theorem dvd_next {o : ℕ} (h : j.bufferSize ∣ o) (hlt : o + j.len o < j.size) :
    o + j.len o = o + j.bufferSize ∧ j.bufferSize ∣ o + j.len o := by
  have heq : o + j.len o = o + j.bufferSize := by
    rw [len] at hlt ⊢
    omega
  exact ⟨heq, heq ▸ Nat.dvd_add h (Nat.dvd_refl _)⟩

/-- Chunks do not overlap. -/
theorem add_len_le_of_lt {o o' : ℕ} (h : j.bufferSize ∣ o) (h' : o' < j.size → j.bufferSize ∣ o')
    (hlt : o < o') (hle : o' ≤ j.size) : o + j.len o ≤ o' := by
  rcases Nat.lt_or_ge o' j.size with hs | hs
  · have := Nat.le_of_dvd (by omega) (Nat.dvd_sub (h' hs) h)
    have := j.len_le o
    omega
  · have := add_len_le (j := j) (o := o) (by omega)
    omega

/-- The chunk at a place is the only one that starts in it. -/
theorem eq_of_lt_add_len {o o' : ℕ} (h : j.bufferSize ∣ o) (h' : j.bufferSize ∣ o') (hle : o ≤ o')
    (hlt : o' < o + j.len o) : o' = o := by
  have hsub := Nat.dvd_sub h' h
  have := j.len_le o
  have := Nat.eq_zero_of_dvd_of_lt hsub (by omega)
  omega

theorem drainSignal_inj {path : Path} {k k' : ℕ} (h : drainSignal path k = drainSignal path k') :
    k = k' := by
  cases path with
  | hostToDevice => exact Signal.completion.inj h
  | deviceToHost => exact Signal.completion2.inj h
  | peerToPeer => exact Signal.completion2.inj h

/-! ### The running copies -/

/-- The copy that fills a buffer. -/
def fillCopy (j : Transfer) (o : ℕ) (todo : Finset ℕ) : AsyncCopy Buffer Signal :=
  ⟨(.staging (j.buf o), 0), (.src, o), j.len o, none, .completion (j.buf o), todo⟩

/-- The copy that drains a buffer. -/
def drainCopy (j : Transfer) (o : ℕ) (dep : Option Signal) (todo : Finset ℕ) :
    AsyncCopy Buffer Signal :=
  ⟨(.dst, o), (.staging (j.buf o), 0), j.len o, dep, drainSignal j.path (j.buf o), todo⟩

/-- The signals that running copies complete. -/
def completions (d : CopyDevice Buffer Signal) : List Signal :=
  d.running.map AsyncCopy.completion

/-- The device fills a buffer. -/
def Filling (j : Transfer) (d : CopyDevice Buffer Signal) (k : ℕ) : Prop :=
  j.path ≠ .hostToDevice ∧ .completion k ∈ completions d

/-- A signal that the path uses. -/
def Uses (j : Transfer) : Signal → Prop
  | .completion k => k < j.buffers
  | .completion2 k => k < j.buffers ∧ j.path = .peerToPeer

/-- A running copy fills a buffer with its chunk, or drains it. -/
inductive Valid (j : Transfer) (D : ℕ) (d : CopyDevice Buffer Signal)
    (c : AsyncCopy Buffer Signal) : Prop
  | fill (o : ℕ) (todo : Finset ℕ) (heq : c = j.fillCopy o todo) (hpath : j.path ≠ .hostToDevice)
      (hheld : d.held (.staging (j.buf o)) = some o) (htodo : todo ⊆ Finset.range (j.len o))
      (hmoved : ∀ i < j.len o, i ∉ todo →
        d.mem (.staging (j.buf o)) i = j.mem .src (o + i))
  | drain (o : ℕ) (dep : Option Signal) (todo : Finset ℕ) (heq : c = j.drainCopy o dep todo)
      (hpath : j.path ≠ .deviceToHost) (hlt : o < D)
      (hheld : d.held (.staging (j.buf o)) = some o) (htodo : todo ⊆ Finset.range (j.len o))
      (hdep : dep = none ∧ ¬j.Filling d (j.buf o) ∨
        j.path = .peerToPeer ∧ dep = some (.completion (j.buf o)) ∧
          todo = Finset.range (j.len o))

/-- **The chunks on their way**: the buffers have been given those up to `F`, and those up to `D`
have been taken from them. -/
structure Pipe (j : Transfer) (F D : ℕ) (d : CopyDevice Buffer Signal) : Prop where
  le : D ≤ F
  le_size : F ≤ j.size
  dvd_filled : F < j.size → j.bufferSize ∣ F
  dvd_drained : D < j.size → j.bufferSize ∣ D
  src : d.mem .src = j.mem .src
  ahead : ∀ x, D ≤ x → d.mem .dst x = j.mem .dst x
  copied : ∀ x, x < D → (∀ c ∈ d.running, c.dst.1 = .dst → ∀ i ∈ c.todo, c.dst.2 + i ≠ x) →
    d.mem .dst x = j.mem .src x
  held : ∀ k o, d.held (.staging k) = some o → j.bufferSize ∣ o ∧ o < F ∧ j.buf o = k
  loaded : ∀ o, j.bufferSize ∣ o → D ≤ o → o < F → d.held (.staging (j.buf o)) = some o
  valid : ∀ c ∈ d.running, j.Valid D d c
  nodup : (completions d).Nodup
  signals : ∀ κ, j.Uses κ → d.signal κ = if κ ∈ completions d then 1 else 0
  content : ∀ k o, d.held (.staging k) = some o → ¬j.Filling d k → ∀ i < j.len o,
    d.mem (.staging k) i = j.mem .src (o + i)
  owed : ∀ k o, d.held (.staging k) = some o → o < D → drainSignal j.path k ∈ completions d
  extent_src : d.extent .src ≤ j.size
  extent_dst : d.extent .dst ≤ j.size
  extent_staging : ∀ k, d.extent (.staging k) ≤ j.bufferSize

/-- A running copy stays valid, where its buffer is as it was. -/
theorem Valid.mono (h : j.Valid D d c) {D' : ℕ} (hD : D ≤ D')
    (hheld : ∀ k, c.dst.1 = .staging k ∨ c.src.1 = .staging k →
      d'.held (.staging k) = d.held (.staging k))
    (hmem : ∀ k, c.dst.1 = .staging k → d'.mem (.staging k) = d.mem (.staging k))
    (hfilling : ∀ k, c.src.1 = .staging k → j.Filling d' k → j.Filling d k) :
    j.Valid D' d' c := by
  cases h with
  | fill o todo heq hpath hh htodo hmoved =>
    subst heq
    refine .fill o todo rfl hpath ((hheld _ (.inl rfl)).trans hh) htodo fun i hi hn => ?_
    rw [hmem _ rfl]
    exact hmoved i hi hn
  | drain o dep todo heq hpath hlt hh htodo hdep =>
    subst heq
    refine .drain o dep todo rfl hpath (Nat.lt_of_lt_of_le hlt hD) ((hheld _ (.inr rfl)).trans hh)
      htodo ?_
    obtain ⟨hnone, hfill⟩ | hsome := hdep
    · exact .inl ⟨hnone, fun h => hfill (hfilling _ rfl h)⟩
    · exact .inr hsome

/-- A running copy holds a buffer. -/
theorem Valid.held_of_concerns (h : j.Valid D d c) {k : ℕ}
    (hk : c.dst.1 = .staging k ∨ c.src.1 = .staging k) :
    ∃ o, j.buf o = k ∧ d.held (.staging k) = some o := by
  cases h with
  | fill o todo heq hpath hh htodo hmoved =>
    subst heq
    obtain hk | hk := hk
    · obtain rfl : j.buf o = k := Buffer.staging.inj hk
      exact ⟨o, rfl, hh⟩
    · cases hk
  | drain o dep todo heq hpath hlt hh htodo hdep =>
    subst heq
    obtain hk | hk := hk
    · cases hk
    · obtain rfl : j.buf o = k := Buffer.staging.inj hk
      exact ⟨o, rfl, hh⟩

/-- A running copy completes the signal of a buffer that it holds. -/
theorem Valid.exists_completion (h : j.Valid D d c) : ∃ o, d.held (.staging (j.buf o)) = some o ∧
    (c.completion = .completion (j.buf o) ∧ j.path ≠ .hostToDevice ∧ c.src.1 = .src ∨
      c.completion = drainSignal j.path (j.buf o) ∧ j.path ≠ .deviceToHost ∧ o < D ∧
        c.src.1 = .staging (j.buf o)) := by
  cases h with
  | fill o todo heq hpath hh htodo hmoved => exact ⟨o, hh, .inl ⟨heq ▸ rfl, hpath, heq ▸ rfl⟩⟩
  | drain o dep todo heq hpath hlt hh htodo hdep =>
    exact ⟨o, hh, .inr ⟨heq ▸ rfl, hpath, hlt, heq ▸ rfl⟩⟩

/-! ### The steps of the device -/

section Device

variable {front back : List (AsyncCopy Buffer Signal)}

/-- The other running copies complete other signals. -/
theorem Pipe.ne_completion (h : j.Pipe F D d) (hrunning : d.running = front ++ c :: back)
    {c' : AsyncCopy Buffer Signal} (hc' : c' ∈ front ++ back) : c'.completion ≠ c.completion := by
  have hnodup := h.nodup
  rw [completions, hrunning, List.map_append, List.map_cons, List.nodup_middle,
    List.nodup_cons, ← List.map_append] at hnodup
  exact fun heq => hnodup.1 (heq ▸ List.mem_map_of_mem hc')

theorem mem_running (hrunning : d.running = front ++ c :: back) {c' : AsyncCopy Buffer Signal} :
    c' ∈ d.running ↔ c' = c ∨ c' ∈ front ++ back := by
  rw [hrunning, List.mem_append, List.mem_cons, List.mem_append]
  tauto

/-- **A copy starts**: the buffer that it drains has been filled. -/
theorem Pipe.start (h : j.Pipe F D d) (hrunning : d.running = front ++ c :: back) {κ : Signal}
    (hdep : c.dep = some κ) (hzero : d.signal κ = 0) :
    j.Pipe F D { d with running := front ++ { c with dep := none } :: back } := by
  set d' := { d with running := front ++ { c with dep := none } :: back } with hd'
  have hmem : ∀ {c'}, c' ∈ d'.running ↔ c' = { c with dep := none } ∨ c' ∈ front ++ back :=
    mem_running rfl
  have hcompletions : completions d' = completions d := by simp [completions, hrunning, hd']
  have hfilling : ∀ k, j.Filling d' k ↔ j.Filling d k := fun k => by
    rw [Filling, Filling, hcompletions]
  refine { h with
    copied := fun x hx hall => h.copied x hx fun c' hc' => ?_
    valid := fun c' hc' => ?_
    nodup := hcompletions ▸ h.nodup
    signals := hcompletions ▸ h.signals
    content := fun k o hh hn => h.content k o hh fun hf => hn ((hfilling k).2 hf)
    owed := hcompletions ▸ h.owed }
  · obtain heq | hc' := (mem_running hrunning).1 hc'
    · rw [heq]
      exact hall { c with dep := none } (hmem.2 (.inl rfl))
    · exact hall _ (hmem.2 (.inr hc'))
  · obtain rfl | hc' := hmem.1 hc'
    · cases h.valid c ((mem_running hrunning).2 (.inl rfl)) with
      | fill o todo heq => cases heq ▸ hdep
      | drain o dep todo heq hpath hlt hh htodo hdep' =>
        subst heq
        refine .drain o none todo rfl hpath hlt hh htodo (.inl ⟨rfl, fun hf => ?_⟩)
        obtain ⟨rfl, -⟩ | ⟨-, rfl, -⟩ := hdep'
        · cases hdep
        · obtain rfl := Option.some.inj hdep
          have hone := h.signals (.completion (j.buf o)) (j.buf_lt o)
          rw [if_pos ((hfilling _).1 hf).2, hzero] at hone
          exact absurd hone (by decide)
    · exact (h.valid c' ((mem_running hrunning).2 (.inr hc'))).mono (Nat.le_refl D)
        (fun _ _ => rfl) (fun _ _ => rfl) fun k _ => (hfilling k).1

/-- **A copy moves a byte**, the right one. -/
theorem Pipe.move (h : j.Pipe F D d) (hrunning : d.running = front ++ c :: back) {i : ℕ}
    (hdep : c.dep = none) (hi : i ∈ c.todo) :
    j.Pipe F D { d with
      mem := Function.update d.mem c.dst.1
        (Function.update (d.mem c.dst.1) (c.dst.2 + i) (d.mem c.src.1 (c.src.2 + i)))
      running := front ++ { c with todo := c.todo.erase i } :: back } := by
  set d' : CopyDevice Buffer Signal := { d with
    mem := Function.update d.mem c.dst.1
      (Function.update (d.mem c.dst.1) (c.dst.2 + i) (d.mem c.src.1 (c.src.2 + i)))
    running := front ++ { c with todo := c.todo.erase i } :: back } with hd'
  have hmem : ∀ {c'}, c' ∈ d'.running ↔
      c' = { c with todo := c.todo.erase i } ∨ c' ∈ front ++ back := mem_running rfl
  have hcompletions : completions d' = completions d := by simp [completions, hrunning, hd']
  have hfilling : ∀ k, j.Filling d' k ↔ j.Filling d k := fun k => by
    rw [Filling, Filling, hcompletions]
  have hin : c ∈ d.running := (mem_running hrunning).2 (.inl rfl)
  have hkeep : ∀ r, r ≠ c.dst.1 → d'.mem r = d.mem r := fun r hr => Function.update_of_ne hr _ _
  cases h.valid c hin with
  | fill o todo heq hpath hh htodo hmoved =>
    subst heq
    have hkeep : ∀ r, r ≠ .staging (j.buf o) → d'.mem r = d.mem r := hkeep
    have hk : ∀ k, k ≠ j.buf o → d'.mem (.staging k) = d.mem (.staging k) := fun k hk =>
      hkeep _ fun heq => hk (Buffer.staging.inj heq)
    have hnew : ∀ x, d'.mem (.staging (j.buf o)) x =
        if x = i then j.mem .src (o + i) else d.mem (.staging (j.buf o)) x := fun x => by
      simp only [hd', fillCopy, Function.update_self, Nat.zero_add, h.src, Function.update_apply]
    refine { h with
      src := (hkeep .src nofun).trans h.src
      ahead := fun x hx => (congrFun (hkeep .dst nofun) x).trans (h.ahead x hx)
      copied := fun x hx hall => (congrFun (hkeep .dst nofun) x).trans
        (h.copied x hx fun c' hc' hdst => ?_)
      valid := fun c' hc' => ?_
      nodup := hcompletions ▸ h.nodup
      signals := hcompletions ▸ h.signals
      content := fun k o' hh' hn => ?_
      owed := hcompletions ▸ h.owed }
    · obtain heq | hc' := (mem_running hrunning).1 hc'
      · rw [heq] at hdst
        cases hdst
      · exact hall _ (hmem.2 (.inr hc')) hdst
    · obtain rfl | hc' := hmem.1 hc'
      · refine .fill o (todo.erase i) rfl hpath hh ((Finset.erase_subset _ _).trans htodo)
          fun x hx hn => ?_
        rw [hnew]
        split
        · rename_i hxi
          rw [hxi]
        · rename_i hxi
          exact hmoved x hx fun hmem => hn (Finset.mem_erase.2 ⟨hxi, hmem⟩)
      · have hvalid := h.valid c' ((mem_running hrunning).2 (.inr hc'))
        refine hvalid.mono (Nat.le_refl D) (fun _ _ => rfl) (fun k hdst => hk k ?_)
          fun k _ => (hfilling k).1
        rintro rfl
        refine h.ne_completion hrunning hc' ?_
        cases hvalid with
        | fill o' todo' heq' =>
          subst heq'
          exact congrArg Signal.completion (Buffer.staging.inj hdst)
        | drain o' dep' todo' heq' =>
          subst heq'
          cases hdst
    · have hne : k ≠ j.buf o := by
        rintro rfl
        exact hn ((hfilling _).2 ⟨hpath, List.mem_map_of_mem hin⟩)
      rw [hk k hne]
      exact h.content k o' hh' fun hf => hn ((hfilling k).2 hf)
  | drain o dep todo heq hpath hlt hh htodo hdep' =>
    subst heq
    obtain rfl : dep = none := hdep
    have hfill : ¬j.Filling d (j.buf o) := by
      obtain ⟨-, hfill⟩ | ⟨-, hsome, -⟩ := hdep'
      · exact hfill
      · cases hsome
    have hi' : i < j.len o := Finset.mem_range.1 (htodo hi)
    have hend : o + j.len o ≤ D :=
      add_len_le_of_lt (h.held _ _ hh).1 h.dvd_drained hlt (h.le.trans h.le_size)
    have hkeep : ∀ r, r ≠ .dst → d'.mem r = d.mem r := hkeep
    have hk : ∀ k, d'.mem (.staging k) = d.mem (.staging k) := fun k => hkeep _ nofun
    have hnew : ∀ x, d'.mem .dst x = if x = o + i then j.mem .src (o + i) else d.mem .dst x :=
      fun x => by
        simp only [hd', drainCopy, Function.update_self, Nat.zero_add, Function.update_apply,
          h.content _ o hh hfill i hi']
    refine { h with
      src := (hkeep .src nofun).trans h.src
      ahead := fun x hx => ?_
      copied := fun x hx hall => ?_
      valid := fun c' hc' => ?_
      nodup := hcompletions ▸ h.nodup
      signals := hcompletions ▸ h.signals
      content := fun k o' hh' hn => (hk k).symm ▸
        h.content k o' hh' fun hf => hn ((hfilling k).2 hf)
      owed := hcompletions ▸ h.owed }
    · rw [hnew, if_neg (by omega)]
      exact h.ahead x hx
    · rw [hnew]
      split
      · rename_i hxi
        rw [hxi]
      · rename_i hxi
        refine h.copied x hx fun c' hc' hdst => ?_
        obtain heq | hc' := (mem_running hrunning).1 hc'
        · subst heq
          intro i' hi' heq
          refine hall _ (hmem.2 (.inl rfl)) rfl i' (Finset.mem_erase.2 ⟨?_, hi'⟩) heq
          rintro rfl
          exact hxi heq.symm
        · exact hall _ (hmem.2 (.inr hc')) hdst
    · obtain rfl | hc' := hmem.1 hc'
      · exact .drain o none (todo.erase i) rfl hpath hlt hh
          ((Finset.erase_subset _ _).trans htodo) (.inl ⟨rfl, fun hf => hfill ((hfilling _).1 hf)⟩)
      · exact (h.valid c' ((mem_running hrunning).2 (.inr hc'))).mono (Nat.le_refl D)
          (fun _ _ => rfl) (fun k _ => hk k) fun k _ => (hfilling k).1

/-- **A copy finishes**: a buffer has been filled, or drained. -/
theorem Pipe.finish (h : j.Pipe F D d) (hrunning : d.running = front ++ c :: back)
    (hdep : c.dep = none) (htodo : c.todo = ∅) :
    j.Pipe F D { d with
      signal := Function.update d.signal c.completion (d.signal c.completion - 1)
      running := front ++ back
      held := Function.update d.held c.src.1 none } := by
  set d' : CopyDevice Buffer Signal := { d with
    signal := Function.update d.signal c.completion (d.signal c.completion - 1)
    running := front ++ back
    held := Function.update d.held c.src.1 none } with hd'
  have hin : c ∈ d.running := (mem_running hrunning).2 (.inl rfl)
  have hcompletions : ∀ κ, κ ∈ completions d' ↔ κ ∈ completions d ∧ κ ≠ c.completion := by
    intro κ
    constructor
    · intro hκ
      obtain ⟨c', hc', rfl⟩ := List.mem_map.1 hκ
      exact ⟨List.mem_map_of_mem ((mem_running hrunning).2 (.inr hc')),
        h.ne_completion hrunning hc'⟩
    · rintro ⟨hκ, hne⟩
      obtain ⟨c', hc', rfl⟩ := List.mem_map.1 hκ
      obtain rfl | hc' := (mem_running hrunning).1 hc'
      · exact absurd rfl hne
      · exact List.mem_map_of_mem hc'
  have hnodup : (completions d').Nodup := by
    refine h.nodup.sublist ?_
    rw [completions, completions, hrunning]
    exact ((List.sublist_cons_self c back).append_left front).map _
  have hsignals : ∀ κ, j.Uses κ → d'.signal κ = if κ ∈ completions d' then 1 else 0 := by
    intro κ hκ
    have hsignal := h.signals κ hκ
    by_cases heq : κ = c.completion
    · subst heq
      have hrun : c.completion ∈ completions d := List.mem_map_of_mem hin
      rw [if_pos hrun] at hsignal
      rw [if_neg fun hmem => ((hcompletions _).1 hmem).2 rfl]
      exact (Function.update_self _ _ _).trans (by rw [hsignal, Int.sub_self])
    · refine (Function.update_of_ne heq _ _).trans (hsignal.trans ?_)
      exact if_congr ((hcompletions κ).trans (and_iff_left heq)).symm rfl rfl
  have hcopied : ∀ x, x < D →
      (∀ c ∈ d'.running, c.dst.1 = .dst → ∀ i ∈ c.todo, c.dst.2 + i ≠ x) →
        d'.mem .dst x = j.mem .src x := fun x hx hall =>
    h.copied x hx fun c' hc' hdst i hi => by
      obtain heq | hc' := (mem_running hrunning).1 hc'
      · rw [heq, htodo] at hi
        cases hi
      · exact hall c' hc' hdst i hi
  have hfilling : ∀ k, j.Filling d' k → j.Filling d k := fun k hf =>
    ⟨hf.1, ((hcompletions _).1 hf.2).1⟩
  cases h.valid c hin with
  | fill o todo heq hpath hh htodo' hmoved =>
    subst heq
    obtain rfl : todo = ∅ := htodo
    have hheld : ∀ k, d'.held (.staging k) = d.held (.staging k) := fun k =>
      Function.update_of_ne (show Buffer.staging k ≠ Buffer.src from nofun) none d.held
    refine { h with
      copied := hcopied
      held := fun k o' hh' => h.held k o' (hheld k ▸ hh')
      loaded := fun o' hdvd hle hlt => (hheld _).trans (h.loaded o' hdvd hle hlt)
      valid := fun c' hc' => (h.valid c' ((mem_running hrunning).2 (.inr hc'))).mono
        (Nat.le_refl D) (fun k _ => hheld k) (fun _ _ => rfl) fun k _ => hfilling k
      nodup := hnodup
      signals := hsignals
      content := fun k o' hh' hn => ?_
      owed := fun k o' hh' hlt => ?_ }
    · rw [hheld] at hh'
      by_cases hk : k = j.buf o
      · subst hk
        obtain rfl := Option.some.inj (hh.symm.trans hh')
        exact fun i hi => hmoved i hi (Finset.notMem_empty i)
      · refine h.content k o' hh' fun hf => hn ⟨hf.1, (hcompletions _).2 ⟨hf.2, fun heq => ?_⟩⟩
        exact hk (Signal.completion.inj heq)
    · rw [hheld] at hh'
      refine (hcompletions _).2 ⟨h.owed k o' hh' hlt, fun heq => ?_⟩
      -- in this path, what drains a buffer completes the other signal of it
      rcases hp : j.path with _ | _ | _
      · exact hpath hp
      all_goals
        rw [hp] at heq
        cases heq
  | drain o dep todo heq hpath hlt hh htodo' hdep' =>
    subst heq
    obtain rfl : dep = none := hdep
    have hfill : ¬j.Filling d (j.buf o) := by
      obtain ⟨-, hfill⟩ | ⟨-, hsome, -⟩ := hdep'
      · exact hfill
      · cases hsome
    have hgone : d'.held (.staging (j.buf o)) = none := Function.update_self _ _ _
    have hheld : ∀ k, k ≠ j.buf o → d'.held (.staging k) = d.held (.staging k) := fun k hk =>
      Function.update_of_ne (fun heq => hk (Buffer.staging.inj heq)) _ _
    have hheld' : ∀ k o', d'.held (.staging k) = some o' →
        k ≠ j.buf o ∧ d.held (.staging k) = some o' := fun k o' hh' => by
      have hk : k ≠ j.buf o := by
        rintro rfl
        rw [hgone] at hh'
        cases hh'
      exact ⟨hk, hheld k hk ▸ hh'⟩
    refine { h with
      copied := hcopied
      held := fun k o' hh' => h.held k o' (hheld' k o' hh').2
      loaded := fun o' hdvd hle hlt' => ?_
      valid := fun c' hc' => ?_
      nodup := hnodup
      signals := hsignals
      content := fun k o' hh' hn => ?_
      owed := fun k o' hh' hlt' => ?_ }
    · have hh' := h.loaded o' hdvd hle hlt'
      refine (hheld _ fun hk => ?_).trans hh'
      rw [hk, hh] at hh'
      have := Option.some.inj hh'
      omega
    · have hvalid := h.valid c' ((mem_running hrunning).2 (.inr hc'))
      refine hvalid.mono (Nat.le_refl D) (fun k hk => hheld k ?_) (fun _ _ => rfl)
        fun k _ => hfilling k
      rintro rfl
      -- no other copy has the buffer
      cases hvalid with
      | fill o' todo' heq' hpath' =>
        subst heq'
        obtain hk | hk := hk
        · have hbuf := Buffer.staging.inj hk
          refine hfill ⟨hpath', ?_⟩
          rw [← hbuf]
          exact List.mem_map_of_mem ((mem_running hrunning).2 (.inr hc'))
        · cases hk
      | drain o' dep' todo' heq' =>
        subst heq'
        obtain hk | hk := hk
        · cases hk
        · refine h.ne_completion hrunning hc' ?_
          exact congrArg (drainSignal j.path) (Buffer.staging.inj hk)
    · obtain ⟨hk, hh'⟩ := hheld' k o' hh'
      refine h.content k o' hh' fun hf => hn ⟨hf.1, (hcompletions _).2 ⟨hf.2, fun heq => ?_⟩⟩
      rcases hp : j.path with _ | _ | _
      · exact hf.1 hp
      all_goals
        rw [drainCopy, hp] at heq
        cases heq
    · obtain ⟨hk, hh'⟩ := hheld' k o' hh'
      refine (hcompletions _).2 ⟨h.owed k o' hh' hlt', fun heq => hk ?_⟩
      exact drainSignal_inj heq

/-- **The steps of the device** keep the pipeline as it should be. -/
theorem Pipe.step (h : j.Pipe F D d) (hstep : d.Step d') : j.Pipe F D d' := by
  cases hstep with
  | start hrunning hdep hzero => exact h.start hrunning hdep hzero
  | move hrunning hdep hi => exact h.move hrunning hdep hi
  | finish hrunning hdep htodo => exact h.finish hrunning hdep htodo

end Device

/-- **The device goes on** as long as a copy is running. -/
theorem Pipe.exists_step (h : j.Pipe F D d) (hne : d.running ≠ []) : ∃ d', d.Step d' := by
  refine CopyDevice.exists_step hne fun c hc κ hκ => ?_
  cases h.valid c hc with
  | fill o todo heq => cases heq ▸ hκ
  | drain o dep todo heq hpath hlt hh htodo hdep =>
    subst heq
    obtain ⟨rfl, -⟩ | ⟨hp, rfl, -⟩ := hdep
    · cases hκ
    · obtain rfl := Option.some.inj hκ
      by_cases hin : Signal.completion (j.buf o) ∈ completions d
      · obtain ⟨c', hc', heq⟩ := List.mem_map.1 hin
        refine .inr ⟨c', hc', ?_⟩
        cases h.valid c' hc' with
        | fill o' todo' heq' => exact heq' ▸ rfl
        | drain o' dep' todo' heq' =>
          rw [heq', drainCopy, hp] at heq
          cases heq
      · have hzero := h.signals (.completion (j.buf o)) (j.buf_lt o)
        rw [if_neg hin] at hzero
        exact .inl hzero

/-- A signal that is 0 again is the signal of no running copy. -/
theorem Pipe.not_mem_completions (h : j.Pipe F D d) {κ : Signal} (hκ : j.Uses κ)
    (hlt : d.signal κ < 1) : κ ∉ completions d := fun hin => by
  rw [h.signals κ hκ, if_pos hin] at hlt
  exact absurd hlt (by decide)

/-- The host waits for a running copy. -/
theorem Pipe.running_ne_nil (h : j.Pipe F D d) {κ : Signal} (hκ : j.Uses κ)
    (hge : ¬d.signal κ < 1) : d.running ≠ [] := fun hnil => by
  have hnot : κ ∉ completions d := by
    rw [completions, hnil]
    exact List.not_mem_nil
  rw [h.signals κ hκ, if_neg hnot] at hge
  exact hge (by decide)

/-! ### The next chunks -/

/-- **No chunk is on its way** at the start. -/
theorem Pipe.init (j : Transfer) {signal : Signal → ℤ} (hsignal : ∀ κ, j.Uses κ → signal κ = 0) :
    j.Pipe 0 0 (idle j.mem signal) where
  le := Nat.le_refl 0
  le_size := Nat.zero_le _
  dvd_filled _ := Nat.dvd_zero _
  dvd_drained _ := Nat.dvd_zero _
  src := rfl
  ahead _ _ := rfl
  copied _ hx := absurd hx (Nat.not_lt_zero _)
  held _ _ := nofun
  loaded _ _ _ ho := absurd ho (Nat.not_lt_zero _)
  valid _ := nofun
  nodup := List.nodup_nil
  signals κ hκ := hsignal κ hκ
  content _ _ := nofun
  owed _ _ := nofun
  extent_src := Nat.zero_le _
  extent_dst := Nat.zero_le _
  extent_staging _ := Nat.zero_le _

/-- The buffer that is about to be filled is not the buffer of a running copy. -/
theorem Pipe.ne_of_concerns (h : j.Pipe F D d) {k : ℕ} (hnone : d.held (.staging k) = none)
    (hc : c ∈ d.running) {k' : ℕ} (hk' : c.dst.1 = .staging k' ∨ c.src.1 = .staging k') :
    k' ≠ k := by
  rintro rfl
  obtain ⟨o, -, hh⟩ := (h.valid c hc).held_of_concerns hk'
  rw [hnone] at hh
  cases hh

section Extents

theorem extent_fill_src (h : j.Pipe F D d)
    (hextent : d'.extent = CopyDevice.touch (CopyDevice.touch d.extent (.src, F) (j.len F))
      (.staging (j.buf F), 0) (j.len F)) : d'.extent .src ≤ j.size :=
  hextent ▸ CopyDevice.touch_le
    (CopyDevice.touch_le h.extent_src fun _ => j.add_len_le h.le_size) nofun

theorem extent_fill_dst (h : j.Pipe F D d)
    (hextent : d'.extent = CopyDevice.touch (CopyDevice.touch d.extent (.src, F) (j.len F))
      (.staging (j.buf F), 0) (j.len F)) : d'.extent .dst ≤ j.size :=
  hextent ▸ CopyDevice.touch_le (CopyDevice.touch_le h.extent_dst nofun) nofun

theorem extent_fill_staging (h : j.Pipe F D d)
    (hextent : d'.extent = CopyDevice.touch (CopyDevice.touch d.extent (.src, F) (j.len F))
      (.staging (j.buf F), 0) (j.len F)) (k : ℕ) : d'.extent (.staging k) ≤ j.bufferSize :=
  hextent ▸ CopyDevice.touch_le (CopyDevice.touch_le (h.extent_staging k) nofun) fun _ =>
    (Nat.zero_add _).symm ▸ j.len_le F

theorem extent_drain_src (h : j.Pipe F D d)
    (hextent : d'.extent = CopyDevice.touch (CopyDevice.touch d.extent (.staging (j.buf D), 0)
      (j.len D)) (.dst, D) (j.len D)) : d'.extent .src ≤ j.size :=
  hextent ▸ CopyDevice.touch_le (CopyDevice.touch_le h.extent_src nofun) nofun

theorem extent_drain_dst (h : j.Pipe F D d)
    (hextent : d'.extent = CopyDevice.touch (CopyDevice.touch d.extent (.staging (j.buf D), 0)
      (j.len D)) (.dst, D) (j.len D)) : d'.extent .dst ≤ j.size :=
  hextent ▸ CopyDevice.touch_le (CopyDevice.touch_le h.extent_dst nofun) fun _ =>
    j.add_len_le (h.le.trans h.le_size)

theorem extent_drain_staging (h : j.Pipe F D d)
    (hextent : d'.extent = CopyDevice.touch (CopyDevice.touch d.extent (.staging (j.buf D), 0)
      (j.len D)) (.dst, D) (j.len D)) (k : ℕ) : d'.extent (.staging k) ≤ j.bufferSize :=
  hextent ▸ CopyDevice.touch_le (CopyDevice.touch_le (h.extent_staging k) fun _ =>
    (Nat.zero_add _).symm ▸ j.len_le D) nofun

end Extents

section Fill

variable (h : j.Pipe F D d) (hF : F < j.size)
  (hheld : ∀ k, d'.held (.staging k) = if k = j.buf F then some F else d.held (.staging k))
include h hF hheld

/-- After a fill a buffer still holds a chunk of its own. -/
theorem Pipe.held_fill (k o : ℕ) (hh : d'.held (.staging k) = some o) :
    j.bufferSize ∣ o ∧ o < F + j.len F ∧ j.buf o = k := by
  have hpos := j.len_pos hF
  rw [hheld] at hh
  split at hh
  · rename_i hk
    obtain rfl := Option.some.inj hh
    exact ⟨h.dvd_filled hF, by omega, hk.symm⟩
  · obtain ⟨hb, hlt, hk⟩ := h.held k o hh
    exact ⟨hb, by omega, hk⟩

/-- After a fill every chunk that is on its way, the new one included, is in its buffer. -/
theorem Pipe.loaded_fill (hnone : d.held (.staging (j.buf F)) = none) (o : ℕ)
    (hb : j.bufferSize ∣ o) (hle : D ≤ o) (hlt : o < F + j.len F) :
    d'.held (.staging (j.buf o)) = some o := by
  rw [hheld]
  rcases Nat.lt_or_ge o F with ho | ho
  · have hh := h.loaded o hb hle ho
    rw [if_neg, hh]
    intro hk
    rw [hk, hnone] at hh
    cases hh
  · obtain rfl := eq_of_lt_add_len (h.dvd_filled hF) hb ho hlt
    rw [if_pos rfl]

end Fill

/-- **The host fills a buffer** with the next chunk. -/
theorem Pipe.fill_memcpy (h : j.Pipe F D d) (hF : F < j.size)
    (hnone : d.held (.staging (j.buf F)) = none) :
    j.Pipe (F + j.len F) D (d.memcpy (.staging (j.buf F), 0) (.src, F) (j.len F)) := by
  set d' := d.memcpy (.staging (j.buf F), 0) (.src, F) (j.len F) with hd'
  have hkeep : ∀ r, r ≠ .staging (j.buf F) → d'.mem r = d.mem r := fun r hr => by
    funext x
    simp [hd', CopyDevice.memcpy, hr]
  have hnew : ∀ i < j.len F, d'.mem (.staging (j.buf F)) i = j.mem .src (F + i) := fun i hi => by
    simp [hd', CopyDevice.memcpy, hi, h.src]
  have hheld : ∀ k, d'.held (.staging k) =
      if k = j.buf F then some F else d.held (.staging k) := fun k => by
    simp [hd', CopyDevice.memcpy, Function.update_apply]
  have hother : ∀ {k}, k ≠ j.buf F → d'.held (.staging k) = d.held (.staging k) := fun hk => by
    rw [hheld, if_neg hk]
  have hextent : d'.extent = CopyDevice.touch (CopyDevice.touch d.extent (.src, F) (j.len F))
      (.staging (j.buf F), 0) (j.len F) := rfl
  have hkeep' : ∀ {k}, k ≠ j.buf F → d'.mem (.staging k) = d.mem (.staging k) := fun hk =>
    hkeep _ fun heq => hk (Buffer.staging.inj heq)
  have hpos := j.len_pos hF
  have hend := j.add_len_le h.le_size
  have hdvd := h.dvd_filled hF
  constructor
  · exact h.le.trans (Nat.le_add_right _ _)
  · exact hend
  · exact fun hlt => (dvd_next hdvd hlt).2
  · exact h.dvd_drained
  · exact (hkeep .src (by simp)).trans h.src
  · exact fun x hx => (congrFun (hkeep .dst (by simp)) x).trans (h.ahead x hx)
  · exact fun x hx hall => (congrFun (hkeep .dst (by simp)) x).trans (h.copied x hx hall)
  · exact h.held_fill hF hheld
  · exact h.loaded_fill hF hheld hnone
  · intro c hc
    exact (h.valid c hc).mono (Nat.le_refl D) (fun k hk => hother (h.ne_of_concerns hnone hc hk))
      (fun k hk => hkeep' (h.ne_of_concerns hnone hc (.inl hk))) fun k _ hf => hf
  · exact h.nodup
  · exact h.signals
  · intro k o hh hn i hi
    rw [hheld] at hh
    split at hh
    · rename_i hk
      subst hk
      obtain rfl := Option.some.inj hh
      exact hnew i hi
    · rename_i hk
      rw [hkeep' hk]
      exact h.content k o hh hn i hi
  · intro k o hh hlt
    rw [hheld] at hh
    split at hh
    · obtain rfl := Option.some.inj hh
      exact absurd h.le (Nat.not_le.2 hlt)
    · exact h.owed k o hh hlt
  · exact extent_fill_src h hextent
  · exact extent_fill_dst h hextent
  · exact extent_fill_staging h hextent

/-- **The device is to fill a buffer** with the next chunk. -/
theorem Pipe.fill_async (h : j.Pipe F D d) (hpath : j.path ≠ .hostToDevice) (hF : F < j.size)
    (hnone : d.held (.staging (j.buf F)) = none)
    (hgiven : d.Given (j.fillCopy F (Finset.range (j.len F))) d') : j.Pipe (F + j.len F) D d' := by
  have hpos := j.len_pos hF
  have hend := j.add_len_le h.le_size
  have hdvd := h.dvd_filled hF
  have hmem : ∀ c, c ∈ d'.running ↔ c ∈ d.running ∨ c = j.fillCopy F (Finset.range (j.len F)) :=
    fun c => by simp [hgiven.running]
  have hcompletions : completions d' = completions d ++ [.completion (j.buf F)] := by
    simp [completions, hgiven.running, fillCopy]
  have hfresh : Signal.completion (j.buf F) ∉ completions d := fun hin => by
    obtain ⟨c, hc, heq⟩ := List.mem_map.1 hin
    obtain ⟨o, hh, ⟨hco, -, -⟩ | ⟨hco, hp, -, -⟩⟩ := (h.valid c hc).exists_completion
    · rw [heq] at hco
      rw [← Signal.completion.inj hco, hnone] at hh
      cases hh
    · rw [heq] at hco
      rcases hp' : j.path with _ | _ | _
      · exact hpath hp'
      all_goals
        rw [hp'] at hco
        cases hco
  have hheld : ∀ k, d'.held (.staging k) =
      if k = j.buf F then some F else d.held (.staging k) := fun k => by
    simp [hgiven.held, fillCopy, Function.update_apply]
  have hother : ∀ {k}, k ≠ j.buf F → d'.held (.staging k) = d.held (.staging k) := fun hk => by
    rw [hheld, if_neg hk]
  have hfilling : ∀ k, j.Filling d' k ↔ j.Filling d k ∨ k = j.buf F := fun k => by
    simp [Filling, hcompletions, hpath]
  constructor
  · exact h.le.trans (Nat.le_add_right _ _)
  · exact hend
  · exact fun hlt => (dvd_next hdvd hlt).2
  · exact h.dvd_drained
  · exact hgiven.mem ▸ h.src
  · exact hgiven.mem ▸ h.ahead
  · rw [hgiven.mem]
    exact fun x hx hall => h.copied x hx fun c hc => hall c ((hmem c).2 (.inl hc))
  · exact h.held_fill hF hheld
  · exact h.loaded_fill hF hheld hnone
  · intro c hc
    obtain hc | rfl := (hmem c).1 hc
    · refine (h.valid c hc).mono (Nat.le_refl D)
        (fun k hk => hother (h.ne_of_concerns hnone hc hk)) (fun _ _ => by rw [hgiven.mem])
        fun k hk hf => ?_
      exact ((hfilling k).1 hf).resolve_right (h.ne_of_concerns hnone hc (.inr hk))
    · refine .fill F _ rfl hpath ?_ (Finset.Subset.refl _) fun i hi hn => ?_
      · rw [hheld, if_pos rfl]
      · exact absurd (Finset.mem_range.2 hi) hn
  · rw [hcompletions, List.nodup_append]
    refine ⟨h.nodup, List.nodup_singleton _, fun κ hκ κ' hκ' heq => hfresh ?_⟩
    rw [← List.mem_singleton.1 hκ', ← heq]
    exact hκ
  · intro κ hκ
    rw [hcompletions, hgiven.signal]
    by_cases heq : κ = .completion (j.buf F)
    · rw [if_pos (List.mem_append_right _ (List.mem_singleton.2 heq)), heq]
      exact Function.update_self _ _ _
    · refine (Function.update_of_ne heq _ _).trans ((h.signals κ hκ).trans (if_congr ?_ rfl rfl))
      simp [heq]
  · intro k o hh hn
    rw [hfilling, not_or] at hn
    rw [hgiven.mem]
    exact h.content k o ((hother hn.2).symm.trans hh) hn.1
  · intro k o hh hlt
    rw [hheld] at hh
    split at hh
    · obtain rfl := Option.some.inj hh
      exact absurd h.le (Nat.not_le.2 hlt)
    · rw [hcompletions]
      exact List.mem_append_left _ (h.owed k o hh hlt)
  · exact extent_fill_src h hgiven.extent
  · exact extent_fill_dst h hgiven.extent
  · exact extent_fill_staging h hgiven.extent

/-- **The host drains a buffer** of the next chunk. -/
theorem Pipe.drain_memcpy (h : j.Pipe F D d) (hpath : j.path = .deviceToHost) (hD : D < F)
    (hfill : ¬j.Filling d (j.buf D)) :
    j.Pipe F (D + j.len D) (d.memcpy (.dst, D) (.staging (j.buf D), 0) (j.len D)) := by
  set d' := d.memcpy (.dst, D) (.staging (j.buf D), 0) (j.len D) with hd'
  have hlt := Nat.lt_of_lt_of_le hD h.le_size
  have hdvd := h.dvd_drained hlt
  have hloaded := h.loaded D hdvd (Nat.le_refl D) hD
  have hend := add_len_le_of_lt hdvd h.dvd_filled hD h.le_size
  have hkeep : ∀ r, r ≠ .dst → d'.mem r = d.mem r := fun r hr => by
    funext x
    simp [hd', CopyDevice.memcpy, hr]
  have hnew : ∀ x, d'.mem .dst x =
      if D ≤ x ∧ x < D + j.len D then d.mem (.staging (j.buf D)) (x - D) else d.mem .dst x :=
    fun x => by simp [hd', CopyDevice.memcpy]
  have hheld : ∀ k, d'.held (.staging k) =
      if k = j.buf D then none else d.held (.staging k) := fun k => by
    simp [hd', CopyDevice.memcpy, Function.update_apply]
  have hheld' : ∀ k o, d'.held (.staging k) = some o →
      k ≠ j.buf D ∧ d.held (.staging k) = some o := fun k o hh => by
    rw [hheld] at hh
    split at hh
    · cases hh
    · rename_i hk
      exact ⟨hk, hh⟩
  have hextent : d'.extent =
      CopyDevice.touch (CopyDevice.touch d.extent (.staging (j.buf D), 0) (j.len D)) (.dst, D)
        (j.len D) := rfl
  constructor
  · exact hend
  · exact h.le_size
  · exact h.dvd_filled
  · exact fun hlt => (dvd_next hdvd hlt).2
  · exact (hkeep .src (by simp)).trans h.src
  · intro x hx
    rw [hnew, if_neg (by omega)]
    exact h.ahead x (by omega)
  · intro x hx hall
    rw [hnew]
    split
    · rename_i hin
      rw [h.content _ D hloaded hfill (x - D) (by omega), Nat.add_sub_of_le hin.1]
    · exact h.copied x (by omega) hall
  · exact fun k o hh => h.held k o (hheld' k o hh).2
  · intro o hb hle hlt'
    have hh := h.loaded o hb (by omega) hlt'
    rw [hheld, if_neg, hh]
    intro hk
    rw [hk, hloaded] at hh
    have := Option.some.inj hh
    have := j.len_pos hlt
    omega
  · intro c hc
    refine (h.valid c hc).mono (Nat.le_add_right _ _) (fun k hk => ?_)
      (fun k _ => hkeep _ (by simp)) fun k _ hf => hf
    rw [hheld, if_neg]
    rintro rfl
    cases h.valid c hc with
    | fill o todo heq hp =>
      subst heq
      obtain hk | hk := hk
      · refine hfill ⟨hp, ?_⟩
        rw [← Buffer.staging.inj hk]
        exact List.mem_map_of_mem hc
      · cases hk
    | drain o dep todo heq hp => exact hp hpath
  · exact h.nodup
  · exact h.signals
  · intro k o hh hn
    rw [hkeep (.staging k) (by simp)]
    exact h.content k o (hheld' k o hh).2 hn
  · intro k o hh hlt'
    obtain ⟨hk, hh⟩ := hheld' k o hh
    obtain ⟨hb, -, hbuf⟩ := h.held k o hh
    rcases Nat.lt_or_ge o D with ho | ho
    · exact h.owed k o hh ho
    · obtain rfl := eq_of_lt_add_len hdvd hb ho hlt'
      exact absurd hbuf.symm hk
  · exact extent_drain_src h hextent
  · exact extent_drain_dst h hextent
  · exact extent_drain_staging h hextent

/-- **The device is to drain a buffer** of the next chunk, when it has been filled. -/
theorem Pipe.drain_async (h : j.Pipe F D d) (hpath : j.path ≠ .deviceToHost) (hD : D < F)
    {dep : Option Signal}
    (hdep : j.path = .hostToDevice ∧ dep = none ∨
      j.path = .peerToPeer ∧ dep = some (.completion (j.buf D)))
    (hgiven : d.Given (j.drainCopy D dep (Finset.range (j.len D))) d') :
    j.Pipe F (D + j.len D) d' := by
  have hlt := Nat.lt_of_lt_of_le hD h.le_size
  have hdvd := h.dvd_drained hlt
  have hloaded := h.loaded D hdvd (Nat.le_refl D) hD
  have hend := add_len_le_of_lt hdvd h.dvd_filled hD h.le_size
  have hmem : ∀ c, c ∈ d'.running ↔
      c ∈ d.running ∨ c = j.drainCopy D dep (Finset.range (j.len D)) :=
    fun c => by simp [hgiven.running]
  have hcompletions : completions d' = completions d ++ [drainSignal j.path (j.buf D)] := by
    simp [completions, hgiven.running, drainCopy]
  have hother : ∀ k, j.path ≠ .hostToDevice → .completion k ≠ drainSignal j.path (j.buf D) := by
    intro k hp
    rcases hp' : j.path with _ | _ | _
    · exact absurd hp' hp
    · nofun
    · nofun
  have hfresh : drainSignal j.path (j.buf D) ∉ completions d := fun hin => by
    obtain ⟨c, hc, heq⟩ := List.mem_map.1 hin
    obtain ⟨o, hh, ⟨hco, hp, -⟩ | ⟨hco, -, ho, -⟩⟩ := (h.valid c hc).exists_completion
    · exact hother _ hp (hco.symm.trans heq)
    · rw [← drainSignal_inj (heq.symm.trans hco), hloaded] at hh
      have := Option.some.inj hh
      omega
  have hheld : ∀ k, d'.held (.staging k) = d.held (.staging k) := fun k => by
    rw [hgiven.held]
    exact Function.update_of_ne (show Buffer.staging k ≠ Buffer.dst from nofun) _ _
  have hfilling : ∀ k, j.Filling d' k ↔ j.Filling d k := fun k => by
    rw [Filling, Filling, hcompletions, List.mem_append, List.mem_singleton]
    exact and_congr_right fun hp => or_iff_left (hother k hp)
  constructor
  · exact hend
  · exact h.le_size
  · exact h.dvd_filled
  · exact fun hlt => (dvd_next hdvd hlt).2
  · exact hgiven.mem ▸ h.src
  · rw [hgiven.mem]
    exact fun x hx => h.ahead x (by omega)
  · intro x hx hall
    rw [hgiven.mem]
    rcases Nat.lt_or_ge x D with hx' | hx'
    · exact h.copied x hx' fun c hc => hall c ((hmem c).2 (.inl hc))
    · refine absurd (Nat.add_sub_of_le hx') (hall _ ((hmem _).2 (.inr rfl)) rfl (x - D) ?_)
      exact Finset.mem_range.2 (by omega)
  · exact fun k o hh => h.held k o ((hheld k).symm.trans hh)
  · exact fun o hb hle hlt => (hheld _).trans (h.loaded o hb (by omega) hlt)
  · intro c hc
    obtain hc | rfl := (hmem c).1 hc
    · exact (h.valid c hc).mono (Nat.le_add_right _ _) (fun k _ => hheld k)
        (fun _ _ => by rw [hgiven.mem]) fun k _ => (hfilling k).1
    · refine .drain D dep _ rfl hpath ?_ ((hheld _).trans hloaded) (Finset.Subset.refl _) ?_
      · exact Nat.lt_add_of_pos_right (j.len_pos hlt)
      · obtain ⟨hp, hnone⟩ | ⟨hp, hsome⟩ := hdep
        · exact .inl ⟨hnone, fun hf => hf.1 hp⟩
        · exact .inr ⟨hp, hsome, rfl⟩
  · rw [hcompletions, List.nodup_append]
    refine ⟨h.nodup, List.nodup_singleton _, fun κ hκ κ' hκ' heq => hfresh ?_⟩
    rw [← List.mem_singleton.1 hκ', ← heq]
    exact hκ
  · intro κ hκ
    rw [hcompletions, hgiven.signal]
    by_cases heq : κ = drainSignal j.path (j.buf D)
    · rw [if_pos (List.mem_append_right _ (List.mem_singleton.2 heq)), heq]
      exact Function.update_self _ _ _
    · refine (Function.update_of_ne heq _ _).trans ((h.signals κ hκ).trans (if_congr ?_ rfl rfl))
      simp [heq]
  · intro k o hh hn
    rw [hgiven.mem]
    exact h.content k o ((hheld k).symm.trans hh) fun hf => hn ((hfilling k).2 hf)
  · intro k o hh hlt'
    rw [hheld] at hh
    rw [hcompletions]
    obtain ⟨hb, -, hbuf⟩ := h.held k o hh
    rcases Nat.lt_or_ge o D with ho | ho
    · exact List.mem_append_left _ (h.owed k o hh ho)
    · obtain rfl := eq_of_lt_add_len hdvd hb ho hlt'
      rw [hbuf]
      exact List.mem_append_right _ List.mem_cons_self
  · exact extent_drain_src h hgiven.extent
  · exact extent_drain_dst h hgiven.extent
  · exact extent_drain_staging h hgiven.extent

end Transfer

end Codrive.UnpinnedCopy
