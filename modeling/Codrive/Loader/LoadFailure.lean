/-
# What a failed load leaves

`LoadCodeObject` has no way back.  What it checks before it registers the code object fails with
nothing changed; after that, what has been loaded stays: the code object in both lists, the segment
once all of the file is copied into it, and the symbols that come before the one that is refused.
Nothing that was there before is lost, and relocations do not fail.
-/

import Codrive.Loader.Executable

namespace Codrive.Loader

open Codrive.Basis

/-- Symbols of these names, in this order, were added to the table they go to. -/
structure Defines (agent : Option ℕ) (defs : List SymbolV3) (s t : Executable) : Prop where
  rest : t = { s with program_symbols := t.program_symbols, agent_symbols := t.agent_symbols }
  program : ∃ new, t.program_symbols = s.program_symbols ++ new ∧
    new.map (·.1) = if agent.isSome then [] else defs.map (·.name)
  agents : ∃ new, t.agent_symbols = s.agent_symbols ++ new ∧
    new.map (·.1) = if agent.isSome then defs.map fun sym => (sym.name, agent) else []

section

variable {ndebug : Bool} {agent alloc : Option ℕ} {s t u : Executable} {e : Status}
  {sym : SymbolV3} {syms defs defs' : List SymbolV3} {c : CodeObject}

theorem Defines.refl (agent : Option ℕ) (s : Executable) : Defines agent [] s s :=
  ⟨rfl, ⟨[], by simp, by simp⟩, ⟨[], by simp, by simp⟩⟩

theorem Defines.trans (h : Defines agent defs s t) (h' : Defines agent defs' t u) :
    Defines agent (defs ++ defs') s u := by
  obtain ⟨hr, ⟨p, hp, hpn⟩, ⟨a, ha, han⟩⟩ := h
  obtain ⟨hr', ⟨p', hp', hpn'⟩, ⟨a', ha', han'⟩⟩ := h'
  refine ⟨?_, ⟨p ++ p', ?_, ?_⟩, ⟨a ++ a', ?_, ?_⟩⟩
  · rw [hr', hr]
  · rw [hp', hp, List.append_assoc]
  · rw [List.map_append, hpn, hpn']
    split_ifs <;> simp
  · rw [ha', ha, List.append_assoc]
  · rw [List.map_append, han, han']
    split_ifs <;> simp

theorem defines_define (agent : Option ℕ) (s : Executable) (sym : SymbolV3) (symbol : SymbolImpl) :
    Defines agent [sym] s (s.define agent sym.name symbol) := by
  unfold Executable.define
  cases agent with
  | none => exact ⟨rfl, ⟨[(sym.name, symbol)], rfl, rfl⟩, ⟨[], by simp, rfl⟩⟩
  | some a => exact ⟨rfl, ⟨[], by simp, rfl⟩, ⟨[((sym.name, some a), symbol)], rfl, rfl⟩⟩

/-- **`LoadSymbol`** adds a definition, or nothing when it fails. -/
theorem loadSymbol_spec (h : loadSymbol ndebug agent sym s = some (e, t)) :
    (e = .success → Defines agent ([sym].filter (!·.isDeclaration)) s t) ∧
      (e ≠ .success → t = s) := by
  unfold loadSymbol at h
  split_ifs at h with hd
  · unfold loadDeclarationSymbol at h
    split_ifs at h
    all_goals
      cases h
      rw [List.filter_cons_of_neg (by simp [hd]), List.filter_nil]
      exact ⟨fun _ => .refl .., fun _ => rfl⟩
  · rw [List.filter_cons_of_pos (by simpa using hd), List.filter_nil]
    unfold loadDefinitionSymbol at h
    split_ifs at h
    · cases h
      exact ⟨by simp, fun _ => rfl⟩
    · split at h
      · cases h
      split at h
      · cases h
      · cases h
        exact ⟨by simp, fun _ => rfl⟩
      · split at h
        · cases h
        · cases h
          exact ⟨fun _ => defines_define .., by simp⟩

/-- **The loop over the symbols** adds all definitions, or those before the symbol that is
refused. -/
theorem loadSymbols_spec (h : loadSymbols ndebug agent syms s = some (e, t)) :
    (e = .success → Defines agent (syms.filter (!·.isDeclaration)) s t) ∧
      (e ≠ .success → ∃ pre sym post, syms = pre ++ sym :: post ∧
        Defines agent (pre.filter (!·.isDeclaration)) s t ∧
        loadSymbol ndebug agent sym t = some (e, t)) := by
  induction syms generalizing s with
  | nil =>
    cases h
    exact ⟨fun _ => .refl .., by simp⟩
  | cons sym syms ih =>
    rw [loadSymbols] at h
    split at h
    · cases h
    · rename_i u hone
      have hdef := (loadSymbol_spec hone).1 rfl
      obtain ⟨hall, hsome⟩ := ih h
      constructor
      · intro he
        have := hdef.trans (hall he)
        rwa [← List.filter_append, List.singleton_append] at this
      · intro he
        obtain ⟨pre, bad, post, rfl, hpre, hbad⟩ := hsome he
        refine ⟨sym :: pre, bad, post, rfl, ?_, hbad⟩
        have := hdef.trans hpre
        rwa [← List.filter_append, List.singleton_append] at this
    · rename_i hne hone
      cases h
      have hts := (loadSymbol_spec hone).2 hne
      subst hts
      exact ⟨fun he => absurd he hne, fun _ => ⟨[], sym, syms, rfl, .refl .., hone⟩⟩

/-- Relocations of a section do not fail. -/
theorem applyDynamicRelocationsV3_success {sec : RelocationSection} {rels : List RelocationV3}
    (h : applyDynamicRelocationsV3 ndebug sec rels s = some (e, t)) : e = .success := by
  induction rels generalizing s with
  | nil =>
    cases h
    rfl
  | cons rel rels ih =>
    rw [applyDynamicRelocationsV3] at h
    split at h
    · cases h
    · exact ih h
    · rename_i hne hone
      exfalso
      unfold applyDynamicRelocationV3 at hone
      dsimp only at hone
      split at hone
      · split at hone
        · split at hone
          · cases hone
          · split at hone
            · cases hone
            · cases hone
              exact hne rfl
        · cases hone
      · cases hone

/-- **Relocations do not fail.** -/
theorem applyRelocationsV3_success {secs : List RelocationSection}
    (h : applyRelocationsV3 ndebug secs s = some (e, t)) : e = .success := by
  induction secs generalizing s with
  | nil =>
    cases h
    rfl
  | cons sec secs ih =>
    rw [applyRelocationsV3] at h
    split at h
    · cases h
    · rename_i target
      split at h
      · cases h
      · exact ih h
      · rename_i hne hone
        exfalso
        split_ifs at hone
        · unfold applyStaticRelocationSectionV3 at hone
          split at hone
          · cases hone
            exact hne rfl
          · cases hone
            exact hne rfl
        · exact hne (applyDynamicRelocationsV3_success hone)

/-- What is left of a load: the code object in both lists, its segment where there is one, and these
definitions. -/
structure Left (agent : Option ℕ) (seg : Option Segment) (defs : List SymbolV3) (s t : Executable) :
    Prop where
  frozen : t.frozen = s.frozen
  objects : t.objects = s.objects ++ .loadedCodeObject s.loaded_code_objects.length ::
    seg.toList.map fun _ => .segment s.segments.length
  loaded : t.loaded_code_objects = s.loaded_code_objects ++
    [⟨agent, seg.toList.map fun _ => s.segments.length⟩]
  segments : t.segments = s.segments ++ seg.toList
  program : ∃ new, t.program_symbols = s.program_symbols ++ new ∧
    new.map (·.1) = if agent.isSome then [] else defs.map (·.name)
  agents : ∃ new, t.agent_symbols = s.agent_symbols ++ new ∧
    new.map (·.1) = if agent.isSome then defs.map fun sym => (sym.name, agent) else []

theorem left_register (s : Executable) (agent : Option ℕ) :
    Left agent none [] s (s.register agent) :=
  ⟨rfl, rfl, rfl, by simp [Executable.register], ⟨[], by simp [Executable.register], by simp⟩,
    ⟨[], by simp [Executable.register], by simp⟩⟩

/-- **`LoadSegments`** fails with nothing changed, or adds one segment to the code object. -/
theorem loadSegments_spec (h : loadSegments ndebug alloc c (s.register agent) = some (e, t)) :
    e ≠ .success ∧ t = s.register agent ∧ (c.dataSegments = [] ∨ alloc = none) ∨
      e = .success ∧ ∃ seg, Left agent (some seg) [] s t := by
  unfold loadSegments at h
  split at h
  · split at h
    · cases h
      exact .inl ⟨by simp, rfl, .inr rfl⟩
    · split at h
      · cases h
      · rename_i seg _
        cases h
        refine .inr ⟨rfl, seg, rfl, ?_, ?_, rfl, ⟨[], by simp [Executable.register], by simp⟩,
          ⟨[], by simp [Executable.register], by simp⟩⟩
        · simp [Executable.register]
        · simp [Executable.register, List.modifyLast_concat]
  · rename_i hno
    cases h
    refine .inl ⟨by simp, rfl, .inl ?_⟩
    cases hd : c.dataSegments with
    | nil => rfl
    | cons d ds =>
      rw [hd] at hno
      exact absurd (List.getLast?_eq_some_getLast (List.cons_ne_nil d ds)) (hno d _ rfl)

/-- Symbols are defined after the segment is loaded. -/
theorem Left.defines {seg : Option Segment} (h : Left agent seg [] s t)
    (h' : Defines agent defs t u) : Left agent seg defs s u := by
  obtain ⟨hf, ho, hl, hs, ⟨p, hp, hpn⟩, ⟨a, ha, han⟩⟩ := h
  obtain ⟨hr, ⟨p', hp', hpn'⟩, ⟨a', ha', han'⟩⟩ := h'
  have hp0 : p = [] := List.map_eq_nil_iff.1 (hpn.trans (by simp))
  have ha0 : a = [] := List.map_eq_nil_iff.1 (han.trans (by simp))
  subst hp0 ha0
  rw [List.append_nil] at hp ha
  refine ⟨?_, ?_, ?_, ?_, ⟨p', by rw [hp', hp], hpn'⟩, ⟨a', by rw [ha', ha], han'⟩⟩
  · rw [hr, ← hf]
  · rw [hr, ← ho]
  · rw [hr, ← hl]
  · rw [hr, ← hs]

end

/-- **What a failed load leaves.**  With the executable frozen, options that are not parsed or a
code object that is not read, nothing is changed.  Otherwise the code object is left in both lists,
and either it has no segment and no symbol, and the file has no segment or there was no memory; or
it has its segment and the definitions before a symbol that is refused, in the tables after what was
there before. -/
theorem left_of_failure {ndebug options : Bool} {agent alloc : Option ℕ} {code : Option CodeObject}
    {s t : Executable} {e : Status}
    (h : loadCodeObject ndebug agent alloc options code s = some (e, t)) (he : e ≠ .success) :
    (s.frozen ∨ options = false ∨ code = none) ∧ t = s ∨
      ∃ c, code = some c ∧
        ((c.dataSegments = [] ∨ alloc = none) ∧ Left agent none [] s t ∨
          ∃ seg pre sym post, c.symbols = pre ++ sym :: post ∧
            Left agent (some seg) (pre.filter (!·.isDeclaration)) s t ∧
            loadSymbol ndebug agent sym t = some (e, t)) := by
  unfold loadCodeObject at h
  split_ifs at h with hf ho
  · cases h
    exact .inl ⟨.inl hf, rfl⟩
  · cases h
    exact .inl ⟨.inr (.inl (by simpa using ho)), rfl⟩
  · split at h
    · cases h
      exact .inl ⟨.inr (.inr rfl), rfl⟩
    · rename_i c
      refine .inr ⟨c, rfl, ?_⟩
      unfold loadRegistered at h
      split at h
      · cases h
      · rename_i u hseg
        obtain ⟨hne, -⟩ | ⟨-, seg, hleft⟩ := loadSegments_spec hseg
        · exact absurd rfl hne
        split at h
        · cases h
        · exact absurd (applyRelocationsV3_success h) he
        · rename_i hsyms
          cases h
          obtain ⟨pre, sym, post, hc, hpre, hbad⟩ := (loadSymbols_spec hsyms).2 he
          exact .inr ⟨seg, pre, sym, post, hc, hleft.defines hpre, hbad⟩
      · rename_i hseg
        cases h
        obtain ⟨-, rfl, hwhy⟩ | ⟨hs, -⟩ := loadSegments_spec hseg
        · exact .inl ⟨hwhy, left_register ..⟩
        · exact absurd hs he

/-- A file with one segment, and a variable that is defined twice. -/
def twiceDefined : CodeObject where
  dataSegments := [⟨0, 16, 0, [1, 2, 3, 4]⟩]
  symbols :=
    let x : SymbolV3 := ⟨"x", .variable, false, some ⟨1, 2, 0, 16⟩, 8, 4⟩
    [x, x]
  relocationSections := []

/-- The second definition is refused. -/
theorem loadCodeObject_twiceDefined : ∃ t, loadCodeObject false (some 1) (some 4096) true
    (some twiceDefined) {} = some (.variableAlreadyDefined, t) ∧
      t.objects = [.loadedCodeObject 0, .segment 0] ∧
      t.loaded_code_objects = [⟨some 1, [0]⟩] ∧
      t.agent_symbols.map (·.1) = [("x", some 1)] ∧ t.segments.length = 1 := by
  refine ⟨_, rfl, ?_, ?_, ?_, ?_⟩ <;> decide

/-- The first definition is left after the second is refused. -/
theorem left_of_failure_twice : ∃ t pre, loadCodeObject false (some 1) (some 4096) true
    (some twiceDefined) {} = some (.variableAlreadyDefined, t) ∧
      ∃ seg, Left (some 1) (some seg) pre {} t := by
  obtain ⟨t, ht, hobj, -⟩ := loadCodeObject_twiceDefined
  obtain ⟨-, rfl⟩ | ⟨c, -, ⟨-, h⟩ | ⟨seg, pre, -, -, -, h, -⟩⟩ := left_of_failure ht (by simp)
  · cases hobj
  · rw [h.objects] at hobj
    cases hobj
  · exact ⟨t, _, ht, seg, h⟩

/-- **A failed load changes the executable**: its lists, the segments allocated for it, and the
symbols of the agent; a second try fails at the first symbol. -/
theorem failed_load_is_not_undone :
    ∃ e t, loadCodeObject false (some 1) (some 4096) true (some twiceDefined) {} = some (e, t) ∧
      e ≠ .success ∧ t.objects ≠ [] ∧ t.loaded_code_objects ≠ [] ∧ t.segments.length ≠ 0 ∧
      t.agent_symbols ≠ [] := by
  obtain ⟨t, ht, hobj, hloaded, hsym, hseg⟩ := loadCodeObject_twiceDefined
  refine ⟨_, t, ht, by simp, by simp [hobj], by simp [hloaded], by omega, ?_⟩
  intro hnil
  simp [hnil] at hsym

end Codrive.Loader
