/-
# What the option parser makes of a string

Each group of an option string is assigned to the first option that accepts it, and what is left
over is unknown.  `ParseOptions` is right about that unless a word in front of the first option is
collected (the loop does not move on), a group has no piece (its first one is read), a group with
two `=` is collected (the word behind it is taken instead, or the end is read), a token cannot be
read as a value (nothing is checked), or it fails after it has stored a value (`Reset` clears only
what is set).  These are all the cases (`parseOptions_ok_iff`).
-/

import Codrive.Options.Groups
import Mathlib.Data.List.Forall2
import Mathlib.Data.List.Induction

namespace Codrive.Options

open Codrive.Basis

variable {V : Type}

/-! ### The purpose -/

/-- The pieces of the groups that are assigned to an option. -/
def forOption (os : List (Opt V)) (k : ℕ) (gs : List Group) : List (List Str) :=
  (gs.filter fun g => recognises os g = some k).map Group.pieces

/-- The words of the groups that no option recognises. -/
def unknownWords (os : List (Opt V)) (gs : List Group) : List Str :=
  gs.flatMap fun g => if recognises os g = none then g.words else []

namespace Opt

/-- An option that has just been made. -/
def Fresh (o : Opt V) : Prop :=
  o.is_set_ = false ∧
    match o.kind with
    | .option _ _ values_ => values_ = []
    | .value _ _ => True
    | .choice _ value_ => value_ = []
    | .noArg => True
    | .prefixed values_ => values_ = []

/-- What a new option is, when the groups with some pieces have been assigned to it: a list has the
values of all their arguments, a value is that of the last argument. -/
def Settled (o : Opt V) (pss : List (List Str)) (o' : Opt V) : Prop :=
  o'.name_ = o.name_ ∧
    match o.kind with
    | .option reader fresh _ => o'.is_set_ = decide (pss ≠ []) ∧
        ∃ values, List.Forall₂ (fun token value => reader.extract token = some value)
          (pss.flatMap List.tail) values ∧ o'.kind = .option reader fresh values
    | .value reader value_ =>
      match pss.getLast? with
      | none => o'.is_set_ = false ∧ o'.kind = .value reader value_
      | some ps => o'.is_set_ = true ∧ ∃ token value, ps.tail = [token] ∧
          reader.extract token = some value ∧ o'.kind = .value reader value
    | .choice choices_ value_ =>
      match pss.getLast? with
      | none => o'.is_set_ = false ∧ o'.kind = .choice choices_ value_
      | some ps => o'.is_set_ = true ∧ ∃ token ∈ choices_, ps.tail = [token] ∧
          o'.kind = .choice choices_ token
    | .noArg => o'.kind = .noArg ∧
        o'.is_set_ = (pss.getLast?.any fun ps => decide (ps.tail ≠ [['0']]))
    | .prefixed _ => o'.is_set_ = decide (pss ≠ []) ∧
        o'.kind = .prefixed (pss.map fun ps => prefixValue o.name_ (ps.headD []) ps.tail)

/-- The arguments can be read as values. -/
def Readable (o : Opt V) (pss : List (List Str)) : Prop :=
  match o.kind with
  | .option reader _ _ => ∀ token ∈ pss.flatMap List.tail, (reader.extract token).isSome = true
  | .value reader _ => ∀ ps ∈ pss.getLast?, ∀ token ∈ ps.tail, (reader.extract token).isSome = true
  | _ => True

/-- The arguments leave the value that a new option has. -/
def StoresNothing (o : Opt V) (pss : List (List Str)) : Prop :=
  match o.kind with
  | .value reader value_ => (pss.flatMap List.tail).foldl reader.read value_ = value_
  | .noArg => True
  | _ => pss = []

end Opt

/-- The turn for a group does not end the loop. -/
def passes (os : List (Opt V)) (collect : Bool) (g : Group) : Bool :=
  match recognises os g with
  | some k => os[k]?.any fun o => decide (o.Takes g.pieces.tail)
  | none => collect && !g.pieces.isEmpty

/-- A group with two `=` is in front of one with the same first word. -/
def Followed : List Group → Prop
  | [] => True
  | g :: gs => (g.Malformed → gs.head?.map Group.word = some g.word) ∧ Followed gs

/-- What `ParseOptions` should do with options that have just been made: end, without reading what
is not there; on success, each option has what the string assigns to it and the rest is unknown; on
failure, the options are as they were made. -/
def ParseOk (ndebug : Bool) (os : List (Opt V)) (collect : Bool) (options : Option Str) : Prop :=
  let words := tokenize options ' '
  ∃ turns status p, parseOptions ndebug turns ⟨os, [], collect⟩ options = some (status, p) ∧
    match status with
    | .ok () =>
      (∀ (k : ℕ) (o : Opt V), os[k]? = some o → ∃ o', p.options_[k]? = some o' ∧
          o.Settled (forOption os k (groupsOf words).2) o') ∧
        (collect = true → p.unknownOptions_ =
          unwords ' ' ((groupsOf words).1 ++ unknownWords os (groupsOf words).2))
    | .error _ => p.options_ = os

/-- The strings that none of the defects is reached for. -/
def Clean (os : List (Opt V)) (collect : Bool) (options : Option Str) : Prop :=
  let words := tokenize options ' '
  let gs := (groupsOf words).2
  if (groupsOf words).1 ≠ [] then collect = false
  else
    match gs.dropWhile (passes os collect) with
    | [] => (∀ (k : ℕ) (o : Opt V), os[k]? = some o → o.Readable (forOption os k gs)) ∧
        (collect = true → Followed gs)
    | g :: _ => g.pieces ≠ [] ∧ ∀ (k : ℕ) (o : Opt V), os[k]? = some o →
        o.StoresNothing (forOption os k (gs.takeWhile (passes os collect)))

/-! ### The options, after some groups -/

/-- An option that groups with some pieces have been assigned to. -/
def Opt.after (o : Opt V) (pss : List (List Str)) : Opt V :=
  pss.foldl (fun o ps => o.assign (ps.headD []) ps.tail) o

/-- The options that some groups have been assigned to. -/
def optionsAfter (os : List (Opt V)) (gs : List Group) : List (Opt V) :=
  os.mapIdx fun k o => o.after (forOption os k gs)

section After

variable {o : Opt V} {os : List (Opt V)} {pss : List (List Str)} {gs : List Group} {g : Group}

/-- Assigning does not change what an option accepts and takes. -/
theorem assign_same (o : Opt V) (front : Str) (args : List Str) :
    (∀ token, (o.assign front args).accept token = o.accept token) ∧
      ∀ args', (o.assign front args).Takes args' ↔ o.Takes args' := by
  cases hk : o.kind <;> simp [Opt.assign, Opt.accept, Opt.Takes, hk]

theorem after_same (o : Opt V) (pss : List (List Str)) :
    (∀ token, (o.after pss).accept token = o.accept token) ∧
      ∀ args, (o.after pss).Takes args ↔ o.Takes args := by
  induction pss generalizing o with
  | nil => exact ⟨fun _ => rfl, fun _ => Iff.rfl⟩
  | cons ps pss ih =>
    obtain ⟨haccept, htakes⟩ := ih (o.assign (ps.headD []) ps.tail)
    obtain ⟨haccept', htakes'⟩ := assign_same o (ps.headD []) ps.tail
    exact ⟨fun token => (haccept token).trans (haccept' token),
      fun args => (htakes args).trans (htakes' args)⟩

theorem getElem?_optionsAfter (os : List (Opt V)) (gs : List Group) (k : ℕ) :
    (optionsAfter os gs)[k]? = os[k]?.map fun o => o.after (forOption os k gs) :=
  List.getElem?_mapIdx

/-- **The options recognise the same groups** all along. -/
theorem recognises_optionsAfter (os : List (Opt V)) (gs : List Group) (g : Group) :
    recognises (optionsAfter os gs) g = recognises os g := by
  have hmap : ∀ front, (optionsAfter os gs).map (·.accept front) = os.map (·.accept front) := by
    intro front
    refine List.ext_getElem? fun k => ?_
    rw [List.getElem?_map, List.getElem?_map, getElem?_optionsAfter]
    cases os[k]? with
    | none => rfl
    | some o => exact congrArg some ((after_same o _).1 front)
  have hfind : ∀ (l : List (Opt V)) front, l.findIdx? (·.accept front) =
      (l.map (·.accept front)).findIdx? id := fun l front => by
    rw [List.findIdx?_map]
    rfl
  simp only [recognises, hfind, hmap]

theorem forOption_append (os : List (Opt V)) (k : ℕ) (gs gs' : List Group) :
    forOption os k (gs ++ gs') = forOption os k gs ++ forOption os k gs' := by
  rw [forOption, List.filter_append, List.map_append]
  rfl

/-- A group that is not recognised changes no option. -/
theorem optionsAfter_none (h : recognises os g = none) :
    optionsAfter os (gs ++ [g]) = optionsAfter os gs := by
  refine List.ext_getElem? fun k => ?_
  rw [getElem?_optionsAfter, getElem?_optionsAfter, forOption_append]
  simp [forOption, h]

/-- A group that is recognised changes one option. -/
theorem optionsAfter_some {i : ℕ} (h : recognises os g = some i) (ho : os[i]? = some o) :
    optionsAfter os (gs ++ [g]) = (optionsAfter os gs).set i
      ((o.after (forOption os i gs)).assign (g.pieces.headD []) g.pieces.tail) := by
  refine List.ext_getElem? fun k => ?_
  rw [getElem?_optionsAfter, List.getElem?_set, forOption_append]
  by_cases hk : i = k
  · subst hk
    have hi : i < (optionsAfter os gs).length := by
      rw [optionsAfter, List.length_mapIdx]
      exact (List.getElem?_eq_some_iff.1 ho).1
    rw [if_pos rfl, if_pos hi, ho, Option.map_some]
    simp [forOption, h, Opt.after]
  · rw [if_neg hk, getElem?_optionsAfter]
    simp [forOption, h, hk]

/-- The pieces that an option is assigned are those that it takes. -/
theorem takes_forOption {collect : Bool} {k : ℕ} (hgs : ∀ g ∈ gs, passes os collect g = true)
    (ho : os[k]? = some o) : ∀ ps ∈ forOption os k gs, o.Takes ps.tail := by
  intro ps hps
  obtain ⟨g, hg, rfl⟩ := List.mem_map.1 hps
  obtain ⟨hmem, hrec⟩ := List.mem_filter.1 hg
  have hpass := hgs g hmem
  simpa [passes, of_decide_eq_true hrec, ho] using hpass

/-- **What an option is after some groups.** -/
theorem after_eq (o : Opt V) (pss : List (List Str)) :
    (o.after pss).name_ = o.name_ ∧
      match o.kind with
      | .option reader fresh values_ => (o.after pss).is_set_ = (o.is_set_ || decide (pss ≠ [])) ∧
          (o.after pss).kind = .option reader fresh
            (values_ ++ (pss.flatMap List.tail).map (reader.read fresh))
      | .value reader value_ => (o.after pss).is_set_ = (o.is_set_ || decide (pss ≠ [])) ∧
          (o.after pss).kind = .value reader ((pss.flatMap List.tail).foldl reader.read value_)
      | .choice choices_ value_ => (o.after pss).is_set_ = (o.is_set_ || decide (pss ≠ [])) ∧
          (o.after pss).kind = .choice choices_
            ((pss.flatMap List.tail).foldl (fun _ token => token) value_)
      | .noArg => (o.after pss).kind = .noArg ∧ (o.after pss).is_set_ =
          pss.foldl (fun _ ps => decide (ps.tail ≠ [['0']])) o.is_set_
      | .prefixed values_ => (o.after pss).is_set_ = (o.is_set_ || decide (pss ≠ [])) ∧
          (o.after pss).kind = .prefixed
            (values_ ++ pss.map fun ps => prefixValue o.name_ (ps.headD []) ps.tail) := by
  induction pss generalizing o with
  | nil => cases hk : o.kind <;> simp [Opt.after, hk]
  | cons ps pss ih =>
    have hafter : o.after (ps :: pss) = (o.assign (ps.headD []) ps.tail).after pss := rfl
    have hset : ∀ b : Bool, (b || decide (ps :: pss ≠ [])) = (true || decide (pss ≠ [])) := by simp
    obtain ⟨hname, hkind⟩ := ih (o.assign (ps.headD []) ps.tail)
    rw [hafter]
    cases hk : o.kind with
    | option reader fresh values_ =>
      simp only [Opt.assign, hk] at hname hkind ⊢
      rw [hset, List.flatMap_cons, List.map_append, ← List.append_assoc]
      exact ⟨hname, hkind⟩
    | value reader value_ =>
      simp only [Opt.assign, hk] at hname hkind ⊢
      rw [hset, List.flatMap_cons, List.foldl_append]
      exact ⟨hname, hkind⟩
    | choice choices_ value_ =>
      simp only [Opt.assign, hk] at hname hkind ⊢
      rw [hset, List.flatMap_cons, List.foldl_append]
      exact ⟨hname, hkind⟩
    | noArg =>
      simp only [Opt.assign, hk] at hname hkind ⊢
      exact ⟨hname, hkind⟩
    | prefixed values_ =>
      simp only [Opt.assign, hk] at hname hkind ⊢
      rw [List.append_assoc] at hkind
      rw [hset]
      exact ⟨hname, hkind⟩

/-- The last of the arguments. -/
theorem foldl_tails {α : Type} (f : α → Str → α) (init : α) (pss : List (List Str)) (ps : List Str)
    {token : Str} (h : ps.tail = [token]) :
    ((pss ++ [ps]).flatMap List.tail).foldl f init =
      f ((pss.flatMap List.tail).foldl f init) token := by
  rw [List.flatMap_append, List.foldl_append, List.flatMap_singleton, h]
  rfl

/-- **A new option is what it should be** after groups that it takes, exactly if their arguments can
be read. -/
theorem settled_after_iff (hf : o.Fresh) (h : ∀ ps ∈ pss, o.Takes ps.tail) :
    o.Settled pss (o.after pss) ↔ o.Readable pss := by
  obtain ⟨hname, hkind⟩ := after_eq o pss
  obtain ⟨hset, hfresh⟩ := hf
  rw [Opt.Settled, Opt.Readable, and_iff_right hname]
  cases hk : o.kind with
  | option reader fresh values_ =>
    simp only [hk, hset, Bool.false_or] at hkind hfresh ⊢
    rw [hfresh, List.nil_append] at hkind
    rw [and_iff_right hkind.1, hkind.2]
    constructor
    · rintro ⟨values, hvalues, heq⟩ token htoken
      obtain ⟨i, hi, rfl⟩ := List.getElem_of_mem htoken
      obtain ⟨hlength, hget⟩ := List.forall₂_iff_get.1 hvalues
      have := hget i hi (hlength ▸ hi)
      simp only [List.get_eq_getElem] at this
      rw [this]
      rfl
    · intro hread
      refine ⟨_, ?_, rfl⟩
      rw [List.forall₂_map_right_iff, List.forall₂_same]
      intro token htoken
      obtain ⟨value, hvalue⟩ := Option.isSome_iff_exists.1 (hread token htoken)
      rw [Reader.read, hvalue]
      rfl
  | value reader value_ =>
    simp only [hk, hset, Bool.false_or] at hkind ⊢
    rcases List.eq_nil_or_concat' pss with rfl | ⟨pss, ps, rfl⟩
    · simpa using hkind
    · have htakes := h ps (by simp)
      simp only [Opt.Takes, hk] at htakes
      obtain ⟨token, htoken⟩ := List.length_eq_one_iff.1 htakes
      rw [foldl_tails _ _ _ _ htoken] at hkind
      simp only [List.getLast?_append_cons, List.getLast?_singleton, hkind, htoken]
      constructor
      · rintro ⟨-, token', value, heq, hvalue, -⟩ ps' hps' t ht
        obtain rfl := Option.some.inj hps'
        rw [htoken] at ht
        obtain rfl := List.mem_singleton.1 ht
        obtain rfl := List.singleton_inj.1 heq
        rw [hvalue]
        rfl
      · intro hread
        obtain ⟨value, hvalue⟩ := Option.isSome_iff_exists.1 (hread ps rfl token (by simp [htoken]))
        exact ⟨by simp, token, value, rfl, hvalue, by rw [Reader.read, hvalue]; rfl⟩
  | choice choices_ value_ =>
    simp only [hk, hset, Bool.false_or] at hkind ⊢
    rcases List.eq_nil_or_concat' pss with rfl | ⟨pss, ps, rfl⟩
    · simpa using hkind
    · have htakes := h ps (by simp)
      simp only [Opt.Takes, hk] at htakes
      obtain ⟨token, htoken⟩ := List.length_eq_one_iff.1 htakes.1
      rw [foldl_tails _ _ _ _ htoken] at hkind
      refine iff_of_true ?_ trivial
      simp only [List.getLast?_append_cons, List.getLast?_singleton, hkind]
      exact ⟨by simp, token, htakes.2 token (by simp [htoken]), htoken, rfl⟩
  | noArg =>
    simp only [hk, hset] at hkind ⊢
    refine iff_of_true ⟨hkind.1, hkind.2.trans ?_⟩ trivial
    rcases List.eq_nil_or_concat' pss with rfl | ⟨pss, ps, rfl⟩
    · rfl
    · simp
  | prefixed values_ =>
    simp only [hk, hset, Bool.false_or] at hkind hfresh ⊢
    rw [hfresh, List.nil_append] at hkind
    exact iff_of_true hkind trivial

/-- **`Reset` makes a new option new again** exactly if the groups have stored nothing. -/
theorem reset_after_iff (hf : o.Fresh) (h : ∀ ps ∈ pss, o.Takes ps.tail)
    (hne : ∀ ps ∈ pss, [] ∉ ps.tail) : (o.after pss).reset = o ↔ o.StoresNothing pss := by
  obtain ⟨hname, hkind⟩ := after_eq o pss
  obtain ⟨hset, hfresh⟩ := hf
  have hreset : (o.after pss).reset = o ↔ (o.after pss).kind = o.kind := by
    obtain ⟨name_, is_set_, kind⟩ := o
    obtain rfl : is_set_ = false := hset
    rw [Opt.reset, hname]
    simp
  rw [hreset, Opt.StoresNothing]
  cases hk : o.kind with
  | option reader fresh values_ =>
    simp only [hk] at hkind hfresh ⊢
    rw [hkind.2, hfresh, List.nil_append]
    constructor
    · intro heq
      by_contra hpss
      obtain ⟨ps, hps⟩ := List.exists_mem_of_ne_nil _ hpss
      have htakes := h ps hps
      simp only [Opt.Takes, hk] at htakes
      obtain ⟨token, htoken⟩ := List.exists_mem_of_ne_nil _ htakes
      have hmem : token ∈ pss.flatMap List.tail := List.mem_flatMap.2 ⟨ps, hps, htoken⟩
      have hnil := (Kind.option.inj heq).2.2
      rw [List.map_eq_nil_iff] at hnil
      rw [hnil] at hmem
      cases hmem
    · rintro rfl
      rfl
  | value reader value_ =>
    simp only [hk] at hkind ⊢
    rw [hkind.2]
    exact ⟨fun heq => (Kind.value.inj heq).2, fun heq => by rw [heq]⟩
  | choice choices_ value_ =>
    simp only [hk] at hkind hfresh ⊢
    rw [hkind.2, hfresh]
    constructor
    · intro heq
      rcases List.eq_nil_or_concat' pss with rfl | ⟨pss, ps, rfl⟩
      · rfl
      · have htakes := h ps (by simp)
        simp only [Opt.Takes, hk] at htakes
        obtain ⟨token, htoken⟩ := List.length_eq_one_iff.1 htakes.1
        rw [foldl_tails _ _ _ _ htoken] at heq
        obtain rfl := (Kind.choice.inj heq).2
        exact absurd (by simp [htoken]) (hne ps (by simp))
    · rintro rfl
      rfl
  | noArg =>
    simp only [hk] at hkind ⊢
    exact iff_of_true hkind.1 trivial
  | prefixed values_ =>
    simp only [hk] at hkind hfresh ⊢
    rw [hkind.2, hfresh, List.nil_append]
    constructor
    · intro heq
      have hnil := Kind.prefixed.inj heq
      exact List.map_eq_nil_iff.1 hnil
    · rintro rfl
      rfl

end After

/-! ### The run -/

section Run

variable {ndebug collect : Bool} {os : List (Opt V)} {done run rest : List Group} {unknown : Str}

/-- The words that the turns for some groups collect. -/
def shown (os : List (Opt V)) (next : Option Str) : List Group → List Str
  | [] => []
  | g :: gs =>
    (if g.Malformed then ((gs.head?.map Group.word).or next).toList
      else if recognises os g = none then g.words else []) ++ shown os next gs

theorem foldl_addUnknown (p : OptionParser V) (words : List Str) :
    words.foldl OptionParser.addUnknown p =
      { p with unknownOptions_ := p.unknownOptions_ ++ unwords ' ' words } := by
  induction words generalizing p with
  | nil => simp
  | cons word words ih =>
    rw [List.foldl_cons, ih]
    simp [OptionParser.addUnknown, unwords]

/-- A group without a piece, or one with two `=`, is not recognised. -/
theorem recognises_of_malformed {g : Group} (h : g.Malformed) : recognises os g = none := if_pos h

theorem recognises_of_nil {g : Group} (h : g.pieces = []) : recognises os g = none := by
  rw [recognises, h]
  split <;> rfl

/-- **The turns for groups that pass** assign them to the options, and collect words. -/
theorem runGroups_run (ndebug : Bool) (done rest : List Group) (unknown : Str)
    (hrun : ∀ g ∈ run, passes os collect g = true)
    (hlast : ∀ g ∈ run.getLast?, g.Malformed → rest ≠ []) :
    runGroups ndebug ⟨optionsAfter os done, unknown, collect⟩ (run ++ rest) =
      runGroups ndebug ⟨optionsAfter os (done ++ run),
        unknown ++ unwords ' ' (shown os (rest.head?.map Group.word) run), collect⟩ rest := by
  induction run generalizing done unknown with
  | nil => simp [shown]
  | cons g run ih =>
    obtain ⟨hg, hrun'⟩ := List.forall_mem_cons.1 hrun
    have hlast' : ∀ g ∈ run.getLast?, g.Malformed → rest ≠ [] := fun g' hg' => by
      refine hlast g' ?_
      rw [List.getLast?_cons, Option.mem_some_iff, hg']
      rfl
    have hih := fun done unknown => ih done unknown hrun' hlast'
    have hnext : (run ++ rest).head?.map Group.word =
        (run.head?.map Group.word).or (rest.head?.map Group.word) := by
      cases run <;> simp
    have hdone : done ++ g :: run = done ++ [g] ++ run := by simp
    rw [List.cons_append, runGroups, hnext, shown, hdone, unwords_append, ← List.append_assoc]
    obtain ⟨hnil, -⟩ | ⟨hm, hrec, hturn⟩ | ⟨hm, -, hrec, hturn⟩ | ⟨i, o, hrec, ho, hturn⟩ :=
      parseGroup_spec ndebug ⟨optionsAfter os done, unknown, collect⟩ g
        ((run.head?.map Group.word).or (rest.head?.map Group.word))
    · rw [passes, recognises_of_nil hnil, hnil] at hg
      simp at hg
    · -- the word that the next turn is at is collected
      rw [recognises_optionsAfter] at hrec
      have hcollect : collect = true := by
        rw [passes, hrec, Bool.and_eq_true] at hg
        exact hg.1
      obtain ⟨next, hsome⟩ : ∃ next, (run.head?.map Group.word).or (rest.head?.map Group.word) =
          some next := by
        cases run with
        | cons g' run => exact ⟨g'.word, rfl⟩
        | nil =>
          obtain ⟨g', rest', hrest⟩ := List.exists_cons_of_ne_nil (hlast g rfl hm)
          exact ⟨g'.word, by rw [hrest]; rfl⟩
      have hih := hih (done ++ [g]) (unknown ++ (next ++ [' ']))
      rw [optionsAfter_none hrec] at hih
      rw [hturn, if_pos hcollect, hsome, if_pos hm]
      exact hih.trans (by simp [unwords])
    · -- the words of the group are collected
      rw [recognises_optionsAfter] at hrec
      have hcollect : collect = true := by
        rw [passes, hrec, Bool.and_eq_true] at hg
        exact hg.1
      have hih := hih (done ++ [g]) (unknown ++ unwords ' ' g.words)
      rw [optionsAfter_none hrec] at hih
      rw [hturn, if_pos hcollect, if_neg hm, if_pos hrec, foldl_addUnknown]
      exact hih
    · -- the group is assigned to an option
      rw [recognises_optionsAfter] at hrec
      rw [getElem?_optionsAfter, Option.map_eq_some_iff] at ho
      obtain ⟨o, ho, rfl⟩ := ho
      have htakes : (o.after (forOption os i done)).Takes g.pieces.tail := by
        rw [passes, hrec] at hg
        simpa [ho, (after_same o _).2] using hg
      have hm : ¬g.Malformed := fun hm => by
        rw [recognises_of_malformed hm] at hrec
        cases hrec
      have hih := hih (done ++ [g]) unknown
      rw [optionsAfter_some hrec ho] at hih
      rw [hturn, if_pos htakes, if_neg hm, if_neg (by rw [hrec]; simp), unwords_nil,
        List.append_nil]
      exact hih

/-- **Two `=` in the last group** that is collected: the end of the words is read. -/
theorem runGroups_end {g : Group} (hg : g.Malformed) (hcollect : collect = true) :
    runGroups ndebug ⟨optionsAfter os done, unknown, collect⟩ [g] = none := by
  obtain ⟨hnil, -⟩ | ⟨-, -, hturn⟩ | ⟨hm, -⟩ | ⟨i, o, hrec, -⟩ :=
    parseGroup_spec ndebug ⟨optionsAfter os done, unknown, collect⟩ g none
  · have := hg.2
    rw [hnil] at this
    exact absurd this (Nat.not_lt_zero _)
  · rw [if_pos hcollect] at hturn
    simp only [runGroups, List.head?_nil, Option.map_none, hturn]
  · exact absurd hg hm
  · rw [recognises_of_malformed hg] at hrec
    cases hrec

/-- **A group that does not pass** ends the loop, with the options reset. -/
theorem runGroups_stop (ndebug : Bool) (done rest : List Group) (unknown : Str) {g : Group}
    (hg : passes os collect g = false) :
    (g.pieces = [] → runGroups ndebug ⟨optionsAfter os done, unknown, collect⟩ (g :: rest) = none) ∧
      (g.pieces ≠ [] → ∃ text,
        runGroups ndebug ⟨optionsAfter os done, unknown, collect⟩ (g :: rest) =
          some (.error text, OptionParser.reset ⟨optionsAfter os done, unknown, collect⟩)) := by
  rw [runGroups]
  obtain ⟨hnil, hturn⟩ | ⟨hm, hrec, hturn⟩ | ⟨hm, hne, hrec, hturn⟩ | ⟨i, o, hrec, ho, hturn⟩ :=
    parseGroup_spec ndebug ⟨optionsAfter os done, unknown, collect⟩ g (rest.head?.map Group.word)
  · exact ⟨fun _ => by rw [hturn], fun hne => absurd hnil hne⟩
  · have hne : g.pieces ≠ [] := fun hnil => by
      have := hm.2
      rw [hnil] at this
      exact absurd this (Nat.not_lt_zero _)
    rw [recognises_optionsAfter] at hrec
    have hcollect : collect = false := by simpa [passes, hrec, hne] using hg
    refine ⟨fun hnil => absurd hnil hne, fun _ => ⟨invalidFormat (g.pieces.headD []), ?_⟩⟩
    rw [hturn, if_neg (by simp [hcollect])]
  · rw [recognises_optionsAfter] at hrec
    have hcollect : collect = false := by simpa [passes, hrec, hne] using hg
    refine ⟨fun hnil => absurd hnil hne, fun _ => ⟨unknownOption (g.pieces.headD []), ?_⟩⟩
    rw [hturn, if_neg (by simp [hcollect])]
  · rw [recognises_optionsAfter] at hrec
    rw [getElem?_optionsAfter, Option.map_eq_some_iff] at ho
    obtain ⟨o, ho, rfl⟩ := ho
    have htakes : ¬(o.after (forOption os i done)).Takes g.pieces.tail := by
      rw [passes, hrec] at hg
      simpa [ho, (after_same o _).2] using hg
    refine ⟨fun hnil => ?_, fun _ => ⟨_, by rw [hturn, if_neg htakes]⟩⟩
    rw [recognises_of_nil hnil] at hrec
    cases hrec

/-- What is collected is what is unknown, exactly if each group with two `=` is in front of one with
the same first word. -/
theorem shown_eq_iff {gs : List Group} (hlast : ∀ g ∈ gs.getLast?, ¬g.Malformed) :
    shown os none gs = unknownWords os gs ↔ Followed gs := by
  induction gs with
  | nil => exact iff_of_true rfl trivial
  | cons g gs ih =>
    have hcons : unknownWords os (g :: gs) =
        (if recognises os g = none then g.words else []) ++ unknownWords os gs := rfl
    have hlast' : ∀ g ∈ gs.getLast?, ¬g.Malformed := fun g' hg' => by
      refine hlast g' ?_
      rw [List.getLast?_cons, Option.mem_some_iff, hg']
      rfl
    rw [shown, hcons, Followed, ← ih hlast']
    by_cases hm : g.Malformed
    · cases gs with
      | nil => exact absurd hm (hlast g rfl)
      | cons g' gs =>
        have hwords : g.words = [g.word] := by rw [Group.words, hm.1]
        have hnext : (((g' :: gs).head?.map Group.word).or none).toList = [g'.word] := rfl
        rw [if_pos hm, if_pos (recognises_of_malformed hm), hwords, hnext, List.singleton_append,
          List.singleton_append, List.cons.injEq, forall_prop_of_true hm, List.head?_cons,
          Option.map_some, Option.some.injEq]
    · rw [if_neg hm, and_iff_right fun h => absurd h hm]
      exact List.append_right_inj _

end Run

/-! ### The result -/

section Result

variable {ndebug collect : Bool} {os : List (Opt V)} {gs : List Group} {words : List Str}

/-- The arguments of a group are not empty. -/
theorem nil_not_mem_pieces {g : Group} (h : ∀ w ∈ g.words, IsWord ' ' w) : [] ∉ g.pieces.tail := by
  intro hmem
  rw [Group.pieces] at hmem
  split at hmem
  · exact (isWord_of_mem_tokens (List.mem_of_mem_tail hmem)).1 rfl
  · exact (h [] (List.mem_cons_of_mem _ hmem)).1 rfl

/-- The words that are collected are words of the groups. -/
theorem mem_shown {next : Option Str} {w : Str} (h : w ∈ shown os next gs) :
    (∃ g ∈ gs, w ∈ g.words) ∨ w ∈ next := by
  induction gs with
  | nil => cases h
  | cons g gs ih =>
    rw [shown, List.mem_append] at h
    obtain h | h := h
    · split at h
      · rw [Option.mem_toList] at h
        cases gs with
        | nil => exact .inr h
        | cons g' gs =>
          obtain rfl := Option.some.inj h
          exact .inl ⟨g', by simp, List.mem_cons_self⟩
      · split at h
        · exact .inl ⟨g, List.mem_cons_self, h⟩
        · cases h
    · exact (ih h).imp_left fun ⟨g', hg', hw⟩ => ⟨g', List.mem_cons_of_mem _ hg', hw⟩

/-- What the groups should lead to. -/
def GroupsOk (ndebug : Bool) (os : List (Opt V)) (collect : Bool) (gs : List Group) : Prop :=
  ∃ status p, runGroups ndebug ⟨os, [], collect⟩ gs = some (status, p) ∧
    match status with
    | .ok () =>
      (∀ (k : ℕ) (o : Opt V), os[k]? = some o → ∃ o', p.options_[k]? = some o' ∧
          o.Settled (forOption os k gs) o') ∧
        (collect = true → p.unknownOptions_ = unwords ' ' (unknownWords os gs))
    | .error _ => p.options_ = os

theorem optionsAfter_nil (os : List (Opt V)) : optionsAfter os [] = os := by
  refine List.ext_getElem? fun k => ?_
  rw [getElem?_optionsAfter]
  cases os[k]? <;> rfl

theorem Followed.of_append {run : List Group} (h : Followed (run ++ gs)) : Followed gs := by
  induction run with
  | nil => exact h
  | cons g run ih => exact ih h.2

/-- **Groups that all pass** lead to what they should exactly if their arguments can be read, and
what is collected is right. -/
theorem groupsOk_iff_of_passes (hfresh : ∀ o ∈ os, o.Fresh)
    (hgs : ∀ g ∈ gs, passes os collect g = true)
    (hwords : ∀ g ∈ gs, ∀ w ∈ g.words, IsWord ' ' w) :
    GroupsOk ndebug os collect gs ↔
      (∀ (k : ℕ) (o : Opt V), os[k]? = some o → o.Readable (forOption os k gs)) ∧
        (collect = true → Followed gs) := by
  have hstart : (⟨os, [], collect⟩ : OptionParser V) = ⟨optionsAfter os [], [], collect⟩ := by
    rw [optionsAfter_nil]
  by_cases hend : ∃ g ∈ gs.getLast?, g.Malformed
  · -- the end of the words is read
    obtain ⟨g, hg, hm⟩ := hend
    obtain ⟨run, rfl⟩ := List.getLast?_eq_some_iff.1 hg
    have hcollect : collect = true := by
      have hpass := hgs g (by simp)
      rw [passes, recognises_of_malformed hm, Bool.and_eq_true] at hpass
      exact hpass.1
    have hrun : runGroups ndebug ⟨os, [], collect⟩ (run ++ [g]) = none := by
      rw [hstart, runGroups_run ndebug [] [g] [] (fun g' hg' => hgs g' (List.mem_append_left _ hg'))
        fun _ _ _ => List.cons_ne_nil _ _]
      exact runGroups_end hm hcollect
    refine iff_of_false ?_ ?_
    · rintro ⟨status, p, hr, -⟩
      rw [hrun] at hr
      cases hr
    · rintro ⟨-, hfollowed⟩
      have hlast := (hfollowed hcollect).of_append.1 hm
      cases hlast
  · have hlast : ∀ g ∈ gs.getLast?, ¬g.Malformed := fun g hg hm => hend ⟨g, hg, hm⟩
    have hrun : runGroups ndebug ⟨os, [], collect⟩ gs =
        some (.ok (), ⟨optionsAfter os gs, unwords ' ' (shown os none gs), collect⟩) := by
      have := runGroups_run ndebug [] [] [] hgs fun g hg hm => absurd hm (hlast g hg)
      rw [← hstart, List.append_nil] at this
      exact this
    have hsettled : ∀ (k : ℕ) (o : Opt V), os[k]? = some o →
        ((∃ o', (optionsAfter os gs)[k]? = some o' ∧ o.Settled (forOption os k gs) o') ↔
          o.Readable (forOption os k gs)) := fun k o ho => by
      rw [getElem?_optionsAfter, ho, Option.map_some,
        ← settled_after_iff (hfresh o (List.mem_of_getElem? ho)) (takes_forOption hgs ho)]
      exact ⟨fun ⟨o', heq, h⟩ => by rwa [Option.some.inj heq], fun h => ⟨_, rfl, h⟩⟩
    have hshown : unwords ' ' (shown os none gs) = unwords ' ' (unknownWords os gs) ↔
        Followed gs := by
      rw [unwords_inj, shown_eq_iff hlast]
      · intro w hw
        obtain ⟨g, hg, hw⟩ | hw := mem_shown hw
        · exact hwords g hg w hw
        · cases hw
      · intro w hw
        obtain ⟨g, hg, hw⟩ := List.mem_flatMap.1 hw
        split at hw
        · exact hwords g hg w hw
        · cases hw
    rw [GroupsOk, hrun]
    constructor
    · rintro ⟨status, p, hr, hok⟩
      cases hr
      exact ⟨fun k o ho => (hsettled k o ho).1 (hok.1 k o ho), fun h => hshown.1 (hok.2 h)⟩
    · rintro ⟨hread, hfollowed⟩
      exact ⟨_, _, rfl, fun k o ho => (hsettled k o ho).2 (hread k o ho),
        fun h => hshown.2 (hfollowed h)⟩

/-- **Groups of which one does not pass** lead to what they should exactly if it has a piece, and
those in front of it store nothing. -/
theorem groupsOk_iff_of_stop (ndebug : Bool) (rest : List Group) {g : Group}
    (hfresh : ∀ o ∈ os, o.Fresh)
    (hrun : ∀ g ∈ run, passes os collect g = true) (hg : passes os collect g = false)
    (hwords : ∀ g ∈ run, ∀ w ∈ g.words, IsWord ' ' w) :
    GroupsOk ndebug os collect (run ++ g :: rest) ↔ g.pieces ≠ [] ∧
      ∀ (k : ℕ) (o : Opt V), os[k]? = some o → o.StoresNothing (forOption os k run) := by
  have hstart : (⟨os, [], collect⟩ : OptionParser V) = ⟨optionsAfter os [], [], collect⟩ := by
    rw [optionsAfter_nil]
  obtain ⟨hnil, hne⟩ := runGroups_stop ndebug run rest
    (unwords ' ' (shown os (some g.word) run)) hg
  have hrun' : runGroups ndebug ⟨os, [], collect⟩ (run ++ g :: rest) = runGroups ndebug
      ⟨optionsAfter os run, unwords ' ' (shown os (some g.word) run), collect⟩ (g :: rest) := by
    rw [hstart, runGroups_run ndebug [] (g :: rest) [] hrun fun _ _ _ => List.cons_ne_nil _ _]
    rfl
  have hoptions : (OptionParser.reset ⟨optionsAfter os run,
      unwords ' ' (shown os (some g.word) run), collect⟩).options_ = os ↔
        ∀ (k : ℕ) (o : Opt V), os[k]? = some o → o.StoresNothing (forOption os k run) := by
    have hiff : ∀ (k : ℕ) (o : Opt V), os[k]? = some o →
        ((o.after (forOption os k run)).reset = o ↔ o.StoresNothing (forOption os k run)) :=
      fun k o ho => by
        refine reset_after_iff (hfresh o (List.mem_of_getElem? ho)) (takes_forOption hrun ho) ?_
        intro ps hps
        obtain ⟨g', hg', rfl⟩ := List.mem_map.1 hps
        exact nil_not_mem_pieces (hwords g' (List.mem_filter.1 hg').1)
    have hget : ∀ k, ((optionsAfter os run).map Opt.reset)[k]? =
        os[k]?.map fun o : Opt V => (o.after (forOption os k run)).reset := fun k => by
      rw [List.getElem?_map, getElem?_optionsAfter, Option.map_map]
      rfl
    constructor
    · intro heq k o ho
      have hk := hget k
      rw [show (optionsAfter os run).map Opt.reset = os from heq, ho, Option.map_some] at hk
      exact (hiff k o ho).1 (Option.some.inj hk).symm
    · intro hstores
      refine List.ext_getElem? fun k => (hget k).trans ?_
      cases ho : os[k]? with
      | none => rfl
      | some o => exact congrArg some ((hiff k o ho).2 (hstores k o ho))
  rw [GroupsOk, hrun', ← hoptions]
  constructor
  · rintro ⟨status, p, hr, hok⟩
    have hpieces : g.pieces ≠ [] := fun h => by
      rw [hnil h] at hr
      cases hr
    obtain ⟨text, htext⟩ := hne hpieces
    rw [htext] at hr
    cases hr
    exact ⟨hpieces, hok⟩
  · rintro ⟨hpieces, hok⟩
    obtain ⟨text, htext⟩ := hne hpieces
    exact ⟨_, _, htext, hok⟩

/-- A word in front of the first option that is collected: the loop does not move on. -/
theorem loop_bare {word : Str} (hword : isOption word = false) (words : List Str) (turns : ℕ)
    {p : OptionParser V} (hp : p.collectUnknown_ = true) :
    loop (parseTurn ndebug) turns (word :: words, p) = none := by
  induction turns generalizing p with
  | zero => rfl
  | succ turns ih =>
    have hturn : parseTurn ndebug (word :: words, p) =
        some (.inl (word :: words, p.addUnknown word)) := by
      rw [parseTurn, if_neg (by simp [hword]), if_pos hp]
    rw [loop, hturn]
    exact ih hp

/-- **`ParseOptions` returns** what the groups lead to, if a string starts with an option. -/
theorem parseOptions_eq (ndebug : Bool) (p : OptionParser V) {options : Option Str}
    (hbare : (groupsOf (tokenize options ' ')).1 = []) (r : Except Str Unit × OptionParser V) :
    (∃ turns, parseOptions ndebug turns p options = some r) ↔
      runGroups ndebug p (groupsOf (tokenize options ' ')).2 = some r := by
  have hwf := (groupsOf_wf (tokenize options ' ')).2
  have hcover := groupsOf_words (tokenize options ' ')
  rw [hbare, List.nil_append] at hcover
  by_cases hnil : tokenize options ' ' = []
  · simp [parseOptions, hnil, groupsOf, runGroups]
  · have hloop := fun turns => loop_eq ndebug turns hwf p
    rw [hcover] at hloop
    constructor
    · rintro ⟨turns, hr⟩
      rw [parseOptions, if_neg hnil] at hr
      exact (hloop turns).2 r hr
    · intro hr
      refine ⟨(groupsOf (tokenize options ' ')).2.length + 1, ?_⟩
      rw [parseOptions, if_neg hnil, (hloop _).1 (Nat.lt_succ_self _), hr]

/-- A word in front of the first option is collected for ever, or refused. -/
theorem parseOk_iff_of_bare (hfresh : ∀ o ∈ os, o.Fresh) {options : Option Str}
    (hbare : (groupsOf (tokenize options ' ')).1 ≠ []) :
    ParseOk ndebug os collect options ↔ collect = false := by
  obtain ⟨word, words, hword, htokens⟩ : ∃ word words, isOption word = false ∧
      tokenize options ' ' = word :: words := by
    obtain ⟨word, bare, heq⟩ := List.exists_cons_of_ne_nil hbare
    have hcover := groupsOf_words (tokenize options ' ')
    have hbare' := (groupsOf_wf (tokenize options ' ')).1
    rw [heq] at hcover hbare'
    exact ⟨word, _, hbare' word List.mem_cons_self, hcover.symm⟩
  have hrun : ∀ turns, parseOptions ndebug turns ⟨os, [], collect⟩ options =
      loop (parseTurn ndebug) turns (word :: words, ⟨os, [], collect⟩) := fun turns => by
    rw [parseOptions, htokens, if_neg (List.cons_ne_nil _ _)]
  cases collect with
  | true =>
    refine iff_of_false ?_ nofun
    rintro ⟨turns, status, p, hr, -⟩
    rw [hrun, loop_bare hword words turns rfl] at hr
    cases hr
  | false =>
    have hreset : os.map Opt.reset = os := by
      refine (List.map_congr_left fun o ho => ?_).trans (List.map_id os)
      obtain ⟨name_, is_set_, kind⟩ := o
      obtain rfl : is_set_ = false := (hfresh _ ho).1
      rfl
    refine iff_of_true ⟨1, .error (unknownOption word), OptionParser.reset ⟨os, [], false⟩, ?_,
      hreset⟩ rfl
    rw [hrun, loop, parseTurn, if_neg (by simp [hword])]
    rfl

/-- **What the option parser does with a string** is what it should do exactly for the clean
strings; and `ProcessTokens` of every option consumes all tokens on success. -/
theorem parseOptions_ok_iff (ndebug : Bool) {os : List (Opt V)} (hfresh : ∀ o ∈ os, o.Fresh)
    (collect : Bool) (options : Option Str) :
    (∀ o : Opt V, ∀ tokens left o', o.processTokens ndebug tokens = some (.ok left, o') →
        left = []) ∧
      (ParseOk ndebug os collect options ↔ Clean os collect options) := by
  refine ⟨fun o tokens left o' h => processTokens_consumes h, ?_⟩
  by_cases hbare : (groupsOf (tokenize options ' ')).1 = []
  swap
  · rw [Clean, if_pos hbare]
    exact parseOk_iff_of_bare hfresh hbare
  have hcover := groupsOf_words (tokenize options ' ')
  rw [hbare, List.nil_append] at hcover
  have hwords : ∀ g ∈ (groupsOf (tokenize options ' ')).2, ∀ w ∈ g.words, IsWord ' ' w := by
    intro g hg w hw
    have hmem : w ∈ tokenize options ' ' := hcover ▸ List.mem_flatMap.2 ⟨g, hg, hw⟩
    cases options with
    | none => cases hmem
    | some str => exact isWord_of_mem_tokens hmem
  have hparse : ParseOk ndebug os collect options ↔
      GroupsOk ndebug os collect (groupsOf (tokenize options ' ')).2 := by
    rw [ParseOk, GroupsOk]
    simp only [hbare, List.nil_append, ← parseOptions_eq ndebug _ hbare]
    constructor
    · rintro ⟨turns, status, p, hr, hok⟩
      exact ⟨status, p, ⟨turns, hr⟩, hok⟩
    · rintro ⟨status, p, ⟨turns, hr⟩, hok⟩
      exact ⟨turns, status, p, hr, hok⟩
  rw [hparse, Clean, if_neg (not_not.2 hbare)]
  generalize (groupsOf (tokenize options ' ')).2 = gs at hwords
  have hsplit := List.takeWhile_append_dropWhile (p := passes os collect) (l := gs)
  have hrun : ∀ g ∈ gs.takeWhile (passes os collect), passes os collect g = true := fun g hg =>
    List.all_eq_true.1 List.all_takeWhile g hg
  have hstop := List.head?_dropWhile_not (passes os collect) gs
  cases hdrop : gs.dropWhile (passes os collect) with
  | nil =>
    rw [hdrop, List.append_nil] at hsplit
    rw [hsplit] at hrun
    exact groupsOk_iff_of_passes hfresh hrun hwords
  | cons g rest =>
    rw [hdrop] at hsplit hstop
    have hrun_words : ∀ g ∈ gs.takeWhile (passes os collect), ∀ w ∈ g.words, IsWord ' ' w :=
      fun g hg => hwords g (hsplit ▸ List.mem_append_left _ hg)
    have hiff := groupsOk_iff_of_stop ndebug rest hfresh hrun hstop hrun_words
    rw [hsplit] at hiff
    exact hiff

end Result

/-! ### Registered options -/

/-- The options that calls to `AddOption` register. -/
def registered (options : List (Opt V)) : List (Opt V) :=
  (options.foldl (fun p o => (p.addOption (some o)).2) (⟨[], [], false⟩ : OptionParser V)).options_

/-- **Every registered option is found by its name**, unless it is a prefix. -/
theorem findIdx?_registered (options : List (Opt V)) {i : ℕ} {o : Opt V}
    (ho : (registered options)[i]? = some o) (hkind : ∀ values_, o.kind ≠ .prefixed values_) :
    (registered options).findIdx? (·.accept o.name_) = some i := by
  induction options using List.reverseRecOn generalizing i o with
  | nil => cases ho
  | append_singleton options new ih =>
    have hsnoc : registered (options ++ [new]) = registered options ∨
        (registered options).findIdx? (·.accept new.name_) = none ∧
          registered (options ++ [new]) = registered options ++ [new] := by
      rw [registered, List.foldl_append, List.foldl_cons, List.foldl_nil, OptionParser.addOption]
      split
      · exact .inl rfl
      · split
        · exact .inl rfl
        · rename_i h
          exact .inr ⟨not_not.1 h, rfl⟩
    obtain hsame | ⟨hnone, hnew⟩ := hsnoc
    · rw [hsame] at ho ⊢
      exact ih ho hkind
    · rw [hnew] at ho ⊢
      rw [List.findIdx?_append]
      rcases Nat.lt_or_ge i (registered options).length with hi | hi
      · rw [List.getElem?_append_left hi] at ho
        rw [ih ho hkind]
        rfl
      · rw [List.getElem?_append_right hi, List.getElem?_singleton] at ho
        split at ho
        · rename_i hzero
          obtain rfl := Option.some.inj ho
          have haccept : new.accept new.name_ = true := by
            rw [Opt.accept]
            split
            · rename_i values_ h
              exact absurd h (hkind values_)
            · exact beq_self_eq_true _
          rw [hnone, List.findIdx?_singleton, haccept]
          simp only [if_true, Option.map_some, Option.none_or]
          exact congrArg some (by omega)
        · cases ho

/-- `std::string`: the first word between blanks. -/
def stringReader : Reader Str :=
  { extract := fun token =>
      match token.dropWhile Char.isWhitespace with
      | [] => none
      | cs => some (cs.takeWhile fun c => !c.isWhitespace)
    failed := id }

/-- The options of `LoaderOptions` of `src/src/drive/loader/Executable.cpp`. -/
def loaderOptions : List (Opt Str) :=
  registered ((["help", "dump-code", "dump-isa", "dump-exec", "dump-all"].map fun name_ =>
      { name_ := name_.toList, kind := .noArg }) ++
    [{ name_ := "dump-dir".toList, kind := .value stringReader [] },
      { name_ := "substitute".toList, kind := .prefixed [] }])

theorem findIdx?_registered_loader :
    loaderOptions.findIdx? (·.accept "dump-dir".toList) = some 5 :=
  findIdx?_registered _ (i := 5)
    (o := { name_ := "dump-dir".toList, kind := .value stringReader [] }) rfl (by simp)

theorem loaderOptions_fresh : ∀ o ∈ loaderOptions, o.Fresh := by
  have heq : loaderOptions = (["help", "dump-code", "dump-isa", "dump-exec", "dump-all"].map
      fun name_ => { name_ := name_.toList, kind := .noArg }) ++
        [{ name_ := "dump-dir".toList, kind := .value stringReader [] },
          { name_ := "substitute".toList, kind := .prefixed [] }] := by
    rfl
  rw [heq]
  simp [Opt.Fresh]

/-- The loader's options, and a string that sets two of them. -/
theorem parseOptions_ok_iff_loader :
    (∀ o : Opt Str, ∀ tokens left o', o.processTokens false tokens = some (.ok left, o') →
        left = []) ∧
      (ParseOk false loaderOptions false (some "-dump-dir=/tmp -help".toList) ↔
        Clean loaderOptions false (some "-dump-dir=/tmp -help".toList)) :=
  parseOptions_ok_iff false loaderOptions_fresh false (some "-dump-dir=/tmp -help".toList)

/-- **A lone dash has no piece**, and the first one is read. -/
theorem lone_dash_undefined :
    ¬ParseOk false loaderOptions false (some "-".toList) ∧
      ¬ParseOk true loaderOptions false (some "-".toList) := by
  have hnone : ∀ ndebug turns,
      parseOptions ndebug turns ⟨loaderOptions, [], false⟩ (some "-".toList) = none := by
    rintro ndebug (_ | turns)
    · rfl
    · rfl
  constructor
  · rintro ⟨turns, status, p, hr, -⟩
    rw [hnone] at hr
    cases hr
  · rintro ⟨turns, status, p, hr, -⟩
    rw [hnone] at hr
    cases hr

/-- **A word that is collected** keeps the loop where it is. -/
example (turns : ℕ) : parseOptions true turns ⟨loaderOptions, [], true⟩ (some "x".toList) = none :=
  loop_bare rfl [] turns rfl

end Codrive.Options
