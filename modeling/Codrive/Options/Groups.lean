/-
# What the options of a string assign

The words of an option string fall into groups, each an option with the words behind it.  The loop
of `ParseOptions` goes through the groups (`loop_eq`), and each of them is assigned to the first
option that accepts it (`parseGroup_spec`).
-/

import Codrive.Options.Parser

namespace Codrive.Options

open Codrive.Basis

variable {V : Type}

/-! ### Groups -/

/-- An option, without its dash, and the words behind it. -/
structure Group where
  name : Str
  more : List Str

namespace Group

/-- The first word of a group. -/
def word (g : Group) : Str := '-' :: g.name

/-- The words of a group. -/
def words (g : Group) : List Str := g.word :: g.more

/-- `tokens_l2`: a single word is cut at `=`. -/
def pieces (g : Group) : List Str :=
  if g.more = [] then tokenize (some g.name) '=' else g.name :: g.more

/-- A single word with more than one `=`. -/
def Malformed (g : Group) : Prop := g.more = [] ∧ 2 < g.pieces.length

instance (g : Group) : Decidable g.Malformed := inferInstanceAs (Decidable (_ ∧ _))

/-- The words behind an option are none. -/
def Wf (g : Group) : Prop := ∀ w ∈ g.more, isOption w = false

end Group

/-- The words in front of the first option, and the groups. -/
def groupsOf : List Str → List Str × List Group
  | [] => ([], [])
  | word :: words =>
    if isOption word then ([], ⟨word.drop 1, (groupsOf words).1⟩ :: (groupsOf words).2)
    else (word :: (groupsOf words).1, (groupsOf words).2)

theorem word_eq {word : Str} (h : isOption word = true) : '-' :: word.drop 1 = word := by
  cases word with
  | nil => cases h
  | cons c cs =>
    obtain rfl : c = '-' := by simpa [isOption] using h
    rfl

/-- **The groups are the words**, in their order. -/
theorem groupsOf_words (words : List Str) :
    (groupsOf words).1 ++ (groupsOf words).2.flatMap Group.words = words := by
  induction words with
  | nil => rfl
  | cons word words ih =>
    rw [groupsOf]
    split
    · rename_i h
      simp only [List.nil_append, List.flatMap_cons, Group.words, Group.word, word_eq h,
        List.cons_append, ih]
    · rw [List.cons_append, ih]

theorem groupsOf_wf (words : List Str) : (∀ w ∈ (groupsOf words).1, isOption w = false) ∧
    ∀ g ∈ (groupsOf words).2, g.Wf := by
  induction words with
  | nil => exact ⟨nofun, nofun⟩
  | cons word words ih =>
    rw [groupsOf]
    split
    · exact ⟨nofun, List.forall_mem_cons.2 ⟨ih.1, ih.2⟩⟩
    · rename_i h
      exact ⟨List.forall_mem_cons.2 ⟨by simpa using h, ih.1⟩, ih.2⟩

/-- The words behind an option go up to the next group. -/
theorem takeWords_eq {more : List Str} (hmore : ∀ w ∈ more, isOption w = false) (gs : List Group) :
    takeWords (more ++ gs.flatMap Group.words) = (more, gs.flatMap Group.words) := by
  induction more with
  | nil =>
    cases gs with
    | nil => rfl
    | cons g gs =>
      rw [List.nil_append, List.flatMap_cons, Group.words, List.cons_append, takeWords]
      exact if_pos rfl
  | cons w more ih =>
    obtain ⟨hw, hmore⟩ := List.forall_mem_cons.1 hmore
    rw [List.cons_append, takeWords, if_neg (by simp [hw]), ih hmore]

/-- `ParseOptions`, group by group. -/
def runGroups (ndebug : Bool) :
    OptionParser V → List Group → Option (Except Str Unit × OptionParser V)
  | p, [] => some (.ok (), p)
  | p, g :: gs =>
    match parseGroup ndebug p g.word g.more (gs.head?.map Group.word) with
    | none => none
    | some (.inl p) => runGroups ndebug p gs
    | some (.inr r) => some r

/-- A turn of the loop goes through a group. -/
theorem parseTurn_eq (ndebug : Bool) {g : Group} (hg : g.Wf) (gs : List Group)
    (p : OptionParser V) : parseTurn ndebug ((g :: gs).flatMap Group.words, p) =
      match parseGroup ndebug p g.word g.more (gs.head?.map Group.word) with
      | none => none
      | some (.inl p) => some (.inl (gs.flatMap Group.words, p))
      | some (.inr r) => some (.inr r) := by
  have hhead : (gs.flatMap Group.words).head? = gs.head?.map Group.word := by
    cases gs <;> rfl
  rw [List.flatMap_cons, Group.words, List.cons_append, parseTurn, if_pos (by rfl),
    takeWords_eq hg]
  simp only [hhead]
  cases parseGroup ndebug p g.word g.more (gs.head?.map Group.word) with
  | none => rfl
  | some r => cases r <;> rfl

/-- **The loop goes through the groups**: it ends with what they lead to, and ends if it has enough
turns. -/
theorem loop_eq (ndebug : Bool) (turns : ℕ) {gs : List Group} (hgs : ∀ g ∈ gs, g.Wf)
    (p : OptionParser V) :
    (gs.length < turns →
        loop (parseTurn ndebug) turns (gs.flatMap Group.words, p) = runGroups ndebug p gs) ∧
      ∀ r, loop (parseTurn ndebug) turns (gs.flatMap Group.words, p) = some r →
        runGroups ndebug p gs = some r := by
  induction turns generalizing gs p with
  | zero => exact ⟨fun h => absurd h (Nat.not_lt_zero _), nofun⟩
  | succ turns ih =>
    cases gs with
    | nil => exact ⟨fun _ => rfl, fun _ h => h⟩
    | cons g gs =>
      obtain ⟨hg, hgs⟩ := List.forall_mem_cons.1 hgs
      rw [loop, parseTurn_eq ndebug hg, runGroups]
      cases parseGroup ndebug p g.word g.more (gs.head?.map Group.word) with
      | none => exact ⟨fun _ => rfl, fun _ h => h⟩
      | some r =>
        cases r with
        | inl p =>
          obtain ⟨henough, hsome⟩ := ih hgs p
          exact ⟨fun h => henough (Nat.lt_of_succ_lt_succ h), hsome⟩
        | inr r => exact ⟨fun _ => rfl, fun _ h => h⟩

/-! ### What a group assigns -/

/-- The value of a prefix option. -/
def prefixValue (name_ front : Str) (args : List Str) : Str :=
  front.drop (name_.length + 1) ++ args.flatMap fun token => '=' :: token

namespace Opt

/-- The arguments that an option takes. -/
def Takes (o : Opt V) (args : List Str) : Prop :=
  match o.kind with
  | .option _ _ _ => args ≠ []
  | .value _ _ => args.length = 1
  | .choice choices_ _ => args.length = 1 ∧ ∀ token ∈ args, token ∈ choices_
  | .noArg => args = [] ∨ args = [['1']] ∨ args = [['0']]
  | .prefixed _ => True

/-- A token is compared with the choices one by one. -/
def decidableChoice (choices_ : List Str) (token : Str) : Decidable (token ∈ choices_) :=
  decidable_of_iff (∃ choice ∈ choices_, choice = token) (by simp)

instance (o : Opt V) (args : List Str) : Decidable (o.Takes args) := by
  unfold Takes
  have := decidableChoice
  split <;> infer_instance

/-- An option with its arguments. -/
def assign (o : Opt V) (front : Str) (args : List Str) : Opt V :=
  match o.kind with
  | .option reader fresh values_ =>
    { o with
      is_set_ := true
      kind := .option reader fresh (values_ ++ args.map (reader.read fresh)) }
  | .value reader value_ =>
    { o with is_set_ := true, kind := .value reader (args.foldl reader.read value_) }
  | .choice choices_ value_ =>
    { o with is_set_ := true, kind := .choice choices_ (args.foldl (fun _ token => token) value_) }
  | .noArg => { o with is_set_ := decide (args ≠ [['0']]) }
  | .prefixed values_ =>
    { o with is_set_ := true, kind := .prefixed (values_ ++ [prefixValue o.name_ front args]) }

end Opt

theorem pushValues_eq (reader : Reader V) (fresh : V) (values_ : List V) (args : List Str) :
    Opt.pushValues reader fresh values_ args = values_ ++ args.map (reader.read fresh) := by
  induction args generalizing values_ with
  | nil => exact (List.append_nil _).symm
  | cons token args ih => rw [Opt.pushValues, ih, List.append_assoc, List.map_cons,
      List.singleton_append]

theorem foldl_prefix (value : Str) (args : List Str) :
    args.foldl (fun value token => value ++ '=' :: token) value =
      value ++ args.flatMap fun token => '=' :: token := by
  induction args generalizing value with
  | nil => exact (List.append_nil _).symm
  | cons token args ih => rw [List.foldl_cons, ih, List.flatMap_cons, List.append_assoc]

/-- **What `ProcessTokens` does** where its assertion passes: it consumes all the tokens and assigns
those behind the first, or returns false and changes nothing. -/
theorem processTokens_eq {ndebug : Bool} {o : Opt V} {front : Str}
    (h : assert ndebug (o.accept front) = some ()) (args : List Str) :
    o.processTokens ndebug (front :: args) =
      some (if o.Takes args then (.ok [], o.assign front args)
        else (.error (invalidOption o.name_), o)) := by
  simp only [Opt.processTokens, List.head?_cons, Option.bind_eq_bind, Option.bind_some, h,
    List.length_cons, List.tail_cons]
  cases hk : o.kind with
  | option reader fresh values_ =>
    cases args with
    | nil => simp [Opt.Takes, hk]
    | cons token args => simp [Opt.Takes, Opt.assign, hk, pushValues_eq]
  | value reader value_ =>
    rcases args with _ | ⟨token, _ | ⟨token', args⟩⟩ <;> simp [Opt.Takes, Opt.assign, hk]
  | choice choices_ value_ =>
    rcases args with _ | ⟨token, _ | ⟨token', args⟩⟩
    · simp [Opt.Takes, hk]
    · by_cases htoken : token ∈ choices_ <;> simp [Opt.Takes, Opt.assign, hk, htoken]
    · simp [Opt.Takes, hk]
  | noArg =>
    rcases args with _ | ⟨token, _ | ⟨token', args⟩⟩
    · simp [Opt.Takes, Opt.assign, hk]
    · by_cases h1 : token = ['1']
      · simp [Opt.Takes, Opt.assign, hk, h1]
      · by_cases h0 : token = ['0'] <;> simp [Opt.Takes, Opt.assign, hk, h0, h1]
    · simp [Opt.Takes, hk]
  | prefixed values_ =>
    simp only [Opt.Takes, Opt.assign, hk, foldl_prefix, prefixValue, if_true]
    rfl

/-- **`ProcessTokens` consumes all tokens on success.** -/
theorem processTokens_consumes {ndebug : Bool} {o o' : Opt V} {tokens left : List Str}
    (h : o.processTokens ndebug tokens = some (.ok left, o')) : left = [] := by
  cases tokens with
  | nil => cases h
  | cons front args =>
    cases hassert : assert ndebug (o.accept front) with
    | none =>
      rw [Opt.processTokens, List.head?_cons, Option.bind_eq_bind, Option.bind_some, hassert] at h
      cases h
    | some _ =>
      rw [processTokens_eq hassert] at h
      split at h <;> cases h
      rfl

/-! ### Which option a group is assigned to -/

/-- The first option that accepts a group. -/
def recognises (os : List (Opt V)) (g : Group) : Option ℕ :=
  if g.Malformed then none else g.pieces.head?.bind fun front => os.findIdx? (·.accept front)

/-- **What a turn does with a group**: nothing without a piece; else it depends on the option that
accepts it. -/
theorem parseGroup_spec (ndebug : Bool) (p : OptionParser V) (g : Group) (next : Option Str) :
    (g.pieces = [] ∧ parseGroup ndebug p g.word g.more next = none) ∨
    (g.Malformed ∧ recognises p.options_ g = none ∧ parseGroup ndebug p g.word g.more next =
      if p.collectUnknown_ then next.map fun next => .inl (p.addUnknown next)
      else some (.inr (.error (invalidFormat (g.pieces.headD [])), p.reset))) ∨
    (¬g.Malformed ∧ g.pieces ≠ [] ∧ recognises p.options_ g = none ∧
      parseGroup ndebug p g.word g.more next = some
        (if p.collectUnknown_ then .inl (g.words.foldl OptionParser.addUnknown p)
        else .inr (.error (unknownOption (g.pieces.headD [])), p.reset))) ∨
    ∃ i o, recognises p.options_ g = some i ∧ p.options_[i]? = some o ∧
      parseGroup ndebug p g.word g.more next = some
        (if o.Takes g.pieces.tail then
          .inl { p with options_ := p.options_.set i (o.assign (g.pieces.headD []) g.pieces.tail) }
        else .inr (.error (invalidOption o.name_), p.reset)) := by
  have htokens : (if g.more = [] then tokenize (some (g.word.drop 1)) '='
      else g.word.drop 1 :: g.more) = g.pieces := rfl
  simp only [parseGroup, htokens]
  by_cases hm : g.Malformed
  · have hm' : g.more = [] ∧ 2 < g.pieces.length := hm
    refine .inr (.inl ⟨hm, if_pos hm, ?_⟩)
    rw [if_pos hm']
    cases hp : g.pieces with
    | nil => simp [hp] at hm'
    | cons front args =>
      cases p.collectUnknown_ with
      | false => rfl
      | true => cases next <;> rfl
  · have hm' : ¬(g.more = [] ∧ 2 < g.pieces.length) := hm
    rw [if_neg hm']
    cases hp : g.pieces with
    | nil => exact .inl ⟨rfl, rfl⟩
    | cons front args =>
      have hrec : recognises p.options_ g = p.findOption front := by
        rw [recognises, if_neg hm, hp]
        rfl
      simp only [hrec, List.head?_cons, Option.bind_eq_bind, Option.bind_some]
      cases hfind : p.findOption front with
      | none =>
        refine .inr (.inr (.inl ⟨hm, List.cons_ne_nil _ _, rfl, ?_⟩))
        cases p.collectUnknown_ <;> rfl
      | some i =>
        obtain ⟨hi, haccept, -⟩ := List.findIdx?_eq_some_iff_getElem.1 hfind
        refine .inr (.inr (.inr ⟨i, p.options_[i], rfl, List.getElem?_eq_getElem hi, ?_⟩))
        simp only [List.getElem?_eq_getElem hi, Option.bind_some,
          processTokens_eq (assert_of_true haccept), List.tail_cons]
        by_cases htakes : p.options_[i].Takes args
        · rw [if_pos htakes]
          simp only [assert_of_true List.isEmpty_nil, Option.bind_some]
          exact congrArg some (if_pos htakes).symm
        · rw [if_neg htakes]
          simp only [List.set_getElem_self]
          exact congrArg some (if_neg htakes).symm

end Codrive.Options
