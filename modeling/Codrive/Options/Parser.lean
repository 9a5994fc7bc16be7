/-
# The option parser

`StringFactory::Tokenize`, the option classes and `OptionParser` of `src/src/common/options.cpp` and
`src/src/common/options.h`.

| here | source |
|---|---|
| `V` | the types `T` of the options, together |
| `Reader` | `token_stream >> value`, which may fail |
| an index into `options_` | what `FindOption` returns, `none` for `options_.end()` |
| `.error text` | `false`, with what is written to `error()` |
| `none` as a result | a failed assertion, an exception, or the first element of an empty list |

The cursor `tokens_l1i` is the list of the words from there on.  Help texts are left out.
-/

import Codrive.Basis.Loop
import Codrive.Basis.Machine
import Codrive.Basis.Words

namespace Codrive.Options

open Codrive.Basis

/-- `std::string`. -/
abbrev Str := List Char

/-- `StringFactory::Tokenize`; a null pointer is `none`. -/
def tokenize (cstr : Option Str) (delim : Char) : List Str :=
  match cstr with
  | none => []
  | some str => tokens delim str

/-! ### Options -/

/-- `operator>>` of a type: the value of a token, and what is left in a variable that held `old`
where it fails. -/
structure Reader (V : Type) where
  extract : Str → Option V
  failed : V → V

/-- `token_stream >> value`. -/
def Reader.read {V : Type} (r : Reader V) (old : V) (token : Str) : V :=
  (r.extract token).getD (r.failed old)

/-- The classes of options. -/
inductive Kind (V : Type) where
  /-- `Option<T>`; `fresh` is what `T value` is before it is read. -/
  | option (reader : Reader V) (fresh : V) (values_ : List V)
  /-- `ValueOption<T>`. -/
  | value (reader : Reader V) (value_ : V)
  /-- `ChoiceOption`. -/
  | choice (choices_ : List Str) (value_ : Str)
  /-- `NoArgOption`. -/
  | noArg
  /-- `PrefixOption`. -/
  | prefixed (values_ : List Str)

/-- `OptionBase`. -/
structure Opt (V : Type) where
  name_ : Str
  is_set_ : Bool := false
  kind : Kind V

variable {V : Type}

/-- `"error: invalid option: '" << name_`. -/
def invalidOption (name_ : Str) : Str := "error: invalid option: '".toList ++ name_ ++ "'\n".toList

/-- `"error: invalid option format: '"`. -/
def invalidFormat (token : Str) : Str :=
  "error: invalid option format: '".toList ++ token ++ "'\n".toList

/-- `"error: unknown option: '"`. -/
def unknownOption (token : Str) : Str := "error: unknown option: '".toList ++ token ++ "'\n".toList

namespace Opt

/-- `Accept`. -/
def accept (o : Opt V) (token : Str) : Bool :=
  match o.kind with
  | .prefixed _ =>
    token.take o.name_.length == o.name_ && o.name_.length < token.length &&
      token[o.name_.length]? == some ':'
  | _ => o.name_ == token

/-- `IsValid`. -/
def isValid (o : Opt V) : Bool :=
  match o.kind with
  | .prefixed _ => 0 < o.name_.length && !o.name_.contains ':'
  | _ => 0 < o.name_.length

/-- `OptionBase::Reset`. -/
def reset (o : Opt V) : Opt V := { o with is_set_ := false }

/-- The loop of `Option<T>::ProcessTokens`. -/
def pushValues (reader : Reader V) (fresh : V) : List V → List Str → List V
  | values_, [] => values_
  | values_, token :: tokens =>
    pushValues reader fresh (values_ ++ [reader.read fresh token]) tokens

/-- `ProcessTokens`: what it returns, with the tokens it leaves, and the option. -/
def processTokens (ndebug : Bool) (o : Opt V) (tokens : List Str) :
    Option (Except Str (List Str) × Opt V) := do
  let front ← tokens.head?
  assert ndebug (o.accept front)
  match o.kind with
  | .option reader fresh values_ =>
    if 2 > tokens.length then return (.error (invalidOption o.name_), o)
    return (.ok [], { o with
      is_set_ := true, kind := .option reader fresh (pushValues reader fresh values_ tokens.tail) })
  | .value reader value_ =>
    if 2 ≠ tokens.length then return (.error (invalidOption o.name_), o)
    let token ← tokens.tail.head?
    return (.ok tokens.tail.tail, { o with
      is_set_ := true, kind := .value reader (reader.read value_ token) })
  | .choice choices_ _ =>
    if 2 ≠ tokens.length then return (.error (invalidOption o.name_), o)
    let token ← tokens.tail.head?
    if token ∉ choices_ then return (.error (invalidOption o.name_), o)
    return (.ok tokens.tail.tail, { o with is_set_ := true, kind := .choice choices_ token })
  | .noArg =>
    if 1 = tokens.length then return (.ok tokens.tail, { o with is_set_ := true })
    if 2 = tokens.length then
      let token ← tokens.tail.head?
      if token = ['1'] then return (.ok tokens.tail.tail, { o with is_set_ := true })
      if token = ['0'] then return (.ok tokens.tail.tail, { o with is_set_ := false })
    return (.error (invalidOption o.name_), o)
  | .prefixed values_ =>
    let value := tokens.tail.foldl (fun value token => value ++ '=' :: token)
      (front.drop (o.name_.length + 1))
    return (.ok [], { o with is_set_ := true, kind := .prefixed (values_ ++ [value]) })

end Opt

/-! ### The parser -/

/-- `OptionParser`. -/
structure OptionParser (V : Type) where
  options_ : List (Opt V)
  unknownOptions_ : Str := []
  collectUnknown_ : Bool

namespace OptionParser

/-- `FindOption`. -/
def findOption (p : OptionParser V) (name : Str) : Option ℕ := p.options_.findIdx? (·.accept name)

/-- `AddOption`. -/
def addOption (p : OptionParser V) (option : Option (Opt V)) : Bool × OptionParser V :=
  match option with
  | none => (false, p)
  | some o =>
    if !o.isValid then (false, p)
    else if p.findOption o.name_ ≠ none then (false, p)
    else (true, { p with options_ := p.options_ ++ [o] })

/-- `Reset`. -/
def reset (p : OptionParser V) : OptionParser V :=
  { p with unknownOptions_ := [], options_ := p.options_.map Opt.reset }

/-- `unknownOptions_ += word + " "`. -/
def addUnknown (p : OptionParser V) (word : Str) : OptionParser V :=
  { p with unknownOptions_ := p.unknownOptions_ ++ (word ++ [' ']) }

end OptionParser

/-- `'-' == word.at(0)`; no word is empty. -/
def isOption (word : Str) : Bool := word.head? == some '-'

/-- `while (tokens_l1i != tokens_l1.end() && '-' != tokens_l1i->at(0))`: the words up to the next
option, and the rest. -/
def takeWords : List Str → List Str × List Str
  | [] => ([], [])
  | word :: words =>
    if isOption word then ([], word :: words)
    else (word :: (takeWords words).1, (takeWords words).2)

/-- A turn of the loop of `ParseOptions` for an option, with the words behind it and the word that
`tokens_l1i` is at then: the parser for the next turn, or the end. -/
def parseGroup (ndebug : Bool) (p : OptionParser V) (word : Str) (more : List Str)
    (tokens_l1i : Option Str) : Option (OptionParser V ⊕ (Except Str Unit × OptionParser V)) := do
  -- `tokens_l2.front().erase(0, 1)`
  let name := word.drop 1
  let tokens_l2 := if more = [] then tokenize (some name) '=' else name :: more
  if more = [] ∧ 2 < tokens_l2.length then
    if p.collectUnknown_ then
      let next ← tokens_l1i
      return .inl (p.addUnknown next)
    else
      let front ← tokens_l2.head?
      return .inr (.error (invalidFormat front), p.reset)
  else
    let front ← tokens_l2.head?
    match p.findOption front with
    | none =>
      if p.collectUnknown_ then return .inl ((word :: more).foldl OptionParser.addUnknown p)
      else return .inr (.error (unknownOption front), p.reset)
    | some i =>
      let o ← p.options_[i]?
      let (status, o) ← o.processTokens ndebug tokens_l2
      let p := { p with options_ := p.options_.set i o }
      match status with
      | .error text => return .inr (.error text, p.reset)
      | .ok left =>
        assert ndebug left.isEmpty
        return .inl p

/-- A turn of the loop of `ParseOptions`. -/
def parseTurn (ndebug : Bool) : List Str × OptionParser V →
    Option ((List Str × OptionParser V) ⊕ (Except Str Unit × OptionParser V))
  | ([], p) => some (.inr (.ok (), p))
  | (word :: words, p) =>
    if isOption word then do
      let tokens_l1i := (takeWords words).2
      match ← parseGroup ndebug p word (takeWords words).1 tokens_l1i.head? with
      | .inl p => return .inl (tokens_l1i, p)
      | .inr r => return .inr r
    else if p.collectUnknown_ then some (.inl (word :: words, p.addUnknown word))
    else some (.inr (.error (unknownOption word), p.reset))

/-- `OptionParser::ParseOptions`, with at most `turns` turns of its loop. -/
def parseOptions (ndebug : Bool) (turns : ℕ) (p : OptionParser V) (options : Option Str) :
    Option (Except Str Unit × OptionParser V) :=
  let tokens_l1 := tokenize options ' '
  if tokens_l1 = [] then some (.ok (), p) else loop (parseTurn ndebug) turns (tokens_l1, p)

end Codrive.Options
