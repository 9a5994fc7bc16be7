/-
# Separators in strings

`StringSingleSpaces` and `StringTokenize` of `src/src/common/utils/lang/string.cpp`.

| here | source |
|---|---|
| `i` | the `unsigned i` of the loop, which wraps |
| `src`, `dest` | the `int` positions, whose `++` must not leave an `int` |
| `token_start` | the `int`, to which `i` is converted |
| `none` of a turn | an access outside the string, or an overflow of an `int` |
-/

import Codrive.Basis.InPlace
import Codrive.Basis.Loop
import Codrive.Basis.Machine
import Codrive.Strings.Text
import Mathlib.Data.Int.Init

namespace Codrive.Strings

open Codrive.Basis

/-- `++` of an `int` that is not negative; what leaves an `int` is undefined. -/
def increment (x : ℕ) : Option ℕ := if x + 1 < 2 ^ 31 then some (x + 1) else none

/-! ### Single spaces -/

/-- The variables of `StringSingleSpaces`. -/
structure Spacing where
  s : Str
  i : ℕ := 0
  src : ℕ := 0
  dest : ℕ := 0
  is_space : Bool := false
  was_space : Bool := false
  started : Bool := false

/-- What the loop does with a character. -/
def Spacing.next (set : Str) (v : Spacing) (c : Char) : Option Spacing :=
  if stringHasChar set c then do
    let src ← increment v.src
    if !v.was_space && v.started then do
      let s ← store v.s v.dest ' '
      let dest ← increment v.dest
      some { v with s := s, src := src, dest := dest, is_space := true }
    else some { v with src := src, is_space := true }
  else do
    let x ← v.s[v.src]?
    let s ← store v.s v.dest x
    let src ← increment v.src
    let dest ← increment v.dest
    some { v with s := s, src := src, dest := dest, is_space := false, started := true }

/-- `s.erase(dest)`, which throws behind the end of the string. -/
def erase (s : Str) (dest : ℕ) : Option Str := if dest ≤ s.length then some (s.take dest) else none

/-- A turn of the loop, or what stands behind it. -/
def Spacing.turn (set : Str) (v : Spacing) : Option (Spacing ⊕ Str) :=
  if v.i < v.s.length then do
    let c ← v.s[v.i]?
    let v ← v.next set c
    some (.inl { v with i := wrap 32 (v.i + 1), was_space := v.is_space })
  else do
    let dest := if v.dest ≠ 0 && v.is_space then v.dest - 1 else v.dest
    let s ← erase v.s dest
    some (.inr s)

/-- `StringSingleSpaces`, in a number of turns: what is in the string afterwards. -/
def stringSingleSpaces (turns : ℕ) (s set : Str) : Option Str :=
  loop (Spacing.turn set) turns { s := s }

/-! ### Tokens -/

/-- The variables of `StringTokenize`. -/
structure Tokenizing where
  tokens : List Str
  i : ℕ := 0
  token_start : ℤ := -1

/-- `s.substr(pos, count)`. -/
def substr (s : Str) (pos count : ℕ) : Str := (s.drop pos).take count

/-- A turn of the loop. -/
def Tokenizing.turn (s set : Str) (v : Tokenizing) : Option (Tokenizing ⊕ List Str) :=
  if v.i ≤ s.length then
    -- End of string
    let is_end := v.i == s.length
    let separator := (s[v.i]?).any (stringHasChar set)
    -- Start a token
    let token_start :=
      if !is_end && !separator && v.token_start == -1 then Int.bmod v.i (2 ^ 32) else v.token_start
    -- End a token
    if -1 < token_start && (is_end || separator) then
      let token := substr s token_start.toNat ((v.i - token_start) % 2 ^ 32).toNat
      some (.inl { tokens := v.tokens ++ [token], i := wrap 32 (v.i + 1), token_start := -1 })
    else
      some (.inl { v with i := wrap 32 (v.i + 1), token_start := token_start })
  else some (.inr v.tokens)

/-- `StringTokenize`, in a number of turns: what is in `tokens` afterwards. -/
def stringTokenize (turns : ℕ) (s : Str) (tokens : List Str) (set : Str) : Option (List Str) :=
  loop (Tokenizing.turn s set) turns { tokens := tokens }

end Codrive.Strings
