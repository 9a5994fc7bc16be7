/-
# Integers in strings

`StringDigitToInt`, `StringToInt` and `StringToInt64` of `src/src/common/utils/lang/string.cpp`.
The two functions are one text over two types: `bits` is the width of the type of `result`.

| here | source |
|---|---|
| `ℤ` from `-2 ^ (bits - 1)` below `2 ^ (bits - 1)` | `int` or `long long`, in two's complement |
| `intMin bits` | `INT_MIN`, `LLONG_MIN` |
| `uintMax bits` | `UINT_MAX`, `ULLONG_MAX` |
| `asUnsigned` | `(unsigned int) result`, in both functions |
| `.error e` | `error = e` and `return 0` |

`num_digits`, which nothing reads, is left out.
-/

import Codrive.Strings.Text
import Mathlib.Algebra.GroupWithZero.Nat
import Mathlib.Algebra.Ring.Int.Defs
import Mathlib.Data.Int.Init

namespace Codrive.Strings

/-- `StringError`. -/
inductive StringError where
  | ok
  | base
  | format
  | range
  deriving DecidableEq, Repr

/-- `StringDigitToInt`. -/
def stringDigitToInt (digit : Char) (base : ℕ) : Except StringError ℕ :=
  -- Check base
  if base ≠ 2 ∧ base ≠ 8 ∧ base ≠ 10 ∧ base ≠ 16 then .error .base
  else
    -- Parse digit
    let digit := digit.toLower
    if '0'.toNat ≤ digit.toNat ∧ digit.toNat ≤ '9'.toNat then
      let result := digit.toNat - '0'.toNat
      if base ≤ result then .error .format else .ok result
    else if 'a'.toNat ≤ digit.toNat ∧ digit.toNat ≤ 'f'.toNat then
      let result := digit.toNat - 'a'.toNat + 10
      if base ≤ result then .error .format else .ok result
    else .error .format

/-- The least number of the signed type. -/
def intMin (bits : ℕ) : ℤ := -2 ^ (bits - 1)

/-- The greatest number of the unsigned type. -/
def uintMax (bits : ℕ) : ℕ := 2 ^ bits - 1

/-- `(unsigned int) result`. -/
def asUnsigned (result : ℤ) : ℕ := (result % 2 ^ 32).toNat

/-- Underflow, overflow, and `result *= factor`. -/
def multiply (bits : ℕ) (sign result : ℤ) (factor : ℕ) : Except StringError ℤ :=
  if sign < 0 ∧ result < (intMin bits).tdiv factor then .error .range
  else if 0 < sign ∧ uintMax bits / factor < asUnsigned result then .error .range
  else .ok (Int.bmod (result * factor) (2 ^ bits))

/-- Underflow, overflow, and `result += digit * sign`. -/
def addDigit (bits : ℕ) (sign result : ℤ) (digit : ℕ) : Except StringError ℤ :=
  if sign < 0 ∧ result < intMin bits + digit then .error .range
  else if 0 < sign ∧ uintMax bits - digit < asUnsigned result then .error .range
  else .ok (Int.bmod (result + digit * sign) (2 ^ bits))

/-- A turn of the loop over the digits. -/
def nextDigit (bits : ℕ) (sign : ℤ) (base : ℕ) (result : ℤ) (c : Char) : Except StringError ℤ := do
  let digit ← stringDigitToInt c base
  let result ← multiply bits sign result base
  addDigit bits sign result digit

/-- The sign, and what is left. -/
def takeSign : Str → ℤ × Str
  | '+' :: s => (1, s)
  | '-' :: s => (-1, s)
  | s => (1, s)

/-- The base, and what is left. -/
def takeBase : Str → ℕ × Str
  | '0' :: 'x' :: s => (16, s)
  | '0' :: c :: s => (8, c :: s)
  | s => (10, s)

/-- The factors of the suffixes. -/
def suffixFactor : Char → Option ℕ
  | 'k' => some 1024
  | 'K' => some 1000
  | 'm' => some (1024 * 1024)
  | 'M' => some (1000 * 1000)
  | 'g' => some (1024 * 1024 * 1024)
  | 'G' => some (1000 * 1000 * 1000)
  | _ => none

/-- The factor, and what is left; suffixes only for base 10. -/
def takeSuffix (base : ℕ) (s : Str) : ℕ × Str :=
  if base = 10 then
    match s.getLast?.bind suffixFactor with
    | some factor => (factor, s.dropLast)
    | none => (1, s)
  else (1, s)

/-- What the functions do with a string that is trimmed. -/
def convert (bits : ℕ) (s : Str) : Except StringError ℤ :=
  let (sign, s) := takeSign s
  let (base, s) := takeBase s
  -- Empty string
  if s.isEmpty then .error .format
  else
    let (factor, s) := takeSuffix base s
    -- Remove leading 0s
    let s := s.dropWhile (· == '0')
    if s.isEmpty then .ok 0
    else do
      let result ← s.foldlM (nextDigit bits sign base) 0
      if factor ≠ 1 then multiply bits sign result factor else .ok result

/-- What is returned, and what is in `error`. -/
def returned : Except StringError ℤ → ℤ × StringError
  | .error error => (0, error)
  | .ok result => (result, .ok)

/-- `StringToInt`. -/
def stringToInt (s : Str) : ℤ × StringError := returned (convert 32 (stringTrim s whitespace))

/-- `StringToInt64`. -/
def stringToInt64 (s : Str) : ℤ × StringError := returned (convert 64 (stringTrim s whitespace))

end Codrive.Strings
