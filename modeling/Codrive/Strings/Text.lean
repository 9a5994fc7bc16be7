/-
# Strings and character sets

What `src/src/common/utils/lang/string.cpp` does with the characters of a string:
`StringHasChar`, `StringTrimLeft`, `StringTrimRight`, `StringTrim` and `fmt`, and `inRange` of
`src/src/common/utils/lang/lang.h`.
-/

import Mathlib.Data.List.TakeWhile

namespace Codrive.Strings

/-- `std::string`. -/
abbrev Str := List Char

/-- A fact about each character of a string, decided one by one. -/
theorem forall_mem_of_all {s : Str} {p : Char → Prop} [DecidablePred p]
    (h : s.all (fun c => decide (p c)) = true) : ∀ c ∈ s, p c :=
  fun c hc => of_decide_eq_true (List.all_eq_true.1 h c hc)

/-- `fmt`, of the text that the format gives: the buffer has 1024 characters, and one is the end. -/
def fmt (text : Str) : Str := text.take 1023

/-- A C string: what is in front of the first NUL. -/
def cStr (s : Str) : Str := s.takeWhile (· ≠ '\x00')

theorem cStr_cStr (s : Str) : cStr (cStr s) = cStr s := by
  rw [cStr, cStr, List.takeWhile_takeWhile]
  simp

/-- `inRange`. -/
def inRange (value min max : ℕ) : Bool := min ≤ value && value ≤ max

/-- `StringHasChar`. -/
def stringHasChar (set : Str) (c : Char) : Bool := set.contains c

/-- `StringTrimLeft`. -/
def stringTrimLeft (s set : Str) : Str := s.dropWhile (stringHasChar set)

/-- `StringTrimRight`. -/
def stringTrimRight (s set : Str) : Str := (s.reverse.dropWhile (stringHasChar set)).reverse

/-- The set that the declarations of `string.h` give where there is none. -/
def whitespace : Str := [' ', '\t', '\n', '\r']

/-- `StringTrim`. -/
def stringTrim (s set : Str) : Str := stringTrimRight (stringTrimLeft s set) set

end Codrive.Strings
