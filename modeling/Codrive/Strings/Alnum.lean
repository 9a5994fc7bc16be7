/-
# Alphanumeric names of integers

`StringIntToAlnum` and `StringAlnumToInt` of `src/src/common/utils/lang/string.cpp`: integers
written in base 62.

| here | source |
|---|---|
| `ℕ` below `2 ^ 32` | `unsigned` |
| a count `n` in `alnumToIntFrom` | the index `i = n - 1`, from the last character down |
| `none` of `stringIntToAlnum` | an access outside the string |

The encoder takes the digits from the low end, which are those of `Nat.digits` (`intToDigits_eq`),
and mirrors them in place; the decoder adds them up with a weight that wraps, which is their value
modulo `2 ^ 32` (`alnumToIntFrom_eq`).  Reading a name back gives the integer, writing an integer
down gives its name back (`alnum_round_trips`).
-/

import Codrive.Basis.InPlace
import Codrive.Basis.Machine
import Codrive.Strings.Text
import Mathlib.Data.Nat.Digits.Lemmas

namespace Codrive.Strings

open Codrive.Basis

/-! ### Writing -/

/-- The character of a digit. -/
def alnumChar (digit : ℕ) : Char :=
  if inRange digit 0 9 then Char.ofNat ('0'.toNat + digit)
  else if inRange digit 10 35 then Char.ofNat (digit - 10 + 'a'.toNat)
  else Char.ofNat (digit - 36 + 'A'.toNat)

/-- `while (value)`, with what is in `result`. -/
def intToDigits (value : ℕ) (result : Str) : Str :=
  if value = 0 then result else intToDigits (value / 62) (result ++ [alnumChar (value % 62)])
termination_by value
decreasing_by omega

/-- `StringIntToAlnum`. -/
def stringIntToAlnum (value : ℕ) : Option Str := mirror (intToDigits value [])

theorem intToDigits_eq (value : ℕ) (result : Str) :
    intToDigits value result = result ++ (Nat.digits 62 value).map alnumChar := by
  induction value using Nat.strong_induction_on generalizing result with
  | _ value ih =>
    rw [intToDigits]
    by_cases hzero : value = 0
    · rw [if_pos hzero, hzero, Nat.digits_zero, List.map_nil, List.append_nil]
    · rw [if_neg hzero, ih (value / 62) (by omega), Nat.digits_eq_cons_digits_div (by omega) hzero,
        List.map_cons, List.append_assoc, List.singleton_append]

theorem stringIntToAlnum_eq (value : ℕ) :
    stringIntToAlnum value = some ((Nat.digits 62 value).map alnumChar).reverse := by
  rw [stringIntToAlnum, mirror_eq, intToDigits_eq, List.nil_append]

/-! ### Reading -/

/-- The digit of a character, `none` where `StringAlnumToInt` gives up. -/
def alnumDigit (c : Char) : Option ℕ :=
  if inRange c.toNat '0'.toNat '9'.toNat then some (c.toNat - '0'.toNat)
  else if inRange c.toNat 'a'.toNat 'z'.toNat then some (c.toNat - 'a'.toNat + 10)
  else if inRange c.toNat 'A'.toNat 'Z'.toNat then some (c.toNat - 'A'.toNat + 36)
  else none

/-- The loop of `StringAlnumToInt` over the first `n` characters. -/
def alnumToIntFrom (s : Str) : ℕ → ℕ → ℕ → ℕ
  | 0, _, result => result
  | n + 1, power, result =>
    match (s[n]?).bind alnumDigit with
    | none => 0
    | some digit =>
      alnumToIntFrom s n (wrap 32 (power * 62)) (wrap 32 (result + wrap 32 (digit * power)))

/-- `StringAlnumToInt`; the index is an `int`. -/
def stringAlnumToInt (s : Str) : ℕ :=
  if s.isEmpty then 0
  else alnumToIntFrom s (Int.bmod (s.length - 1) (2 ^ 32) + 1).toNat 1 0

/-! ### The base-62 value of a name -/

/-- The alphabet, in the order of the digits. -/
def alnums : Str :=
  ['0', '1', '2', '3', '4', '5', '6', '7', '8', '9', 'a', 'b', 'c', 'd', 'e', 'f', 'g', 'h', 'i',
    'j', 'k', 'l', 'm', 'n', 'o', 'p', 'q', 'r', 's', 't', 'u', 'v', 'w', 'x', 'y', 'z', 'A', 'B',
    'C', 'D', 'E', 'F', 'G', 'H', 'I', 'J', 'K', 'L', 'M', 'N', 'O', 'P', 'Q', 'R', 'S', 'T', 'U',
    'V', 'W', 'X', 'Y', 'Z']

/-- The digits of a name, the last one first. -/
def alnumDigits (s : Str) : List ℕ := s.reverse.map alnums.idxOf

/-- The value of a name in base 62. -/
def alnumValue (s : Str) : ℕ := Nat.ofDigits 62 (alnumDigits s)

theorem alnumDigit_of_mem : ∀ c ∈ alnums, alnumDigit c = some (alnums.idxOf c) :=
  forall_mem_of_all (by decide)

theorem alnumChar_idxOf : ∀ c ∈ alnums, alnumChar (alnums.idxOf c) = c :=
  forall_mem_of_all (by decide)

theorem idxOf_alnumChar : ∀ d < 62, alnumChar d ∈ alnums ∧ alnums.idxOf (alnumChar d) = d := by
  decide

theorem idxOf_lt {c : Char} (h : c ∈ alnums) : alnums.idxOf c < 62 := List.idxOf_lt_length_of_mem h

/-- **What the decoder adds up**: the value of the characters that are left, at the weight reached.
-/
theorem alnumToIntFrom_eq {s : Str} (hs : ∀ c ∈ s, c ∈ alnums) (n power result : ℕ)
    (hn : n ≤ s.length) (hresult : result < 2 ^ 32) :
    alnumToIntFrom s n power result = wrap 32 (result + power * alnumValue (s.take n)) := by
  induction n generalizing power result with
  | zero =>
    rw [alnumToIntFrom, List.take_zero, alnumValue, alnumDigits, List.reverse_nil, List.map_nil,
      Nat.ofDigits_nil, Nat.mul_zero, Nat.add_zero, wrap_of_lt hresult]
  | succ n ih =>
    have hmem : s[n] ∈ s := List.getElem_mem (by omega)
    have hchar : s[n]? = some s[n] := List.getElem?_eq_getElem (by omega)
    have hvalue : alnumValue (s.take (n + 1)) =
        alnums.idxOf s[n] + 62 * alnumValue (s.take n) := by
      rw [alnumValue, alnumDigits, List.take_succ_eq_append_getElem (by omega), List.reverse_append,
        List.reverse_singleton, List.singleton_append, List.map_cons, Nat.ofDigits_cons]
      rfl
    have hweight : (wrap 32 (result + wrap 32 (alnums.idxOf s[n] * power)) +
        wrap 32 (power * 62) * alnumValue (s.take n)) % 2 ^ 32 =
        (result + power * alnumValue (s.take (n + 1))) % 2 ^ 32 := by
      rw [hvalue, Nat.mul_add, ← Nat.mul_assoc, ← Nat.add_assoc,
        Nat.mul_comm power (alnums.idxOf _)]
      exact Nat.ModEq.add ((Nat.mod_modEq _ _).trans (Nat.ModEq.add_left _ (Nat.mod_modEq _ _)))
        (Nat.ModEq.mul_right _ (Nat.mod_modEq _ _))
    rw [alnumToIntFrom, hchar, Option.bind_some, alnumDigit_of_mem _ (hs _ hmem)]
    exact (ih _ _ (by omega) (wrap_lt 32 _)).trans hweight

/-- **What the decoder returns** for a name of a length that an `int` holds. -/
theorem stringAlnumToInt_eq {s : Str} (hs : ∀ c ∈ s, c ∈ alnums) (hlen : s.length < 2 ^ 31) :
    stringAlnumToInt s = wrap 32 (alnumValue s) := by
  cases s with
  | nil => rfl
  | cons c cs =>
    have hlast : (Int.bmod ((c :: cs).length - 1) (2 ^ 32) + 1).toNat = (c :: cs).length := by
      rw [Int.bmod_eq_of_le (by omega) (by omega)]
      omega
    rw [stringAlnumToInt, if_neg (by simp), hlast, alnumToIntFrom_eq hs _ _ _ (Nat.le_refl _)
      (by decide), List.take_length, Nat.one_mul, Nat.zero_add]

/-! ### Round trips -/

theorem alnumDigits_map {digits : List ℕ} (h : ∀ d ∈ digits, d < 62) :
    alnumDigits (digits.map alnumChar).reverse = digits := by
  rw [alnumDigits, List.reverse_reverse, List.map_map]
  exact (List.map_congr_left fun d hd => (idxOf_alnumChar d (h d hd)).2).trans (List.map_id _)

/-- The name of an integer has its value. -/
theorem alnumToInt_digits {v : ℕ} (hv : v < 2 ^ 32) :
    stringAlnumToInt ((Nat.digits 62 v).map alnumChar).reverse = v := by
  have hdigit : ∀ d ∈ Nat.digits 62 v, d < 62 := fun d hd => Nat.digits_lt_base (by omega) hd
  have hlen : (Nat.digits 62 v).length ≤ 6 :=
    (Nat.digits_length_le_iff (by omega) v).2 (by omega)
  rw [stringAlnumToInt_eq, alnumValue, alnumDigits_map hdigit, Nat.ofDigits_digits, wrap_of_lt hv]
  · intro c hc
    obtain ⟨d, hd, rfl⟩ := List.mem_map.1 (List.mem_reverse.1 hc)
    exact (idxOf_alnumChar d (hdigit d hd)).1
  · rw [List.length_reverse, List.length_map]
    omega

/-- A name without a leading 0 is made of the digits of its value. -/
theorem digits_alnumValue {s : Str} (hs : ∀ c ∈ s, c ∈ alnums) (hhead : s.head? ≠ some '0') :
    Nat.digits 62 (alnumValue s) = alnumDigits s := by
  refine Nat.digits_ofDigits 62 (by omega) _ ?_ ?_
  · intro d hd
    obtain ⟨c, hc, rfl⟩ := List.mem_map.1 hd
    exact idxOf_lt (hs c (List.mem_reverse.1 hc))
  · intro hne hzero
    cases s with
    | nil => exact hne rfl
    | cons c cs =>
      simp only [alnumDigits, List.reverse_cons, List.map_append, List.map_cons, List.map_nil,
        List.getLast_concat] at hzero
      have hc := alnumChar_idxOf c (hs c List.mem_cons_self)
      rw [hzero] at hc
      exact hhead (congrArg some hc.symm)

theorem map_alnumDigits {s : Str} (hs : ∀ c ∈ s, c ∈ alnums) :
    ((alnumDigits s).map alnumChar).reverse = s := by
  rw [alnumDigits, List.map_map, List.map_reverse, List.reverse_reverse]
  exact (List.map_congr_left fun c hc => alnumChar_idxOf c (hs c hc)).trans (List.map_id _)

/-- **Integers and their names.**  Reading the name of an integer gives the integer, the name of
what a name without a leading 0 reads as is that name, if its value is a word, and no two integers
have one name. -/
theorem alnum_round_trips :
    (∀ v < 2 ^ 32, (stringIntToAlnum v).map stringAlnumToInt = some v) ∧
      (∀ s : Str, (∀ c ∈ s, c ∈ alnums) → s.head? ≠ some '0' → alnumValue s < 2 ^ 32 →
        stringIntToAlnum (stringAlnumToInt s) = some s) ∧
      ∀ v < 2 ^ 32, ∀ w < 2 ^ 32, stringIntToAlnum v = stringIntToAlnum w → v = w := by
  have hread : ∀ v < 2 ^ 32, (stringIntToAlnum v).map stringAlnumToInt = some v := by
    intro v hv
    rw [stringIntToAlnum_eq, Option.map_some, alnumToInt_digits hv]
  refine ⟨hread, ?_, ?_⟩
  · intro s hs hhead hvalue
    have hdigits := digits_alnumValue hs hhead
    have hlen : (Nat.digits 62 (alnumValue s)).length ≤ 6 :=
      (Nat.digits_length_le_iff (by omega) _).2 (by omega)
    rw [hdigits, alnumDigits, List.length_map, List.length_reverse] at hlen
    rw [stringAlnumToInt_eq hs (by omega), wrap_of_lt hvalue, stringIntToAlnum_eq, hdigits,
      map_alnumDigits hs]
  · intro v hv w hw h
    have hv := hread v hv
    rw [h, hread w hw] at hv
    exact (Option.some.inj hv).symm

/-- 3843 is the last integer of two characters. -/
theorem alnum_round_trips_zz :
    stringIntToAlnum (stringAlnumToInt ['Z', 'Z']) = some ['Z', 'Z'] ∧
      (stringIntToAlnum 3844).map stringAlnumToInt = some 3844 :=
  ⟨alnum_round_trips.2.1 ['Z', 'Z'] (forall_mem_of_all (by decide)) (by decide) (by decide),
    alnum_round_trips.1 3844 (by omega)⟩

end Codrive.Strings
