/-
# What `StringToInt` and `StringToInt64` return

The tests in front of each operation are exact where the type that they compare in holds the result:
`multiply` and `addDigit` refuse exactly what is `Over` the range, which for a positive `long long`
is nothing, since it is compared as an `unsigned int`.  So the loop is decided by the digits in
front of the first character that is none (`foldlM_nextDigit`), and the whole by the parts of the
string (`convert_eq`).

Three kinds of strings are not treated as they should be: numbers from `2 ^ 64` on, which
`StringToInt64` returns modulo `2 ^ 64`; a suffix with nothing to multiply, which is 0; and what is
not a number but overflows before that shows.  On all others the two functions are right
(`converts_iff`).
-/

import Codrive.Strings.Numbers
import Mathlib.Data.List.TakeWhile

namespace Codrive.Strings

variable {bits base factor m n : ℕ} {sign v : ℤ} {c : Char} {s ds : Str}

/-! ### The range tests -/

/-- What the tests of the functions refuse. -/
def Over (bits : ℕ) (sign : ℤ) (n : ℕ) : Prop :=
  if sign < 0 then 2 ^ (bits - 1) < n else bits = 32 ∧ 2 ^ 32 ≤ n

instance (bits : ℕ) (sign : ℤ) (n : ℕ) : Decidable (Over bits sign n) :=
  inferInstanceAs (Decidable (if sign < 0 then 2 ^ (bits - 1) < n else bits = 32 ∧ 2 ^ 32 ≤ n))

/-- The widths of the two types. -/
def Width (bits : ℕ) : Prop := bits = 32 ∨ bits = 64

/-- The two signs. -/
def IsSign (sign : ℤ) : Prop := sign = 1 ∨ sign = -1

/-- A number as it is in `result`. -/
def stored (bits : ℕ) (sign : ℤ) (n : ℕ) : ℤ := Int.bmod (sign * n) (2 ^ bits)

theorem over_neg : Over bits (-1) n ↔ 2 ^ (bits - 1) < n := by
  rw [Over, if_pos (by decide)]

theorem over_pos : Over bits 1 n ↔ bits = 32 ∧ 2 ^ 32 ≤ n := by
  rw [Over, if_neg (by decide)]

theorem Over.mono (h : Over bits sign m) (hle : m ≤ n) : Over bits sign n := by
  unfold Over at h ⊢
  by_cases hsign : sign < 0
  · rw [if_pos hsign] at h ⊢
    exact Nat.lt_of_lt_of_le h hle
  · rw [if_neg hsign] at h ⊢
    exact ⟨h.1, Nat.le_trans h.2 hle⟩

theorem not_over_zero (bits : ℕ) (sign : ℤ) : ¬Over bits sign 0 := by
  unfold Over
  split
  · exact Nat.not_lt_zero _
  · exact fun h => absurd h.2 (by decide)

/-- A negative number in range is stored as it is. -/
theorem stored_neg (hbits : Width bits) (h : ¬Over bits (-1) n) : stored bits (-1) n = -n := by
  rw [over_neg] at h
  rw [stored, Int.neg_one_mul]
  obtain rfl | rfl := hbits <;> exact Int.bmod_eq_of_le (by omega) (by omega)

/-- A positive `int` in range is compared as it is. -/
theorem asUnsigned_stored (h : ¬Over 32 1 n) : asUnsigned (stored 32 1 n) = n := by
  rw [over_pos] at h
  have hmod : (Int.bmod (1 * (n : ℤ)) (2 ^ 32)) % ((2 ^ 32 : ℕ) : ℤ) =
      1 * (n : ℤ) % ((2 ^ 32 : ℕ) : ℤ) :=
    Int.bmod_emod
  rw [asUnsigned, stored]
  omega

theorem asUnsigned_lt (result : ℤ) : asUnsigned result < 2 ^ 32 := by
  rw [asUnsigned]
  omega

theorem stored_mul (bits : ℕ) (sign : ℤ) (n factor : ℕ) :
    Int.bmod (stored bits sign n * factor) (2 ^ bits) = stored bits sign (n * factor) := by
  rw [stored, stored, Int.bmod_mul_bmod, Int.natCast_mul, Int.mul_assoc]

theorem stored_add (bits : ℕ) (sign : ℤ) (n digit : ℕ) :
    Int.bmod (stored bits sign n + digit * sign) (2 ^ bits) = stored bits sign (n + digit) := by
  rw [stored, stored, Int.bmod_add_bmod, Int.natCast_add, Int.mul_add, Int.mul_comm sign digit]

/-- **Multiplying** is refused exactly where the product is over the range. -/
theorem multiply_eq (hbits : Width bits) (hsign : IsSign sign) (hpos : 0 < factor)
    (hfactor : factor ≤ 2 ^ 30) (h : ¬Over bits sign n) :
    multiply bits sign (stored bits sign n) factor =
      if Over bits sign (n * factor) then .error .range else .ok
        (stored bits sign (n * factor)) := by
  rw [multiply, stored_mul]
  obtain rfl | rfl := hsign
  · have hnot : ¬((1 : ℤ) < 0 ∧ stored bits 1 n < (intMin bits).tdiv factor) := fun h => by
      exact absurd h.1 (by decide)
    rw [if_neg hnot]
    obtain rfl | rfl := hbits
    · have htest : (0 < (1 : ℤ) ∧ uintMax 32 / factor < asUnsigned (stored 32 1 n)) ↔
          Over 32 1 (n * factor) := by
        rw [asUnsigned_stored h, over_pos, uintMax, Nat.div_lt_iff_lt_mul hpos]
        omega
      simp only [htest]
    · have hlt := asUnsigned_lt (stored 64 1 n)
      have hdiv : 2 ^ 32 ≤ uintMax 64 / factor :=
        (Nat.le_div_iff_mul_le hpos).2 (Nat.le_trans (Nat.mul_le_mul_left _ hfactor) (by decide))
      have htest : ¬(0 < (1 : ℤ) ∧ uintMax 64 / factor < asUnsigned (stored 64 1 n)) := by
        omega
      have hover : ¬Over 64 1 (n * factor) := fun h => absurd (over_pos.1 h).1 (by decide)
      rw [if_neg htest, if_neg hover]
  · have hquot : (intMin bits).tdiv factor = -((2 ^ (bits - 1) / factor : ℕ) : ℤ) := by
      rw [intMin, Int.neg_tdiv, Int.ofNat_tdiv]
      norm_cast
    have htest : ((-1 : ℤ) < 0 ∧ stored bits (-1) n < (intMin bits).tdiv factor) ↔
        Over bits (-1) (n * factor) := by
      rw [stored_neg hbits h, hquot, over_neg, ← Nat.div_lt_iff_lt_mul hpos]
      omega
    have hnot : ¬(0 < (-1 : ℤ) ∧ uintMax bits / factor < asUnsigned (stored bits (-1) n)) :=
      fun h => absurd h.1 (by decide)
    simp only [htest, if_neg hnot]

/-- **Adding a digit** is refused exactly where the sum is over the range. -/
theorem addDigit_eq (hbits : Width bits) (hsign : IsSign sign) {digit : ℕ} (hdigit : digit < 16)
    (h : ¬Over bits sign n) :
    addDigit bits sign (stored bits sign n) digit =
      if Over bits sign (n + digit) then .error .range else .ok (stored bits sign (n + digit)) := by
  rw [addDigit, stored_add]
  obtain rfl | rfl := hsign
  · have hnot : ¬((1 : ℤ) < 0 ∧ stored bits 1 n < intMin bits + digit) := fun h => by
      exact absurd h.1 (by decide)
    rw [if_neg hnot]
    obtain rfl | rfl := hbits
    · have htest : (0 < (1 : ℤ) ∧ uintMax 32 - digit < asUnsigned (stored 32 1 n)) ↔
          Over 32 1 (n + digit) := by
        rw [asUnsigned_stored h, over_pos, uintMax]
        omega
      simp only [htest]
    · have hlt := asUnsigned_lt (stored 64 1 n)
      have htest : ¬(0 < (1 : ℤ) ∧ uintMax 64 - digit < asUnsigned (stored 64 1 n)) := by
        rw [uintMax]
        omega
      have hover : ¬Over 64 1 (n + digit) := fun h => absurd (over_pos.1 h).1 (by decide)
      rw [if_neg htest, if_neg hover]
  · have htest : ((-1 : ℤ) < 0 ∧ stored bits (-1) n < intMin bits + digit) ↔
        Over bits (-1) (n + digit) := by
      have hmin : intMin bits = -((2 ^ (bits - 1) : ℕ) : ℤ) := by
        rw [intMin]
        norm_cast
      rw [stored_neg hbits h, hmin, over_neg]
      omega
    have hnot : ¬(0 < (-1 : ℤ) ∧ uintMax bits - digit < asUnsigned (stored bits (-1) n)) :=
      fun h => absurd h.1 (by decide)
    simp only [htest, if_neg hnot]

/-! ### The digits -/

/-- **A turn of the loop over the digits.** -/
theorem nextDigit_eq (hbits : Width bits) (hsign : IsSign sign)
    (hbase : base = 8 ∨ base = 10 ∨ base = 16) (h : ¬Over bits sign n) (c : Char) :
    nextDigit bits sign base (stored bits sign n) c =
      if digitOf c < base then
        if Over bits sign (n * base + digitOf c) then .error .range
        else .ok (stored bits sign (n * base + digitOf c))
      else .error .format := by
  rw [nextDigit, stringDigitToInt_eq hbase]
  by_cases hc : digitOf c < base
  · rw [if_pos hc, if_pos hc]
    change (multiply bits sign (stored bits sign n) base).bind _ = _
    rw [multiply_eq hbits hsign (by omega) (by omega) h]
    by_cases hover : Over bits sign (n * base)
    · rw [if_pos hover, if_pos (hover.mono (Nat.le_add_right _ _))]
      rfl
    · rw [if_neg hover]
      exact addDigit_eq hbits hsign (by omega) hover
  · rw [if_neg hc, if_neg hc]
    rfl

theorem le_valueFrom (hbase : 0 < base) (n : ℕ) (ds : Str) : n ≤ valueFrom base n ds := by
  induction ds generalizing n with
  | nil => exact Nat.le_refl n
  | cons c cs ih =>
    have hmul : n * 1 ≤ n * base := Nat.mul_le_mul_left n hbase
    have hnext := ih (n * base + digitOf c)
    rw [valueFrom] at hnext ⊢
    rw [List.foldl_cons]
    omega

/-- The digits that a string starts with. -/
def leading (base : ℕ) (s : Str) : Str := s.takeWhile fun c => digitOf c < base

theorem leading_eq_self_iff : leading base s = s ↔ ∀ c ∈ s, digitOf c < base := by
  rw [leading, List.takeWhile_eq_self_iff]
  simp

/-- **The loop over the digits** ends where the digits in front are over the range, or at the first
character that is no digit. -/
theorem foldlM_nextDigit (hbits : Width bits) (hsign : IsSign sign)
    (hbase : base = 8 ∨ base = 10 ∨ base = 16) (h : ¬Over bits sign n) (s : Str) :
    s.foldlM (nextDigit bits sign base) (stored bits sign n) =
      if Over bits sign (valueFrom base n (leading base s)) then .error .range
      else if leading base s = s then .ok (stored bits sign (valueFrom base n s))
      else .error .format := by
  induction s generalizing n with
  | nil =>
    rw [leading, List.takeWhile_nil, valueFrom, List.foldl_nil, if_neg h, if_pos rfl]
    rfl
  | cons c cs ih =>
    rw [List.foldlM_cons, nextDigit_eq hbits hsign hbase h]
    by_cases hc : digitOf c < base
    · have hlead : leading base (c :: cs) = c :: leading base cs :=
        List.takeWhile_cons_of_pos (by simpa using hc)
      have hvalue : valueFrom base n (c :: leading base cs) =
          valueFrom base (n * base + digitOf c) (leading base cs) := rfl
      rw [if_pos hc, hlead, hvalue]
      by_cases hover : Over bits sign (n * base + digitOf c)
      · rw [if_pos hover, if_pos (hover.mono (le_valueFrom (by omega) _ _))]
        rfl
      · rw [if_neg hover]
        change cs.foldlM (nextDigit bits sign base) (stored bits sign (n * base + digitOf c)) = _
        rw [ih hover]
        simp only [List.cons.injEq, true_and]
        rfl
    · have hlead : leading base (c :: cs) = [] :=
        List.takeWhile_cons_of_neg (by simpa using hc)
      have hvalue : valueFrom base n [] = n := rfl
      rw [if_neg hc, hlead, hvalue, if_neg h, if_neg (List.cons_ne_nil _ _).symm]
      rfl

/-! ### The parts of a string -/

/-- The sign of a string. -/
def signOf (s : Str) : ℤ := (takeSign s).1

/-- The base that the prefix gives. -/
def baseOf (s : Str) : ℕ := (takeBase (takeSign s).2).1

/-- What is behind sign and prefix. -/
def bodyOf (s : Str) : Str := (takeBase (takeSign s).2).2

/-- The factor that the suffix gives. -/
def factorOf (s : Str) : ℕ := (takeSuffix (baseOf s) (bodyOf s)).1

/-- What is between the prefix and the suffix. -/
def numeralOf (s : Str) : Str := (takeSuffix (baseOf s) (bodyOf s)).2

theorem number_parts (s : Str) (v : ℤ) :
    Number s v ↔ numeralOf s ≠ [] ∧ (∀ c ∈ numeralOf s, digitOf c < baseOf s) ∧
      v = signOf s * (value (baseOf s) (numeralOf s) * factorOf s : ℕ) := by
  rw [number_iff]
  constructor
  · rintro ⟨n, h, rfl⟩
    obtain ⟨hne, hdigits, rfl⟩ := (magnitude_iff _ n).1 h
    exact ⟨hne, hdigits, rfl⟩
  · rintro ⟨hne, hdigits, rfl⟩
    exact ⟨_, (magnitude_iff _ _).2 ⟨hne, hdigits, rfl⟩, rfl⟩

theorem isSign_signOf (s : Str) : IsSign (signOf s) := by
  unfold signOf takeSign
  split
  · exact .inl rfl
  · exact .inr rfl
  · exact .inl rfl

theorem baseOf_cases (s : Str) : baseOf s = 8 ∨ baseOf s = 10 ∨ baseOf s = 16 := by
  unfold baseOf
  obtain ⟨ds, -, h⟩ | ⟨ds, -, -, h⟩ | ⟨h, -⟩ := takeBase_cases (takeSign s).2
  · exact .inr (.inr (by rw [h]))
  · exact .inl (by rw [h])
  · exact .inr (.inl (by rw [h]))

theorem factorOf_bounds (s : Str) : 0 < factorOf s ∧ factorOf s ≤ 2 ^ 30 := by
  unfold factorOf takeSuffix
  split
  · split
    · rename_i f hf
      obtain ⟨c, -, hc⟩ := Option.bind_eq_some_iff.1 hf
      exact (suffixFactor_cases hc).2
    · exact ⟨Nat.one_pos, Nat.one_le_two_pow⟩
  · exact ⟨Nat.one_pos, Nat.one_le_two_pow⟩

/-- Nothing is between prefix and suffix where there is nothing. -/
theorem numeralOf_eq_nil (h : bodyOf s = []) : numeralOf s = [] := by
  rw [numeralOf, h, takeSuffix]
  split <;> rfl

/-! ### The functions -/

theorem stored_zero (bits : ℕ) (sign : ℤ) : stored bits sign 0 = 0 := by
  rw [stored, Int.natCast_zero, Int.mul_zero, Int.zero_bmod]

/-- Zeros in front change nothing. -/
theorem foldlM_dropWhile (hbits : Width bits) (hsign : IsSign sign)
    (hbase : base = 8 ∨ base = 10 ∨ base = 16) (s : Str) :
    (s.dropWhile (· == '0')).foldlM (nextDigit bits sign base) 0 =
      s.foldlM (nextDigit bits sign base) 0 := by
  induction s with
  | nil => rfl
  | cons c cs ih =>
    by_cases hc : c = '0'
    · have hzero : nextDigit bits sign base 0 c = .ok 0 := by
        have hdigit : digitOf c = 0 := by
          rw [hc]
          decide
        have hnext := nextDigit_eq hbits hsign hbase (not_over_zero bits sign) c
        rw [hdigit, Nat.zero_mul, Nat.add_zero, if_pos (by omega), if_neg (not_over_zero bits sign),
          stored_zero] at hnext
        exact hnext
      rw [List.dropWhile_cons_of_pos (by simpa using hc), ih, List.foldlM_cons, hzero]
      rfl
    · rw [List.dropWhile_cons_of_neg (by simpa using hc)]

/-- The factor at the end. -/
theorem factor_eq (hbits : Width bits) (s : Str) (h : ¬Over bits (signOf s) n) :
    (if factorOf s ≠ 1 then multiply bits (signOf s) (stored bits (signOf s) n) (factorOf s)
      else .ok (stored bits (signOf s) n)) =
      if Over bits (signOf s) (n * factorOf s) then .error .range
      else .ok (stored bits (signOf s) (n * factorOf s)) := by
  obtain ⟨hpos, hfactor⟩ := factorOf_bounds s
  by_cases hone : factorOf s = 1
  · rw [if_neg (not_not.2 hone), hone, Nat.mul_one, if_neg h]
  · rw [if_pos hone, multiply_eq hbits (isSign_signOf s) hpos hfactor h]

/-- The functions are the loop over the digits and the factor. -/
theorem convert_loop (hbits : Width bits) (s : Str) :
    convert bits s = if bodyOf s = [] then .error .format else
      ((numeralOf s).foldlM (nextDigit bits (signOf s) (baseOf s)) 0).bind fun result =>
        if factorOf s ≠ 1 then multiply bits (signOf s) result (factorOf s) else .ok result := by
  have hzeros := foldlM_dropWhile hbits (isSign_signOf s) (baseOf_cases s) (numeralOf s)
  change (if (bodyOf s).isEmpty = true then .error .format
    else if ((numeralOf s).dropWhile (· == '0')).isEmpty = true then .ok 0
    else (((numeralOf s).dropWhile (· == '0')).foldlM (nextDigit bits (signOf s) (baseOf s)) 0).bind
      fun result =>
        if factorOf s ≠ 1 then multiply bits (signOf s) result (factorOf s) else .ok result) = _
  simp only [List.isEmpty_iff]
  split
  · rfl
  · split
    · rename_i hempty
      have hstop := factor_eq hbits s (not_over_zero bits (signOf s))
      rw [stored_zero, Nat.zero_mul, if_neg (not_over_zero bits (signOf s)), stored_zero] at hstop
      rw [← hzeros, hempty]
      exact hstop.symm
    · rw [hzeros]

/-- **What the functions return**, by the parts of the string. -/
theorem convert_eq (hbits : Width bits) (s : Str) :
    convert bits s =
      if bodyOf s = [] then .error .format
      else if Over bits (signOf s) (value (baseOf s) (leading (baseOf s) (numeralOf s))) then
        .error .range
      else if leading (baseOf s) (numeralOf s) = numeralOf s then
        if Over bits (signOf s) (value (baseOf s) (numeralOf s) * factorOf s) then .error .range
        else .ok (stored bits (signOf s) (value (baseOf s) (numeralOf s) * factorOf s))
      else .error .format := by
  have hdigits : (numeralOf s).foldlM (nextDigit bits (signOf s) (baseOf s)) 0 =
      if Over bits (signOf s) (value (baseOf s) (leading (baseOf s) (numeralOf s))) then
        .error .range
      else if leading (baseOf s) (numeralOf s) = numeralOf s then
        .ok (stored bits (signOf s) (value (baseOf s) (numeralOf s)))
      else .error .format := by
    have h := foldlM_nextDigit hbits (isSign_signOf s) (baseOf_cases s)
      (not_over_zero bits (signOf s)) (numeralOf s)
    rw [stored_zero] at h
    exact h
  rw [convert_loop hbits, hdigits]
  split
  · rfl
  · by_cases hlead : Over bits (signOf s) (value (baseOf s) (leading (baseOf s) (numeralOf s)))
    · rw [if_pos hlead, if_pos hlead]
      rfl
    · rw [if_neg hlead, if_neg hlead]
      by_cases hall : leading (baseOf s) (numeralOf s) = numeralOf s
      · rw [if_pos hall, if_pos hall]
        refine factor_eq hbits s ?_
        rwa [hall] at hlead
      · rw [if_neg hall, if_neg hall]
        rfl

/-! ### What the functions are for -/

/-- What a function over a type of `bits` bits does with a number: it returns it modulo `2 ^ bits`
in the range of the signed and the unsigned type together, and a range error outside. -/
def ReturnsNumber (bits : ℕ) (r : ℤ × StringError) (v : ℤ) : Prop :=
  if -2 ^ (bits - 1) ≤ v ∧ v < 2 ^ bits then r = (Int.bmod v (2 ^ bits), .ok) else r.2 = .range

/-- What the two functions do with a string: they return the number that it is, and agree where an
`int` holds it; a string that is no number gives a format error. -/
def Converts (s : Str) : Prop :=
  (∀ v, Number (stringTrim s whitespace) v →
    ReturnsNumber 32 (stringToInt s) v ∧ ReturnsNumber 64 (stringToInt64 s) v ∧
      (-2 ^ 31 ≤ v → v < 2 ^ 31 → stringToInt s = stringToInt64 s)) ∧
    ((¬∃ v, Number (stringTrim s whitespace) v) →
      (stringToInt s).2 = .format ∧ (stringToInt64 s).2 = .format)

/-- The strings that the functions are right on: numbers below `2 ^ 64`, and what is no number, but
is neither a suffix alone nor starts with digits that an `int` does not hold. -/
def Convertible (s : Str) : Prop :=
  (∀ v, Number s v → v < 2 ^ 64) ∧
    ((¬∃ v, Number s v) → (numeralOf s = [] → bodyOf s = []) ∧
      ¬Over 32 (signOf s) (value (baseOf s) (leading (baseOf s) (numeralOf s))))

theorem over_32_iff (hsign : IsSign sign) :
    Over 32 sign n ↔ ¬(-2 ^ 31 ≤ sign * (n : ℤ) ∧ sign * (n : ℤ) < 2 ^ 32) := by
  obtain rfl | rfl := hsign
  · rw [over_pos]
    omega
  · rw [over_neg]
    omega

theorem over_64_iff (hsign : IsSign sign) : Over 64 sign n ↔ sign * (n : ℤ) < -2 ^ 63 := by
  obtain rfl | rfl := hsign
  · rw [over_pos]
    omega
  · rw [over_neg]
    omega

/-- What is over the range of the wider function is over that of the other. -/
theorem Over.narrow (hsign : IsSign sign) (h : Over 64 sign n) : Over 32 sign n := by
  rw [over_32_iff hsign]
  rw [over_64_iff hsign] at h
  omega

/-- **A number** gives a range error exactly if it is over the range. -/
theorem convert_number (hbits : Width bits) (h : Number s v) :
    ∃ n : ℕ, v = signOf s * n ∧ convert bits s =
      if Over bits (signOf s) n then .error .range else .ok (Int.bmod v (2 ^ bits)) := by
  obtain ⟨hne, hdigits, rfl⟩ := (number_parts s v).1 h
  refine ⟨_, rfl, ?_⟩
  have hbody : bodyOf s ≠ [] := fun hnil => hne (numeralOf_eq_nil hnil)
  have hlead : leading (baseOf s) (numeralOf s) = numeralOf s := leading_eq_self_iff.2 hdigits
  rw [convert_eq hbits, if_neg hbody, hlead, if_pos rfl]
  by_cases hover : Over bits (signOf s) (value (baseOf s) (numeralOf s))
  · rw [if_pos hover, if_pos (hover.mono (Nat.le_mul_of_pos_right _ (factorOf_bounds s).1))]
  · rw [if_neg hover]
    rfl

/-- **What is no number** is decided by the digits that it starts with. -/
theorem convert_not_number (hbits : Width bits) (h : ¬∃ v, Number s v) :
    convert bits s =
      if bodyOf s = [] then .error .format
      else if Over bits (signOf s) (value (baseOf s) (leading (baseOf s) (numeralOf s))) then
        .error .range
      else if numeralOf s = [] then .ok 0
      else .error .format := by
  rw [convert_eq hbits]
  by_cases hnil : numeralOf s = []
  · have hzero : value (baseOf s) (numeralOf s) * factorOf s = 0 := by
      rw [hnil]
      exact Nat.zero_mul _
    have hall : leading (baseOf s) (numeralOf s) = numeralOf s := by rw [hnil]; rfl
    rw [if_pos hall, if_pos hnil, hzero, if_neg (not_over_zero bits _), stored_zero]
  · have hall : leading (baseOf s) (numeralOf s) ≠ numeralOf s := fun hall =>
      h ⟨_, (number_parts s _).2 ⟨hnil, leading_eq_self_iff.1 hall, rfl⟩⟩
    rw [if_neg hall, if_neg hnil]

theorem returnsNumber_32 (h : Number s v) : ReturnsNumber 32 (returned (convert 32 s)) v := by
  obtain ⟨n, hv, hconvert⟩ := convert_number (.inl rfl) h
  have hover := over_32_iff (n := n) (isSign_signOf s)
  rw [← hv] at hover
  unfold ReturnsNumber
  by_cases hrange : -2 ^ 31 ≤ v ∧ v < 2 ^ 32
  · rw [if_pos hrange, hconvert, if_neg (fun h => hover.1 h hrange)]
    rfl
  · rw [if_neg hrange, hconvert, if_pos (hover.2 hrange)]
    rfl

/-- The wider function returns a number as it should exactly below `2 ^ 64`. -/
theorem returnsNumber_64 (h : Number s v) :
    ReturnsNumber 64 (returned (convert 64 s)) v ↔ v < 2 ^ 64 := by
  obtain ⟨n, hv, hconvert⟩ := convert_number (.inr rfl) h
  have hover := over_64_iff (n := n) (isSign_signOf s)
  rw [← hv] at hover
  unfold ReturnsNumber
  by_cases hrange : -2 ^ 63 ≤ v ∧ v < 2 ^ 64
  · rw [if_pos hrange, hconvert, if_neg (fun h => absurd (hover.1 h) (Int.not_lt.2 hrange.1))]
    exact ⟨fun _ => hrange.2, fun _ => rfl⟩
  · rw [if_neg hrange, hconvert]
    by_cases hlow : v < -2 ^ 63
    · rw [if_pos (hover.2 hlow)]
      exact ⟨fun _ => by omega, fun _ => rfl⟩
    · rw [if_neg (fun h => hlow (hover.1 h))]
      exact ⟨fun h => (by cases h), fun h => absurd ⟨Int.not_lt.1 hlow, h⟩ hrange⟩

/-- Where an `int` holds the number, both return it. -/
theorem returned_eq (h : Number s v) (hlow : -2 ^ 31 ≤ v) (hhigh : v < 2 ^ 31) :
    returned (convert 32 s) = returned (convert 64 s) := by
  have hnarrow := returnsNumber_32 h
  have hwide := (returnsNumber_64 h).2 (by omega)
  unfold ReturnsNumber at hnarrow hwide
  rw [if_pos ⟨hlow, by omega⟩, Int.bmod_eq_of_le (by omega) (by omega)] at hnarrow
  rw [if_pos ⟨by omega, by omega⟩, Int.bmod_eq_of_le (by omega) (by omega)] at hwide
  rw [hnarrow, hwide]

/-- What is no number gives a format error exactly under these conditions. -/
theorem returned_format_iff (hbits : Width bits) (h : ¬∃ v, Number s v) :
    (returned (convert bits s)).2 = .format ↔ (numeralOf s = [] → bodyOf s = []) ∧
      ¬Over bits (signOf s) (value (baseOf s) (leading (baseOf s) (numeralOf s))) := by
  rw [convert_not_number hbits h]
  by_cases hbody : bodyOf s = []
  · have hlead : value (baseOf s) (leading (baseOf s) (numeralOf s)) = 0 := by
      rw [numeralOf_eq_nil hbody]
      rfl
    rw [if_pos hbody, hlead]
    exact ⟨fun _ => ⟨fun _ => hbody, not_over_zero bits _⟩, fun _ => rfl⟩
  · rw [if_neg hbody]
    by_cases hover : Over bits (signOf s) (value (baseOf s) (leading (baseOf s) (numeralOf s)))
    · rw [if_pos hover]
      exact ⟨fun h => (by cases h), fun h => absurd hover h.2⟩
    · rw [if_neg hover]
      by_cases hnil : numeralOf s = []
      · rw [if_pos hnil]
        exact ⟨fun h => (by cases h), fun h => absurd (h.1 hnil) hbody⟩
      · rw [if_neg hnil]
        exact ⟨fun _ => ⟨fun h => absurd h hnil, hover⟩, fun _ => rfl⟩

/-- **The functions are right exactly on the convertible strings.** -/
theorem converts_iff (s : Str) : Converts s ↔ Convertible (stringTrim s whitespace) := by
  constructor
  · rintro ⟨hnumber, hother⟩
    refine ⟨fun v h => (returnsNumber_64 h).1 (hnumber v h).2.1, fun h => ?_⟩
    exact (returned_format_iff (.inl rfl) h).1 (hother h).1
  · rintro ⟨hnumber, hother⟩
    refine ⟨fun v h => ⟨returnsNumber_32 h, (returnsNumber_64 h).2 (hnumber v h), returned_eq h⟩,
      fun h => ?_⟩
    obtain ⟨hsuffix, hover⟩ := hother h
    exact ⟨(returned_format_iff (.inl rfl) h).2 ⟨hsuffix, hover⟩,
      (returned_format_iff (.inr rfl) h).2 ⟨hsuffix, fun h => hover (h.narrow (isSign_signOf _))⟩⟩

/-- **Three strings that are not treated as they should be**: a suffix alone is 0, what is no number
is out of range, and a number that `unsigned long long` does not hold is returned. -/
theorem not_converts :
    ¬Converts ['k'] ∧ ¬Converts ['4', '2', '9', '4', '9', '6', '7', '2', '9', '6', 'z'] ∧
      ¬Converts ['1', '8', '4', '4', '6', '7', '4', '4', '0', '7', '3', '7', '0', '9', '5', '5',
        '1',
        '6', '1', '6'] := by
  refine ⟨fun h => ?_, fun h => ?_, fun h => ?_⟩
  · have hnot : ¬∃ v, Number ['k'] v := fun ⟨v, hv⟩ =>
      absurd ((number_parts _ v).1 hv).1 (by decide)
    exact absurd (h.2 hnot).1 (by decide)
  · have hnot : ¬∃ v, Number ['4', '2', '9', '4', '9', '6', '7', '2', '9', '6', 'z'] v :=
      fun ⟨v, hv⟩ => absurd (((number_parts _ v).1 hv).2.1 'z' (by decide)) (by decide)
    exact absurd (h.2 hnot).1 (by decide)
  · have hnumber := h.1 18446744073709551616 (.unsigned (.decimal (by decide)
      (forall_mem_of_all (by decide)) (by decide)))
    have hwide := hnumber.2.1
    rw [ReturnsNumber, if_neg (by decide)] at hwide
    exact absurd hwide (by decide)

end Codrive.Strings
