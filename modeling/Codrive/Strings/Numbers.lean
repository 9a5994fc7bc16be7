/-
# The syntax of numbers in strings

Numbers as `string.h` describes them (`Number`), with their values, which are mathematical integers:
an optional sign, then `0x` and hexadecimal digits, `0` and octal digits, or decimal digits with an
optional suffix.  The digits are those that `StringDigitToInt` accepts (`stringDigitToInt_eq`), and
the parts those that the code takes a string apart into (`magnitude_iff`, `number_iff`).
-/

import Codrive.Strings.ToInt
import Mathlib.Data.List.Basic

namespace Codrive.Strings

variable {bits base n : ℕ} {sign v : ℤ} {c : Char} {s ds : Str}

/-! ### The syntax of numbers -/

/-- The digits, up to base 16. -/
def digits : Str := ['0', '1', '2', '3', '4', '5', '6', '7', '8', '9', 'a', 'b', 'c', 'd', 'e', 'f']

/-- The digit that a character is, 16 where it is none. -/
def digitOf (c : Char) : ℕ := digits.idxOf c.toLower

/-- The value of digits behind a number. -/
def valueFrom (base n : ℕ) (ds : Str) : ℕ := ds.foldl (fun n c => n * base + digitOf c) n

/-- The value of digits. -/
def value (base : ℕ) (ds : Str) : ℕ := valueFrom base 0 ds

/-- A number without a sign.  A 0 in front of anything is a prefix. -/
inductive Magnitude : Str → ℕ → Prop where
  | hex {ds : Str} (hne : ds ≠ []) (h : ∀ c ∈ ds, digitOf c < 16) :
      Magnitude ('0' :: 'x' :: ds) (value 16 ds)
  | octal {ds : Str} (hne : ds ≠ []) (h : ∀ c ∈ ds, digitOf c < 8) :
      Magnitude ('0' :: ds) (value 8 ds)
  | zero : Magnitude ['0'] 0
  | decimal {ds : Str} (hne : ds ≠ []) (h : ∀ c ∈ ds, digitOf c < 10)
    (hhead : ds.head? ≠ some '0') :
      Magnitude ds (value 10 ds)
  | suffixed {ds : Str} {c : Char} {factor : ℕ} (hne : ds ≠ []) (h : ∀ c ∈ ds, digitOf c < 10)
      (hhead : ds.head? ≠ some '0') (hc : suffixFactor c = some factor) :
      Magnitude (ds ++ [c]) (value 10 ds * factor)

/-- A number with its value. -/
inductive Number : Str → ℤ → Prop where
  | unsigned {s : Str} {n : ℕ} (h : Magnitude s n) : Number s n
  | plus {s : Str} {n : ℕ} (h : Magnitude s n) : Number ('+' :: s) n
  | minus {s : Str} {n : ℕ} (h : Magnitude s n) : Number ('-' :: s) (-n)

theorem suffixFactor_cases {f : ℕ} (h : suffixFactor c = some f) :
    ¬digitOf c < 10 ∧ 0 < f ∧ f ≤ 2 ^ 30 := by
  unfold suffixFactor at h
  split at h <;> cases h <;> exact ⟨by decide, by decide, by decide⟩

/-- A character between two others is one of those between them. -/
theorem mem_of_between {lo hi : ℕ} {l : Str} (hl : ∀ n < hi + 1, lo ≤ n → Char.ofNat n ∈ l)
    (hlo : lo ≤ c.toNat) (hhi : c.toNat ≤ hi) : c ∈ l := by
  have h := hl c.toNat (by omega) hlo
  rwa [Char.ofNat_toNat] at h

/-- **What `StringDigitToInt` accepts** are the digits of the base. -/
theorem stringDigitToInt_eq (hbase : base = 8 ∨ base = 10 ∨ base = 16) (c : Char) :
    stringDigitToInt c base = if digitOf c < base then .ok (digitOf c) else .error .format := by
  have hvalid : ¬(base ≠ 2 ∧ base ≠ 8 ∧ base ≠ 10 ∧ base ≠ 16) := by omega
  have hle : base ≤ 16 := by omega
  rw [stringDigitToInt, if_neg hvalid, digitOf]
  generalize c.toLower = d
  dsimp only
  have hdecimal : ∀ d ∈ digits, '0'.toNat ≤ d.toNat ∧ d.toNat ≤ '9'.toNat →
      digits.idxOf d = d.toNat - '0'.toNat := forall_mem_of_all (by decide)
  have hletter : ∀ d ∈ digits, 'a'.toNat ≤ d.toNat ∧ d.toNat ≤ 'f'.toNat →
      digits.idxOf d = d.toNat - 'a'.toNat + 10 := forall_mem_of_all (by decide)
  have hother : ∀ d ∈ digits, ('0'.toNat ≤ d.toNat ∧ d.toNat ≤ '9'.toNat) ∨
      'a'.toNat ≤ d.toNat ∧ d.toNat ≤ 'f'.toNat := forall_mem_of_all (by decide)
  by_cases hd : '0'.toNat ≤ d.toNat ∧ d.toNat ≤ '9'.toNat
  · rw [if_pos hd, hdecimal d (mem_of_between (by decide) hd.1 hd.2) hd]
    split
    · rw [if_neg (by omega)]
    · rw [if_pos (by omega)]
  · rw [if_neg hd]
    by_cases hf : 'a'.toNat ≤ d.toNat ∧ d.toNat ≤ 'f'.toNat
    · rw [if_pos hf, hletter d (mem_of_between (by decide) hf.1 hf.2) hf]
      split
      · rw [if_neg (by omega)]
      · rw [if_pos (by omega)]
    · have hnot : d ∉ digits := fun h => (hother d h).elim hd hf
      rw [if_neg hf, List.idxOf_eq_length hnot, if_neg]
      exact Nat.not_lt.2 hle

/-! ### The parts of a string -/

theorem takeSuffix_of_ne (h : base ≠ 10) : takeSuffix base s = (1, s) := if_neg h

theorem takeSuffix_ten (s : Str) :
    takeSuffix 10 s = match s.getLast?.bind suffixFactor with
      | some factor => (factor, s.dropLast)
      | none => (1, s) := if_pos rfl

theorem takeSuffix_concat {f : ℕ} (hc : suffixFactor c = some f) :
    takeSuffix 10 (s ++ [c]) = (f, s) := by
  rw [takeSuffix_ten, List.getLast?_concat, Option.bind_some, hc]
  simp

/-- Digits have no suffix. -/
theorem takeSuffix_digits (h : ∀ c ∈ ds, digitOf c < 10) : takeSuffix 10 ds = (1, ds) := by
  rw [takeSuffix_ten]
  cases hlast : ds.getLast?.bind suffixFactor with
  | none => rfl
  | some f =>
    obtain ⟨c, hc, hf⟩ := Option.bind_eq_some_iff.1 hlast
    exact absurd (h c (List.mem_of_getLast? hc)) (suffixFactor_cases hf).1

theorem takeBase_of_head (h : s.head? ≠ some '0') : takeBase s = (10, s) := by
  unfold takeBase
  split
  · simp at h
  · simp at h
  · rfl

theorem takeBase_octal (hne : ds ≠ []) (h : ds.head? ≠ some 'x') :
    takeBase ('0' :: ds) = (8, ds) := by
  cases ds with
  | nil => exact absurd rfl hne
  | cons c cs =>
    unfold takeBase
    split
    · rename_i heq
      simp only [List.cons.injEq, true_and] at heq
      exact absurd (congrArg some heq.1) h
    · rename_i heq
      simp only [List.cons.injEq, true_and] at heq
      rw [← heq.1, ← heq.2]
    · rename_i heq
      exact absurd rfl (heq c cs)

/-- The base is one of three. -/
theorem takeBase_cases (s : Str) :
    (∃ ds, s = '0' :: 'x' :: ds ∧ takeBase s = (16, ds)) ∨
      (∃ ds, s = '0' :: ds ∧ ds ≠ [] ∧ takeBase s = (8, ds)) ∨
      (takeBase s = (10, s) ∧ (s = ['0'] ∨ s.head? ≠ some '0')) := by
  by_cases hhead : s.head? = some '0'
  · obtain ⟨ds, rfl⟩ : ∃ ds, s = '0' :: ds := by
      cases s with
      | nil => cases hhead
      | cons c cs => exact ⟨cs, by rw [Option.some.inj hhead]⟩
    cases ds with
    | nil => exact .inr (.inr ⟨rfl, .inl rfl⟩)
    | cons c cs =>
      by_cases hx : c = 'x'
      · exact .inl ⟨cs, by rw [hx], by rw [hx, takeBase]⟩
      · exact .inr (.inl ⟨c :: cs, rfl, List.cons_ne_nil _ _,
          takeBase_octal (List.cons_ne_nil _ _) fun h => hx (Option.some.inj h)⟩)
  · exact .inr (.inr ⟨takeBase_of_head hhead, .inr hhead⟩)

/-- **A number without a sign, by its parts**: digits of its base, at least one, and a factor. -/
theorem magnitude_iff (s : Str) (n : ℕ) :
    Magnitude s n ↔
      (takeSuffix (takeBase s).1 (takeBase s).2).2 ≠ [] ∧
        (∀ c ∈ (takeSuffix (takeBase s).1 (takeBase s).2).2, digitOf c < (takeBase s).1) ∧
        n = value (takeBase s).1 (takeSuffix (takeBase s).1 (takeBase s).2).2 *
          (takeSuffix (takeBase s).1 (takeBase s).2).1 := by
  constructor
  · intro h
    cases h with
    | hex hne h =>
      rw [takeBase]
      dsimp only
      rw [takeSuffix_of_ne (by decide)]
      exact ⟨hne, h, (Nat.mul_one _).symm⟩
    | octal hne h =>
      rename_i ds
      have hx : ds.head? ≠ some 'x' := fun hx =>
        absurd (h 'x' (List.mem_of_mem_head? hx)) (by decide)
      rw [takeBase_octal hne hx]
      dsimp only
      rw [takeSuffix_of_ne (by decide)]
      exact ⟨hne, h, (Nat.mul_one _).symm⟩
    | zero => exact ⟨by decide, forall_mem_of_all (by decide), by decide⟩
    | decimal hne h hhead =>
      rw [takeBase_of_head hhead, takeSuffix_digits h]
      exact ⟨hne, h, (Nat.mul_one _).symm⟩
    | suffixed hne h hhead hc =>
      rename_i ds c f
      have hhead' : (ds ++ [c]).head? ≠ some '0' := by
        rwa [List.head?_append_of_ne_nil _ hne]
      rw [takeBase_of_head hhead', takeSuffix_concat hc]
      exact ⟨hne, h, rfl⟩
  · rintro ⟨hne, h, rfl⟩
    obtain ⟨ds, rfl, hbase⟩ | ⟨ds, rfl, -, hbase⟩ | ⟨hbase, hhead⟩ := takeBase_cases s
    · rw [hbase] at hne h ⊢
      dsimp only at hne h ⊢
      rw [takeSuffix_of_ne (by decide)] at hne h ⊢
      rw [Nat.mul_one]
      exact .hex hne h
    · rw [hbase] at hne h ⊢
      dsimp only at hne h ⊢
      rw [takeSuffix_of_ne (by decide)] at hne h ⊢
      rw [Nat.mul_one]
      exact .octal hne h
    · rw [hbase, takeSuffix_ten] at hne h ⊢
      cases hlast : s.getLast?.bind suffixFactor with
      | none =>
        simp only [hlast, Nat.mul_one] at hne h ⊢
        rcases hhead with rfl | hhead
        · exact .zero
        · exact .decimal hne h hhead
      | some f =>
        simp only [hlast] at hne h ⊢
        obtain ⟨c, hc, hf⟩ := Option.bind_eq_some_iff.1 hlast
        obtain ⟨ds, rfl⟩ := List.getLast?_eq_some_iff.1 hc
        rw [List.dropLast_concat] at hne h ⊢
        refine .suffixed hne h ?_ hf
        rcases hhead with hzero | hhead
        · rw [List.append_eq_singleton_iff] at hzero
          obtain ⟨rfl, -⟩ | ⟨-, hzero⟩ := hzero
          · exact absurd rfl hne
          · cases hzero
        · rwa [List.head?_append_of_ne_nil _ hne] at hhead

/-- A number without a sign starts with a decimal digit. -/
theorem Magnitude.head {s : Str} {n : ℕ} (h : Magnitude s n) : ∃ c cs, s = c :: cs ∧
    digitOf c < 10 := by
  have hcons : ∀ {ds : Str}, ds ≠ [] → (∀ c ∈ ds, digitOf c < 10) → ∀ t : Str,
      ∃ c cs, ds ++ t = c :: cs ∧ digitOf c < 10 := by
    intro ds hne h t
    cases ds with
    | nil => exact absurd rfl hne
    | cons c cs => exact ⟨c, cs ++ t, rfl, h c List.mem_cons_self⟩
  cases h with
  | hex hne h => exact ⟨'0', _, rfl, by decide⟩
  | octal hne h => exact ⟨'0', _, rfl, by decide⟩
  | zero => exact ⟨'0', [], rfl, by decide⟩
  | decimal hne h _ => simpa using hcons hne h []
  | suffixed hne h _ _ => exact hcons hne h _

/-- **A number, by its sign.** -/
theorem number_iff (s : Str) (v : ℤ) :
    Number s v ↔ ∃ n, Magnitude (takeSign s).2 n ∧ v = (takeSign s).1 * n := by
  constructor
  · intro h
    cases h with
    | unsigned h =>
      obtain ⟨c, cs, rfl, hc⟩ := h.head
      have hsign : takeSign (c :: cs) = (1, c :: cs) := by
        unfold takeSign
        split
        · rename_i heq
          rw [(List.cons.inj heq).1] at hc
          exact absurd hc (by decide)
        · rename_i heq
          rw [(List.cons.inj heq).1] at hc
          exact absurd hc (by decide)
        · rfl
      rw [hsign]
      exact ⟨_, h, (Int.one_mul _).symm⟩
    | plus h => exact ⟨_, h, (Int.one_mul _).symm⟩
    | minus h => exact ⟨_, h, (Int.neg_one_mul _).symm⟩
  · rintro ⟨n, h, rfl⟩
    unfold takeSign at h ⊢
    split at h
    · rw [Int.one_mul]
      exact .plus h
    · rw [Int.neg_one_mul]
      exact .minus h
    · rw [Int.one_mul]
      exact .unsigned h

end Codrive.Strings
