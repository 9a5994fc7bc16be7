/-
# The layout of a struct

The fields of a struct stand in their order, each at the least multiple of its size that is not
below the end of the field before it, and what is between them is padding.  A field is the list of
its bytes here, and its alignment is its size.

`StructImage` says what the bytes of a struct are, place by place; `StructImage.snoc` is the layout
grown by one more field.
-/

import Mathlib.Data.List.Basic
import Mathlib.Order.Bounds.Basic
import Mathlib.Tactic.Common

namespace Codrive.Basis

variable {β : Type*} {pad : β} {fs : List (List β)} {f : List β} {img img' : List β} {n : ℕ}

/-- The least multiple of `a` from `e` on. -/
def nextMultiple (a e : ℕ) : ℕ := e + (a - e % a) % a

theorem le_nextMultiple (a e : ℕ) : e ≤ nextMultiple a e := Nat.le_add_right ..

theorem dvd_nextMultiple (ha : 0 < a) (e : ℕ) : a ∣ nextMultiple a e := by
  have hlt : e % a < a := Nat.mod_lt e ha
  refine Nat.dvd_of_mod_eq_zero ?_
  rw [nextMultiple, Nat.add_mod, Nat.mod_mod]
  by_cases h : e % a = 0
  · simp [h]
  · rw [Nat.mod_eq_of_lt (show a - e % a < a by omega), show e % a + (a - e % a) = a by omega,
      Nat.mod_self]

/-- **It is the least one.** -/
theorem isLeast_nextMultiple (ha : 0 < a) (e : ℕ) :
    IsLeast {o | e ≤ o ∧ a ∣ o} (nextMultiple a e) := by
  refine ⟨⟨le_nextMultiple a e, dvd_nextMultiple ha e⟩, fun o ⟨hle, hdvd⟩ => ?_⟩
  -- two multiples that are less than `a` apart
  have hlt : nextMultiple a e < e + a := Nat.add_lt_add_left (Nat.mod_lt _ ha) e
  by_contra hnot
  have hsub : a ∣ nextMultiple a e - o := Nat.dvd_sub (dvd_nextMultiple ha e) hdvd
  have := Nat.le_of_dvd (by omega) hsub
  omega

/-! ### Where the fields are -/

/-- Where a field starts that comes after `e`. -/
def fieldStart (e : ℕ) (f : List β) : ℕ := nextMultiple f.length e

/-- Where the fields end that come after `e`. -/
def fieldsEndFrom (e : ℕ) (fs : List (List β)) : ℕ :=
  fs.foldl (fun e f => fieldStart e f + f.length) e

/-- Where the last field ends. -/
def fieldsEnd (fs : List (List β)) : ℕ := fieldsEndFrom 0 fs

/-- The alignment of the whole: the greatest of its fields' alignments. -/
def structAlign (fs : List (List β)) : ℕ := fs.foldr (fun f a => max f.length a) 1

/-- The size of the whole: a multiple of its alignment, so that structs can stand side by side. -/
def structSize (fs : List (List β)) : ℕ := nextMultiple (structAlign fs) (fieldsEnd fs)

@[simp] theorem fieldsEnd_nil : fieldsEnd ([] : List (List β)) = 0 := rfl

theorem fieldsEnd_append (fs gs : List (List β)) :
    fieldsEnd (fs ++ gs) = fieldsEndFrom (fieldsEnd fs) gs :=
  List.foldl_append ..

theorem fieldsEnd_snoc (fs : List (List β)) (f : List β) :
    fieldsEnd (fs ++ [f]) = fieldStart (fieldsEnd fs) f + f.length :=
  fieldsEnd_append fs [f]

theorem le_fieldStart (e : ℕ) (f : List β) : e ≤ fieldStart e f := le_nextMultiple ..

theorem le_fieldsEndFrom (e : ℕ) (fs : List (List β)) : e ≤ fieldsEndFrom e fs := by
  induction fs generalizing e with
  | nil => exact Nat.le_refl e
  | cons f fs ih =>
    have hstart := le_fieldStart e f
    have hrest := ih (fieldStart e f + f.length)
    rw [fieldsEndFrom, List.foldl_cons]
    exact (by omega : e ≤ fieldStart e f + f.length).trans hrest

/-- A field ends before the last one does. -/
theorem field_le_fieldsEnd (before after : List (List β)) (f : List β) :
    fieldStart (fieldsEnd before) f + f.length ≤ fieldsEnd (before ++ f :: after) := by
  rw [fieldsEnd_append]
  exact le_fieldsEndFrom _ after

/-- The trailing padding is behind the last field. -/
theorem fieldsEnd_le_structSize (fs : List (List β)) : fieldsEnd fs ≤ structSize fs :=
  le_nextMultiple ..

/-! ### What the bytes are -/

/-- **The first `n` bytes of a struct**: each field's own bytes where the field is, and padding
everywhere else. -/
structure StructImage (pad : β) (fs : List (List β)) (n : ℕ) (img : List β) : Prop where
  length : img.length = n
  field : ∀ before f after, fs = before ++ f :: after → ∀ i < f.length,
    img[fieldStart (fieldsEnd before) f + i]? = f[i]?
  padding : ∀ p < n, (∀ before f after, fs = before ++ f :: after →
    p < fieldStart (fieldsEnd before) f ∨ fieldStart (fieldsEnd before) f + f.length ≤ p) →
    img[p]? = some pad

namespace StructImage

/-- No field. -/
theorem nil (pad : β) : StructImage pad [] 0 [] where
  length := rfl
  field before f after h := by simp at h
  padding p hp := by omega

/-- **Nothing else has these bytes.** -/
theorem unique (h : StructImage pad fs n img) (h' : StructImage pad fs n img') : img = img' := by
  refine List.ext_getElem? fun p => ?_
  by_cases hp : p < n
  · by_cases hfield : ∃ before f after, fs = before ++ f :: after ∧
        fieldStart (fieldsEnd before) f ≤ p ∧ p < fieldStart (fieldsEnd before) f + f.length
    · obtain ⟨before, f, after, hfs, hle, hlt⟩ := hfield
      obtain ⟨i, rfl⟩ := Nat.exists_eq_add_of_le hle
      rw [h.field before f after hfs i (by omega), h'.field before f after hfs i (by omega)]
    · have hout : ∀ before f after, fs = before ++ f :: after →
          p < fieldStart (fieldsEnd before) f ∨
            fieldStart (fieldsEnd before) f + f.length ≤ p := by
        intro before f after hfs
        by_contra hin
        exact hfield ⟨before, f, after, hfs, by omega, by omega⟩
      rw [h.padding p hp hout, h'.padding p hp hout]
  · rw [List.getElem?_eq_none (by rw [h.length]; omega),
      List.getElem?_eq_none (by rw [h'.length]; omega)]

/-- **More padding** behind the last field. -/
theorem append_padding (h : StructImage pad fs n img) (hn : fieldsEnd fs ≤ n) (k : ℕ) :
    StructImage pad fs (n + k) (img ++ List.replicate k pad) where
  length := by rw [List.length_append, List.length_replicate, h.length]
  field before f after hfs i hi := by
    have hle := field_le_fieldsEnd before after f
    rw [← hfs] at hle
    rw [List.getElem?_append_left (by rw [h.length]; omega)]
    exact h.field before f after hfs i hi
  padding p hp hout := by
    by_cases hlt : p < n
    · rw [List.getElem?_append_left (by rw [h.length]; exact hlt)]
      exact h.padding p hlt hout
    · rw [List.getElem?_append_right (by rw [h.length]; omega), h.length]
      exact List.getElem?_replicate_of_lt (by omega)

/-- **One more field**: padding up to where it starts, and its bytes. -/
theorem snoc (h : StructImage pad fs (fieldsEnd fs) img) (f : List β) :
    StructImage pad (fs ++ [f]) (fieldsEnd (fs ++ [f]))
      (img ++ List.replicate (fieldStart (fieldsEnd fs) f - fieldsEnd fs) pad ++ f) := by
  have hstart := le_fieldStart (fieldsEnd fs) f
  -- the image up to where the field starts
  have hpadded := h.append_padding (Nat.le_refl _) (fieldStart (fieldsEnd fs) f - fieldsEnd fs)
  rw [Nat.add_sub_cancel' hstart] at hpadded
  refine ⟨?_, fun before g after hfs i hi => ?_, fun p hp hout => ?_⟩
  · rw [List.length_append, hpadded.length, fieldsEnd_snoc]
  · rcases List.eq_nil_or_concat after with rfl | ⟨after, g', rfl⟩
    · obtain ⟨rfl, hg⟩ := List.append_inj' hfs rfl
      obtain rfl : f = g := by simpa using hg
      rw [List.getElem?_append_right (by rw [hpadded.length]; omega), hpadded.length,
        Nat.add_sub_cancel_left]
    · rw [List.concat_eq_append, ← List.cons_append, ← List.append_assoc] at hfs
      obtain ⟨hfs, -⟩ := List.append_inj' hfs rfl
      have hle := field_le_fieldsEnd before after g
      rw [← hfs] at hle
      rw [List.getElem?_append_left (by rw [hpadded.length]; omega)]
      exact hpadded.field before g after hfs i hi
  · have hlast := hout fs f [] rfl
    rw [fieldsEnd_snoc] at hp
    have hlt : p < fieldStart (fieldsEnd fs) f := by omega
    rw [List.getElem?_append_left (by rw [hpadded.length]; exact hlt)]
    refine hpadded.padding p hlt fun before g after hfs => ?_
    exact hout before g (after ++ [f]) (by rw [hfs]; simp)

end StructImage

end Codrive.Basis
