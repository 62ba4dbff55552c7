import Mathlib

/-! ASCII letters and digits, and their case. -/

namespace Hypern.Lib

variable {c : Char}

theorem ascii_of_isLower (h : c.isLower = true) : c.toNat < 128 := by
  simp only [Char.isLower, Bool.and_eq_true, decide_eq_true_eq, UInt32.le_iff_toNat_le,
    ge_iff_le] at h
  have hbound : c.toNat ≤ 122 := h.2
  omega

theorem ascii_of_isUpper (h : c.isUpper = true) : c.toNat < 128 := by
  simp only [Char.isUpper, decide_eq_true_eq, UInt32.le_iff_toNat_le, ge_iff_le] at h
  have hbound : c.toNat ≤ 90 := h.2
  omega

theorem not_isUpper_of_isDigit (h : c.isDigit = true) : ¬ c.isUpper = true := by
  simp only [Char.isDigit, Char.isUpper, Bool.and_eq_true, decide_eq_true_eq,
    UInt32.le_iff_toNat_le, ge_iff_le] at h ⊢
  have hbound : c.toNat ≤ 57 := h.2
  rintro ⟨hupper, -⟩
  have hfrom : 65 ≤ c.toNat := hupper
  omega

theorem isLower_or_isDigit_toLower (h : c.isAlphanum = true) :
    c.toLower.isLower = true ∨ c.toLower.isDigit = true := by
  simp only [Char.isAlphanum, Bool.or_eq_true] at h
  rcases h with h | h
  · rw [Char.isLower_toLower_eq_isAlpha]
    exact .inl h
  · rw [Char.toLower_eq_of_not_isUpper (not_isUpper_of_isDigit h)]
    exact .inr h

theorem toLower_of_isLower_or_isDigit (h : c.isLower = true ∨ c.isDigit = true) :
    c.isAlphanum = true ∧ c.toLower = c := by
  rcases h with h | h
  · have hupper := Char.not_isUpper_of_isLower h
    exact ⟨by simp [Char.isAlphanum, Char.isAlpha, h], Char.toLower_eq_of_not_isUpper hupper⟩
  · have hupper := not_isUpper_of_isDigit h
    exact ⟨by simp [Char.isAlphanum, h], Char.toLower_eq_of_not_isUpper hupper⟩

/-- The upper-case form of a lower-case letter, and the way back. -/
theorem toUpper_of_isLower (h : c.isLower = true) :
    c.toUpper.isUpper = true ∧ c.toUpper.isLower = false ∧ c.toUpper.toLower = c ∧
      c.isUpper = false ∧ c ≠ '_' := by
  have halpha : c.isAlpha = true := by simp [Char.isAlpha, h]
  have hupper := Char.not_isUpper_of_isLower h
  refine ⟨?_, Char.isLower_toUpper_eq_false c, ?_, Bool.eq_false_iff.mpr hupper, ?_⟩
  · rw [Char.isUpper_toUpper_eq_isAlpha, halpha]
  · rw [Char.toLower_toUpper_eq_toLower, Char.toLower_eq_of_not_isUpper hupper]
  · rintro rfl
    cases h

end Hypern.Lib
