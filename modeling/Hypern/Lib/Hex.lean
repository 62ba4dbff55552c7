import Mathlib.Data.List.Basic

/-! Zero-padded hexadecimal numbers, as `{:0wx}` writes them. -/

namespace Hypern.Lib

/-- `n` in lower-case hexadecimal, padded with zeros to at least `width` characters. -/
def hex (width n : Nat) : List Char :=
  List.replicate (width - (Nat.toDigits 16 n).length) '0' ++ Nat.toDigits 16 n

def digitValue (c : Char) : Nat := if c.isDigit then c.toNat - 48 else c.toNat - 87

def hexValue (cs : List Char) : Nat := cs.foldl (fun v c => 16 * v + digitValue c) 0

theorem digitValue_digitChar {d : Nat} (h : d < 16) : digitValue d.digitChar = d := by
  have hall : ∀ d : Fin 16, digitValue d.val.digitChar = d.val := by decide
  exact hall ⟨d, h⟩

theorem digitChar_ne_underscore {d : Nat} (h : d < 16) : d.digitChar ≠ '_' := by
  have hall : ∀ d : Fin 16, d.val.digitChar ≠ '_' := by decide
  exact hall ⟨d, h⟩

theorem toDigits_hex (n : Nat) : Nat.toDigits 16 n =
    if n < 16 then [n.digitChar] else Nat.toDigits 16 (n / 16) ++ [(n % 16).digitChar] :=
  Nat.toDigits_eq_if (by decide)

theorem hexValue_concat (cs : List Char) (c : Char) :
    hexValue (cs ++ [c]) = 16 * hexValue cs + digitValue c := by
  unfold hexValue
  rw [List.foldl_append]
  rfl

theorem hexValue_toDigits (n : Nat) : hexValue (Nat.toDigits 16 n) = n := by
  induction n using Nat.strongRecOn with
  | ind n ih =>
    rw [toDigits_hex]
    split_ifs with hlt
    · change 16 * 0 + digitValue n.digitChar = n
      rw [digitValue_digitChar hlt, Nat.mul_zero, Nat.zero_add]
    · have hdiv : n / 16 < n := Nat.div_lt_self (by omega) (by decide)
      rw [hexValue_concat, ih _ hdiv, digitValue_digitChar (Nat.mod_lt n (by decide))]
      exact Nat.div_add_mod n 16

theorem hexValue_zeros (k : Nat) (cs : List Char) :
    hexValue (List.replicate k '0' ++ cs) = hexValue cs := by
  induction k with
  | zero => rfl
  | succ k ih => exact ih

theorem hexValue_hex (width n : Nat) : hexValue (hex width n) = n := by
  unfold hex
  rw [hexValue_zeros, hexValue_toDigits]

theorem hex_injective (width : Nat) : Function.Injective (hex width) := by
  intro m n h
  rw [← hexValue_hex width m, h, hexValue_hex]

theorem underscore_notMem_toDigits (n : Nat) : '_' ∉ Nat.toDigits 16 n := by
  induction n using Nat.strongRecOn with
  | ind n ih =>
    rw [toDigits_hex]
    split_ifs with hlt
    · rw [List.mem_singleton]
      exact (digitChar_ne_underscore hlt).symm
    · have hdiv : n / 16 < n := Nat.div_lt_self (by omega) (by decide)
      rw [List.mem_append, List.mem_singleton]
      rintro (hmem | heq)
      · exact ih _ hdiv hmem
      · exact digitChar_ne_underscore (Nat.mod_lt n (by decide)) heq.symm

theorem underscore_notMem_hex (width n : Nat) : '_' ∉ hex width n := by
  unfold hex
  rw [List.mem_append]
  rintro (hmem | hmem)
  · exact absurd (List.eq_of_mem_replicate hmem) (by decide)
  · exact underscore_notMem_toDigits n hmem

end Hypern.Lib
