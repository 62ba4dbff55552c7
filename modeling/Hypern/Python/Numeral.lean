import Hypern.Lib.Text
import Hypern.Python.Object
import Mathlib.Algebra.Ring.Int.Defs
import Mathlib.Algebra.Ring.Divisibility.Basic
import Mathlib.Data.List.DropRight

/-! `str.strip`, `str.split`, `int` and `range`. -/

namespace Hypern.Python

def valueError (message : String) : PyExc := builtinError "ValueError" message

/-! ## Blanks -/

/-- `c.isspace()` -/
def isSpace (c : Char) : Bool :=
  let n := c.toNat
  (9 ≤ n && n ≤ 13) || (28 ≤ n && n ≤ 32) || n == 0x85 || n == 0xA0 || n == 0x1680 ||
    (0x2000 ≤ n && n ≤ 0x200A) || n == 0x2028 || n == 0x2029 || n == 0x202F || n == 0x205F ||
    n == 0x3000

def strip (s : List Char) : List Char := (s.dropWhile isSpace).rdropWhile isSpace

/-- `s.split()` -/
def split (s : List Char) : List (List Char) := (s.splitOnP isSpace).filter (· ≠ [])

/-! ## Integers -/

/-- What the conversions take from the tables and the settings of the interpreter. -/
structure Interpreter where
  /-- The value of a decimal digit of any script. -/
  decimal : Char → Option Nat
  decimal_digit : ∀ {c : Char}, c.isDigit = true → decimal c = some (c.toNat - '0'.toNat)
  repr : List Char → String
  /-- `sys.get_int_max_str_digits()`, where zero is no limit. -/
  maxStrDigits : Nat
  maxStrDigits_ge : maxStrDigits = 0 ∨ 640 ≤ maxStrDigits

/-- The information separators are blanks for `strip`, but not for `int`. -/
def isIntSpace (c : Char) : Bool := isSpace c && !(28 ≤ c.toNat && c.toNat ≤ 31)

def signed : List Char → ℤ × List Char
  | '+' :: text => (1, text)
  | '-' :: text => (-1, text)
  | text => (1, text)

namespace Interpreter

variable (py : Interpreter)

def invalidLiteral (s : List Char) : PyExc :=
  valueError
    ("invalid literal for int() with base 10: " ++ String.ofList ((py.repr s).toList.take 200))

def exceedsLimit (digits : Nat) : PyExc :=
  valueError ("Exceeds the limit (" ++ toString py.maxStrDigits ++
    " digits) for integer string conversion: value has " ++ toString digits ++
    " digits; use sys.set_int_max_str_digits() to increase the limit")

def isNumeral (c : Char) : Bool := c == '_' || (py.decimal c).isSome

def valueOf (digits : List Char) : Nat :=
  digits.foldl (fun n c => 10 * n + (py.decimal c).getD 0) 0

/-- A sign stands directly before the digits, and an underscore between two of them. The digits
are counted before what follows them is looked at. -/
def int (s : List Char) : Except PyExc ℤ :=
  let (sign, text) := signed (s.dropWhile isIntSpace)
  let groups := (text.takeWhile py.isNumeral).splitOn '_'
  let digits := groups.flatten
  if [] ∈ groups then .error (py.invalidLiteral s)
  else if py.maxStrDigits ≠ 0 ∧ py.maxStrDigits < digits.length then
    .error (py.exceedsLimit digits.length)
  else if (text.dropWhile py.isNumeral).all isIntSpace then .ok (sign * py.valueOf digits)
  else .error (py.invalidLiteral s)

variable {py} {s : List Char} {e : PyExc}

theorem int_error (h : py.int s = .error e) : e.isInstance "ValueError" = true := by
  unfold int at h
  dsimp only at h
  split_ifs at h
  · rw [← Except.error.inj h]
    rfl
  · rw [← Except.error.inj h]
    rfl
  · rw [← Except.error.inj h]
    rfl

theorem isNumeral_digit {c : Char} (h : c.isDigit = true) : py.isNumeral c = true := by
  unfold isNumeral
  rw [py.decimal_digit h, Option.isSome_some, Bool.or_true]

theorem valueOf_digits (h : ∀ c ∈ s, c.isDigit = true) : py.valueOf s = Nat.ofDigitChars 10 s 0 := by
  rw [Nat.ofDigitChars_eq_foldl]
  apply List.foldl_ext
  intro n c hc
  rw [py.decimal_digit (h c hc), Option.getD_some]

theorem toNat_digit {c : Char} (h : c.isDigit = true) : 48 ≤ c.toNat ∧ c.toNat ≤ 57 := by
  simp only [Char.isDigit, Bool.and_eq_true, decide_eq_true_eq, ge_iff_le, UInt32.le_iff_toNat_le] at h
  exact h

theorem not_isSpace_digit {c : Char} (h : c.isDigit = true) : isSpace c = false := by
  have hdigit := toNat_digit h
  simp only [isSpace, Bool.or_eq_false_iff, Bool.and_eq_false_iff, decide_eq_false_iff_not,
    beq_eq_false_iff_ne]
  omega

theorem signed_digits (hne : s ≠ []) (h : ∀ c ∈ s, c.isDigit = true) : signed s = (1, s) := by
  obtain ⟨c, rest, rfl⟩ := List.exists_cons_of_ne_nil hne
  have hdigit := h c List.mem_cons_self
  unfold signed
  split
  · rename_i hplus
    rw [(List.cons.inj hplus).1] at hdigit
    cases hdigit
  · rename_i hminus
    rw [(List.cons.inj hminus).1] at hdigit
    cases hdigit
  · rfl

/-- Digits are read unless they are too many. -/
theorem int_digits (hne : s ≠ []) (h : ∀ c ∈ s, c.isDigit = true) :
    py.int s = if py.maxStrDigits ≠ 0 ∧ py.maxStrDigits < s.length then
      .error (py.exceedsLimit s.length) else .ok (Nat.ofDigitChars 10 s 0 : ℕ) := by
  obtain ⟨c, rest, hs⟩ := List.exists_cons_of_ne_nil hne
  have hdrop : s.dropWhile isIntSpace = s := by
    have hc : isIntSpace c = false := by
      unfold isIntSpace
      rw [not_isSpace_digit (h c (hs ▸ List.mem_cons_self)), Bool.false_and]
    rw [hs, List.dropWhile_cons_of_neg (ne_true_of_eq_false hc)]
  have hnumeral : ∀ c ∈ s, py.isNumeral c = true := fun c hc => isNumeral_digit (h c hc)
  have hgroups : s.splitOn '_' = [s] := by
    apply List.splitOn_eq_singleton
    intro hmem
    exact absurd (h _ hmem) (by decide)
  have hempty : ([] : List Char) ∉ [s] := by
    intro hmem
    exact hne (List.mem_singleton.mp hmem).symm
  unfold int
  dsimp only
  rw [hdrop, signed_digits hne h]
  dsimp only
  rw [List.takeWhile_eq_self_iff.mpr hnumeral, List.dropWhile_eq_nil_iff.mpr hnumeral, hgroups,
    if_neg hempty, List.flatten_singleton, valueOf_digits h, List.all_nil, if_pos rfl, one_mul]

end Interpreter

/-! ## Ranges -/

def rangeLength (start stop step : ℤ) : ℕ :=
  if 0 < step then ((stop - start + step - 1) / step).toNat
  else ((start - stop - step - 1) / -step).toNat

def rangeItems (start stop step : ℤ) : List ℤ :=
  (List.range (rangeLength start stop step)).map fun (i : ℕ) => start + i * step

def range (start stop step : ℤ) : Except PyExc (List ℤ) :=
  if step = 0 then .error (valueError "range() arg 3 must not be zero")
  else .ok (rangeItems start stop step)

theorem mem_rangeItems {start stop step v : ℤ} (h : 0 < step) :
    v ∈ rangeItems start stop step ↔ start ≤ v ∧ v < stop ∧ step ∣ v - start := by
  simp only [rangeItems, rangeLength, if_pos h, List.mem_map, List.mem_range, Int.lt_toNat]
  constructor
  · rintro ⟨i, hi, rfl⟩
    have hlast := (Int.le_ediv_iff_mul_le h).mp (Int.add_one_le_of_lt hi)
    refine ⟨?_, ?_, ?_⟩
    · have := Int.mul_nonneg (Int.natCast_nonneg i) (Int.le_of_lt h)
      omega
    · rw [add_mul, one_mul] at hlast
      omega
    · rw [add_sub_cancel_left]
      exact Dvd.intro_left _ rfl
  · rintro ⟨hstart, hstop, k, hk⟩
    have hk0 : 0 ≤ k := by
      by_contra hneg
      have := Int.mul_neg_of_pos_of_neg h (by omega : k < 0)
      omega
    refine ⟨k.toNat, ?_, ?_⟩
    · rw [Int.toNat_of_nonneg hk0]
      apply Int.lt_of_add_one_le
      apply (Int.le_ediv_iff_mul_le h).mpr
      rw [add_mul, one_mul, mul_comm k]
      omega
    · rw [Int.toNat_of_nonneg hk0, mul_comm k, ← hk]
      omega

/-- A negative step never enters a range that goes up. -/
theorem rangeItems_of_neg {start stop step : ℤ} (h : step < 0) (hle : start ≤ stop) :
    rangeItems start stop step = [] := by
  have hlength : rangeLength start stop step = 0 := by
    unfold rangeLength
    rw [if_neg (by omega), Int.toNat_eq_zero]
    have := Int.ediv_lt_of_lt_mul (a := start - stop - step - 1) (b := 1) (c := -step) (by omega)
      (by omega)
    omega
  unfold rangeItems
  rw [hlength]
  rfl

end Hypern.Python
