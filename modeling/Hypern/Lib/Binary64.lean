import Mathlib.Algebra.Order.Archimedean.Basic
import Mathlib.Algebra.Order.Field.Power
import Mathlib.Data.Int.Log
import Mathlib.Data.Rat.Floor
import Mathlib.Tactic.Linarith
import Mathlib.Tactic.NormNum
import Mathlib.Tactic.Positivity

/-! Rounding of rational numbers to binary numbers of 53 bits: to the nearest, and of two to the even
one. The exponent has no upper bound. -/

namespace Hypern.Lib.Binary64

/-! ## The nearest integer -/

def nearest (x : ℚ) : ℤ :=
  if x - ⌊x⌋ < 1 / 2 ∨ (x - ⌊x⌋ = 1 / 2 ∧ ⌊x⌋ % 2 = 0) then ⌊x⌋ else ⌊x⌋ + 1

variable {x : ℚ} {n : ℤ}

theorem nearest_intCast (n : ℤ) : nearest n = n := by
  unfold nearest
  rw [Int.floor_intCast, sub_self, if_pos (.inl (by norm_num))]

theorem le_nearest (h : (n : ℚ) ≤ x) : n ≤ nearest x := by
  have hfloor := Int.le_floor.mpr h
  unfold nearest
  split_ifs
  · exact hfloor
  · exact hfloor.trans (Int.le_add_one (le_refl _))

theorem nearest_le (h : x < n) : nearest x ≤ n := by
  have hfloor := Int.floor_lt.mpr h
  unfold nearest
  split_ifs
  · exact hfloor.le
  · exact hfloor

theorem abs_nearest_le (h : |x| < n) : |nearest x| ≤ n := by
  obtain ⟨hlow, hhigh⟩ := abs_lt.mp h
  refine abs_le.mpr ⟨le_nearest ?_, nearest_le hhigh⟩
  rw [Int.cast_neg]
  exact hlow.le

/-! ## The last place -/

/-- The exponent of the last of the 53 bits; the smallest numbers have fewer of them. -/
def lastPlace (x : ℚ) : ℤ := max (Int.log 2 |x| - 52) (-1074)

def round (x : ℚ) : ℚ := nearest (x / 2 ^ lastPlace x) * 2 ^ lastPlace x

def Representable (x : ℚ) : Prop := ∃ m e : ℤ, |m| ≤ 2 ^ 53 ∧ -1074 ≤ e ∧ x = m * 2 ^ e

theorem round_zero : round 0 = 0 := by
  unfold round
  rw [zero_div, ← Int.cast_zero, nearest_intCast, Int.cast_zero, zero_mul]

theorem two_zpow_add (place : ℤ) : (2 : ℚ) ^ (place + 52) = (2 ^ 52 : ℤ) * 2 ^ place := by
  rw [zpow_add₀ two_ne_zero, mul_comm]
  norm_num

theorem abs_lt_lastPlace (x : ℚ) : |x| < 2 ^ (lastPlace x + 53) := by
  rcases eq_or_ne x 0 with rfl | hx
  · rw [abs_zero]
    positivity
  · refine (Int.lt_zpow_succ_log_self one_lt_two |x|).trans_le ?_
    refine zpow_le_zpow_right₀ (by norm_num) ?_
    have hle := le_max_left (Int.log 2 |x| - 52) (-1074)
    unfold lastPlace
    omega

/-- A number has all its bits, or its last place is the smallest. -/
theorem le_abs_of_lastPlace (hx : x ≠ 0) : 2 ^ (lastPlace x + 52) ≤ |x| ∨ lastPlace x = -1074 := by
  rcases le_total (-1074) (Int.log 2 |x| - 52) with h | h
  · refine .inl (le_trans (le_of_eq ?_) (Int.zpow_log_le_self one_lt_two (abs_pos.mpr hx)))
    unfold lastPlace
    rw [max_eq_left h, sub_add_cancel, Nat.cast_ofNat]
  · exact .inr (max_eq_right h)

theorem representable_round (x : ℚ) : Representable (round x) := by
  refine ⟨nearest (x / 2 ^ lastPlace x), lastPlace x, abs_nearest_le ?_, le_max_right _ _, rfl⟩
  have hpos : (0 : ℚ) < 2 ^ lastPlace x := by positivity
  rw [abs_div, abs_of_pos hpos, div_lt_iff₀ hpos]
  refine (abs_lt_lastPlace x).trans_le (le_of_eq ?_)
  rw [zpow_add₀ two_ne_zero, mul_comm]
  norm_num

/-- A representable number is a multiple of a place that is not too high for it. -/
theorem Representable.multiple (h : Representable x) {place : ℤ}
    (hplace : 2 ^ (place + 52) ≤ |x| ∨ place = -1074) : ∃ n : ℤ, x = n * 2 ^ place := by
  obtain ⟨m, e, hm, he, rfl⟩ := h
  rcases le_or_gt place e with hle | hlt
  · refine ⟨m * 2 ^ (e - place).toNat, ?_⟩
    have hsplit : (2 : ℚ) ^ e = 2 ^ (e - place).toNat * 2 ^ place := by
      rw [← zpow_natCast, ← zpow_add₀ two_ne_zero]
      congr 1
      omega
    rw [hsplit]
    push_cast
    ring
  · -- a number of 53 bits below that place is a power of two
    have hleast := hplace.resolve_right (by omega)
    have hpos : (0 : ℚ) < 2 ^ e := by positivity
    have hbits : |(m : ℚ)| ≤ 2 ^ 53 := by exact_mod_cast hm
    have hmost : |(m : ℚ) * 2 ^ e| ≤ 2 ^ (place + 52) := by
      rw [abs_mul, abs_of_pos hpos]
      refine (mul_le_mul_of_nonneg_right hbits hpos.le).trans ?_
      have hsum : (2 : ℚ) ^ 53 * 2 ^ e = 2 ^ (e + 53) := by
        rw [zpow_add₀ two_ne_zero, mul_comm]
        norm_num
      rw [hsum]
      exact zpow_le_zpow_right₀ (by norm_num) (by omega)
    rcases eq_or_eq_neg_of_abs_eq (hmost.antisymm hleast) with heq | heq
    · exact ⟨2 ^ 52, heq.trans (two_zpow_add _)⟩
    · refine ⟨-2 ^ 52, heq.trans ?_⟩
      rw [two_zpow_add, Int.cast_neg, neg_mul]

theorem round_of_representable (h : Representable x) : round x = x := by
  rcases eq_or_ne x 0 with rfl | hx
  · exact round_zero
  · obtain ⟨n, hn⟩ := h.multiple (le_abs_of_lastPlace hx)
    have hne : (2 : ℚ) ^ lastPlace x ≠ 0 := by positivity
    have hquotient : x / 2 ^ lastPlace x = n := (div_eq_iff hne).mpr hn
    unfold round
    rw [hquotient, nearest_intCast]
    exact hn.symm

/-- Rounding does not go below a representable number. -/
theorem le_round {r : ℚ} (hr : Representable r) (hx : 0 ≤ x) (h : r ≤ x) : r ≤ round x := by
  rcases hx.eq_or_lt with rfl | hpos
  · rwa [round_zero]
  · have hplace : (0 : ℚ) < 2 ^ lastPlace x := by positivity
    by_cases hhigh : 2 ^ (lastPlace x + 52) ≤ |r| ∨ lastPlace x = -1074
    · obtain ⟨n, hn⟩ := hr.multiple hhigh
      have hle : (n : ℚ) ≤ x / 2 ^ lastPlace x := by rwa [le_div_iff₀ hplace, ← hn]
      rw [hn]
      exact mul_le_mul_of_nonneg_right (by exact_mod_cast le_nearest hle) hplace.le
    · -- the number below has fewer bits before the last place
      obtain ⟨hbelow, hnormal⟩ := not_or.mp hhigh
      have hleast := (le_abs_of_lastPlace hpos.ne').resolve_right hnormal
      rw [abs_of_pos hpos] at hleast
      have hle : ((2 ^ 52 : ℤ) : ℚ) ≤ x / 2 ^ lastPlace x := by
        rwa [le_div_iff₀ hplace, ← two_zpow_add]
      refine ((le_abs_self r).trans (not_le.mp hbelow).le).trans ?_
      rw [two_zpow_add]
      exact mul_le_mul_of_nonneg_right (by exact_mod_cast le_nearest hle) hplace.le

/-! ## Representable numbers -/

theorem representable_natCast {n : ℕ} (h : n ≤ 2 ^ 53) : Representable n :=
  ⟨n, 0, by rw [Nat.abs_cast]; exact_mod_cast h, by norm_num, by simp⟩

theorem round_nonneg (hx : 0 ≤ x) : 0 ≤ round x := by
  have hzero := representable_natCast (Nat.zero_le _)
  rw [Nat.cast_zero] at hzero
  exact le_round hzero hx hx

/-- One is subtracted without rounding. -/
theorem Representable.sub_one (h : Representable x) (hlow : 1 ≤ x) (hhigh : x ≤ 2 ^ 53) :
    Representable (x - 1) := by
  obtain ⟨m, e, hm, he, rfl⟩ := h
  have hm' := (abs_le.mp hm).2
  rcases le_total e 0 with hneg | hpos
  · have hone : (1 : ℚ) = (2 ^ (-e).toNat : ℤ) * 2 ^ e := by
      push_cast
      rw [← zpow_natCast, ← zpow_add₀ two_ne_zero, Int.toNat_of_nonneg (by omega), neg_add_cancel,
        zpow_zero]
    have hplace : (0 : ℚ) < 2 ^ e := by positivity
    have hle : (2 ^ (-e).toNat : ℤ) ≤ m := by
      rw [hone] at hlow
      exact_mod_cast le_of_mul_le_mul_right hlow hplace
    have hnonneg : (0 : ℤ) < 2 ^ (-e).toNat := by positivity
    refine ⟨m - 2 ^ (-e).toNat, e, abs_le.mpr ⟨by omega, by omega⟩, he, ?_⟩
    rw [Int.cast_sub, sub_mul, ← hone]
  · have hwhole : (m : ℚ) * 2 ^ e = (m * 2 ^ e.toNat : ℤ) := by
      push_cast
      rw [← zpow_natCast, Int.toNat_of_nonneg hpos]
    rw [hwhole] at hlow hhigh ⊢
    have hleast : (1 : ℤ) ≤ m * 2 ^ e.toNat := by exact_mod_cast hlow
    have hmost : m * 2 ^ e.toNat ≤ (2 ^ 53 : ℤ) := by exact_mod_cast hhigh
    refine ⟨m * 2 ^ e.toNat - 1, 0, abs_le.mpr ⟨by omega, by omega⟩, by norm_num, ?_⟩
    rw [zpow_zero, mul_one]
    push_cast
    rfl

end Hypern.Lib.Binary64
