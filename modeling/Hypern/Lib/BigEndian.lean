import Mathlib.Data.Int.DivMod
import Mathlib.Tactic.Positivity
import Mathlib.Tactic.Zify

/-! Integers in two's complement, most significant byte first. -/

namespace Hypern.Lib

def bigEndian : Nat → Nat → List UInt8
  | 0, _ => []
  | w + 1, n => bigEndian w (n / 256) ++ [UInt8.ofNat n]

def ofBigEndian (bytes : List UInt8) : Nat := bytes.foldl (fun n b => n * 256 + b.toNat) 0

/-- The lowest `w` bytes of an integer. -/
def putInt (w : Nat) (i : Int) : List UInt8 := bigEndian w (i % 256 ^ w).toNat

/-- The signed integer of as many bytes. -/
def getInt (bytes : List UInt8) : Int := Int.bmod (ofBigEndian bytes) (256 ^ bytes.length)

@[simp] theorem length_bigEndian (w n : Nat) : (bigEndian w n).length = w := by
  induction w generalizing n with
  | zero => rfl
  | succ w ih => rw [bigEndian, List.length_append, ih, List.length_singleton]

@[simp] theorem length_putInt (w : Nat) (i : Int) : (putInt w i).length = w := length_bigEndian ..

theorem ofBigEndian_bigEndian (w n : Nat) : ofBigEndian (bigEndian w n) = n % 256 ^ w := by
  induction w generalizing n with
  | zero => exact (Nat.mod_one n).symm
  | succ w ih =>
    have hprefix : (bigEndian w (n / 256)).foldl (fun n b => n * 256 + b.toNat) 0 =
        n / 256 % 256 ^ w := ih (n / 256)
    have hbyte : (UInt8.ofNat n).toNat = n % 256 := UInt8.toNat_ofNat'
    rw [bigEndian, ofBigEndian, List.foldl_append, hprefix, List.foldl_cons, List.foldl_nil, hbyte,
      pow_succ', Nat.mod_mul, Nat.add_comm, Nat.mul_comm]

theorem getInt_putInt (w : Nat) (i : Int) : getInt (putInt w i) = i.bmod (256 ^ w) := by
  have hpos : (0 : Int) < 256 ^ w := by positivity
  have hnonneg := Int.emod_nonneg i hpos.ne'
  have hlt := Int.emod_lt_of_pos i hpos
  have hnat : (i % 256 ^ w).toNat % 256 ^ w = (i % 256 ^ w).toNat := by
    apply Nat.mod_eq_of_lt
    zify
    rwa [Int.toNat_of_nonneg hnonneg]
  rw [getInt, putInt, length_bigEndian, ofBigEndian_bigEndian, hnat, Int.toNat_of_nonneg hnonneg]
  exact_mod_cast Int.emod_bmod (x := i) (n := 256 ^ w)

theorem getInt_bounds (bytes : List UInt8) :
    -(256 ^ bytes.length / 2) ≤ getInt bytes ∧ getInt bytes < (256 ^ bytes.length + 1) / 2 := by
  have hpos : 0 < 256 ^ bytes.length := by positivity
  have hlower := Int.le_bmod (x := ofBigEndian bytes) hpos
  have hupper := Int.bmod_lt (x := ofBigEndian bytes) hpos
  rw [Nat.cast_pow, Nat.cast_ofNat] at hlower hupper
  exact ⟨hlower, hupper⟩

end Hypern.Lib
