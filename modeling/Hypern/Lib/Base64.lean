import Mathlib.Data.Nat.Digits.Lemmas
import Mathlib.Tactic.Ring

/-! Digits of some bits regrouped into digits of more bits, through an accumulator that holds
what is left over; and Base64, which writes bytes as digits of six bits. -/

namespace Hypern.Lib

/-- The number with those digits of `w` bits, the first one the most significant. -/
def number (w : Nat) (ds : List Nat) : Nat := Nat.ofDigits (2 ^ w) ds.reverse

theorem number_concat (w : Nat) (ds : List Nat) (d : Nat) :
    number w (ds ++ [d]) = number w ds * 2 ^ w + d := by
  unfold number
  rw [List.reverse_append, List.reverse_singleton, List.singleton_append, Nat.ofDigits_cons]
  ring

theorem number_append (w : Nat) (ds es : List Nat) :
    number w (ds ++ es) = number w ds * 2 ^ (w * es.length) + number w es := by
  unfold number
  rw [List.reverse_append, Nat.ofDigits_append, List.length_reverse, ← pow_mul]
  ring

theorem number_inj {w : Nat} (hw : 0 < w) {ds es : List Nat} (hlength : ds.length = es.length)
    (hds : ∀ d ∈ ds, d < 2 ^ w) (hes : ∀ e ∈ es, e < 2 ^ w) (h : number w ds = number w es) :
    ds = es := by
  refine List.reverse_injective (Nat.ofDigits_inj_of_len_eq (Nat.one_lt_two_pow hw.ne') ?_ ?_ ?_ h)
  · rw [List.length_reverse, List.length_reverse, hlength]
  · exact fun d hd => hds d (List.mem_reverse.mp hd)
  · exact fun e he => hes e (List.mem_reverse.mp he)

/-! ## Regrouping -/

/-- The bits that are left over, and the digits that came out. -/
structure Accumulator where
  buffer : Nat
  bits : Nat
  output : List Nat

namespace Accumulator

def empty : Accumulator := ⟨0, 0, []⟩

/-- A digit of `w` bits goes in; when there are `k` bits, a digit comes out. -/
def push (w k : Nat) (r : Accumulator) (v : Nat) : Accumulator :=
  let buffer := r.buffer * 2 ^ w + v
  let bits := r.bits + w
  if k ≤ bits then ⟨buffer % 2 ^ (bits - k), bits - k, r.output ++ [buffer / 2 ^ (bits - k)]⟩
  else ⟨buffer, bits, r.output⟩

/-- The digits that went in, the digits that came out and what is left over are one number. -/
structure Holds (w k : Nat) (r : Accumulator) (vs : List Nat) : Prop where
  bits_lt : r.bits < k
  buffer_lt : r.buffer < 2 ^ r.bits
  length : k * r.output.length + r.bits = w * vs.length
  output_lt : ∀ d ∈ r.output, d < 2 ^ k
  number_eq : number k r.output * 2 ^ r.bits + r.buffer = number w vs

variable {w k : Nat} {r : Accumulator} {vs : List Nat}

theorem holds_empty (hk : 0 < k) : Holds w k empty [] where
  bits_lt := hk
  buffer_lt := Nat.one_pos
  length := rfl
  output_lt := nofun
  number_eq := rfl

/-- The accumulator before a digit comes out. -/
theorem Holds.shifted_lt (h : Holds w k r vs) {v : Nat} (hv : v < 2 ^ w) :
    r.buffer * 2 ^ w + v < 2 ^ (r.bits + w) := by
  rw [pow_add]
  calc r.buffer * 2 ^ w + v < (r.buffer + 1) * 2 ^ w := by rw [add_mul, one_mul]; omega
    _ ≤ 2 ^ r.bits * 2 ^ w := Nat.mul_le_mul_right _ h.buffer_lt

theorem Holds.push (h : Holds w k r vs) (hwk : w ≤ k) {v : Nat} (hv : v < 2 ^ w) :
    Holds w k (r.push w k v) (vs ++ [v]) := by
  have hshifted := h.shifted_lt hv
  have hnumber : number k r.output * 2 ^ (r.bits + w) + (r.buffer * 2 ^ w + v) =
      number w (vs ++ [v]) := by
    rw [number_concat, ← h.number_eq]
    ring
  have hlength : w * (vs ++ [v]).length = w * vs.length + w := by
    rw [List.length_append, List.length_singleton, Nat.mul_succ]
  have hbits := h.bits_lt
  unfold Accumulator.push
  dsimp only
  split
  next hk =>
    have hsplit : r.bits + w = k + (r.bits + w - k) := by omega
    exact {
      bits_lt := by dsimp only; omega
      buffer_lt := Nat.mod_lt _ (Nat.two_pow_pos _)
      length := by
        have hlen := h.length
        simp only [List.length_append, List.length_singleton, Nat.mul_succ] at hlength ⊢
        omega
      output_lt := List.forall_mem_append.mpr ⟨h.output_lt, List.forall_mem_singleton.mpr
        (Nat.div_lt_of_lt_mul (by rwa [← pow_add, Nat.add_comm _ k, ← hsplit]))⟩
      number_eq := by
        dsimp only
        generalize r.bits + w - k = rest at hsplit
        rw [number_concat, ← hnumber, hsplit, pow_add, add_mul, add_assoc, mul_assoc,
          Nat.div_add_mod'] }
  next hk =>
    exact {
      bits_lt := Nat.lt_of_not_le hk
      buffer_lt := hshifted
      length := by
        have hlen := h.length
        dsimp only
        omega
      output_lt := h.output_lt
      number_eq := hnumber }

/-- What comes out is determined by the number that went in. -/
theorem Holds.output_eq (h : Holds w k r vs) (hk : 0 < k) {ds : List Nat} {rest : Nat}
    (hds : ∀ d ∈ ds, d < 2 ^ k) (hrest : rest < k) (hlength : w * vs.length = k * ds.length + rest)
    (hnumber : number w vs = number k ds * 2 ^ rest) : r.output = ds := by
  have hlen : k * r.output.length + r.bits = k * ds.length + rest := h.length.trans hlength
  have hbits : r.bits = rest := by
    have hmod := congrArg (· % k) hlen
    simpa [Nat.mul_add_mod, Nat.mod_eq_of_lt h.bits_lt, Nat.mod_eq_of_lt hrest] using hmod
  have hlengths : r.output.length = ds.length := by
    rw [hbits] at hlen
    exact Nat.eq_of_mul_eq_mul_left hk (Nat.add_right_cancel hlen)
  refine number_inj hk hlengths h.output_lt hds ?_
  have hvalue := h.number_eq
  have hbuffer := h.buffer_lt
  rw [hnumber, hbits] at hvalue
  rw [hbits] at hbuffer
  have hdiv := congrArg (· / 2 ^ rest) hvalue
  simpa [Nat.mul_add_div, Nat.div_eq_of_lt hbuffer, Nat.mul_comm _ (2 ^ rest)] using hdiv

end Accumulator

/-! ## Base64 -/

/-- The six-bit digits of bytes; zeros fill up the last one. -/
def sextets : List UInt8 → List Nat
  | [] => []
  | [a] => [a.toNat / 4, a.toNat % 4 * 16]
  | [a, b] => [a.toNat / 4, a.toNat % 4 * 16 + b.toNat / 16, b.toNat % 16 * 4]
  | a :: b :: c :: rest =>
    a.toNat / 4 :: (a.toNat % 4 * 16 + b.toNat / 16) :: (b.toNat % 16 * 4 + c.toNat / 64) ::
      c.toNat % 64 :: sextets rest

theorem sextets_lt {data : List UInt8} : ∀ v ∈ sextets data, v < 2 ^ 6 := by
  induction data using sextets.induct with
  | case1 => nofun
  | case2 a =>
    have ha := a.toNat_lt
    simp only [sextets, List.forall_mem_cons]
    exact ⟨by omega, by omega, nofun⟩
  | case3 a b =>
    have ha := a.toNat_lt
    have hb := b.toNat_lt
    simp only [sextets, List.forall_mem_cons]
    exact ⟨by omega, by omega, by omega, nofun⟩
  | case4 a b c rest ih =>
    have ha := a.toNat_lt
    have hb := b.toNat_lt
    have hc := c.toNat_lt
    simp only [sextets, List.forall_mem_cons]
    exact ⟨by omega, by omega, by omega, by omega, ih⟩

/-- The digits are the number of the bytes, and the zeros after it. -/
theorem number_sextets (data : List UInt8) :
    ∃ rest < 8, 6 * (sextets data).length = 8 * data.length + rest ∧
      number 6 (sextets data) = number 8 (data.map (·.toNat)) * 2 ^ rest := by
  induction data using sextets.induct with
  | case1 => exact ⟨0, by decide, rfl, rfl⟩
  | case2 a =>
    refine ⟨4, by decide, rfl, ?_⟩
    simp only [sextets, number, List.map_cons, List.map_nil, List.reverse_cons, List.reverse_nil,
      List.nil_append, List.cons_append, Nat.ofDigits_cons, Nat.ofDigits_nil]
    omega
  | case3 a b =>
    refine ⟨2, by decide, rfl, ?_⟩
    simp only [sextets, number, List.map_cons, List.map_nil, List.reverse_cons, List.reverse_nil,
      List.nil_append, List.cons_append, Nat.ofDigits_cons, Nat.ofDigits_nil]
    omega
  | case4 a b c rest ih =>
    obtain ⟨k, hk, hlength, hnumber⟩ := ih
    refine ⟨k, hk, ?_, ?_⟩
    · simp only [sextets, List.length_cons]
      omega
    · have hgroup : number 6 [a.toNat / 4, a.toNat % 4 * 16 + b.toNat / 16,
          b.toNat % 16 * 4 + c.toNat / 64, c.toNat % 64] = number 8 [a.toNat, b.toNat, c.toNat] := by
        simp only [number, List.reverse_cons, List.reverse_nil, List.nil_append, List.cons_append,
          Nat.ofDigits_cons, Nat.ofDigits_nil]
        omega
      have hdigits : sextets (a :: b :: c :: rest) = [a.toNat / 4, a.toNat % 4 * 16 + b.toNat / 16,
          b.toNat % 16 * 4 + c.toNat / 64, c.toNat % 64] ++ sextets rest := by
        rw [sextets]
        rfl
      have hbytes : (a :: b :: c :: rest).map (·.toNat) =
          [a.toNat, b.toNat, c.toNat] ++ rest.map (·.toNat) := rfl
      rw [hdigits, hbytes, number_append, number_append, hgroup, hnumber, hlength, List.length_map,
        pow_add]
      ring

def base64Alphabet : List Char :=
  "ABCDEFGHIJKLMNOPQRSTUVWXYZabcdefghijklmnopqrstuvwxyz0123456789+/".toList

def base64Digit (v : Nat) : Char := base64Alphabet.getD v '='

/-- The digits of the bytes, with or without the padding to a multiple of four. -/
def base64 (padded : Bool) (data : List UInt8) : String :=
  let digits := (sextets data).map base64Digit
  String.ofList (digits ++ if padded then List.replicate ((4 - digits.length % 4) % 4) '=' else [])

theorem toList_base64 (padded : Bool) (data : List UInt8) :
    ∃ k, (base64 padded data).toList = (sextets data).map base64Digit ++ List.replicate k '=' := by
  unfold base64
  dsimp only
  rw [String.toList_ofList]
  cases padded with
  | false => exact ⟨0, rfl⟩
  | true => exact ⟨_, rfl⟩

end Hypern.Lib
