import Hypern.Lib.Utf8

/-! Decoding is lossless on text. -/

namespace Hypern.Lib

variable {b : UInt8} {p : Utf8Pending}

/-! ## One byte -/

theorem utf8LossyFrom_ascii (h : b.toNat < 0x80) (rest : List UInt8) :
    utf8LossyFrom (b :: rest) none = Char.ofNat b.toNat :: utf8LossyFrom rest none := by
  rw [utf8LossyFrom]
  exact if_pos h

theorem utf8LossyFrom_start (h : 0x80 ≤ b.toNat) (hstart : utf8Start b = some p)
    (rest : List UInt8) : utf8LossyFrom (b :: rest) none = utf8LossyFrom rest (some p) := by
  have hlt : ¬ b < 0x80 := Nat.not_lt.mpr h
  rw [utf8LossyFrom, if_neg hlt, hstart]

theorem utf8LossyFrom_last (hmissing : p.missing = 1) (hlo : p.lo ≤ b) (hhi : b ≤ p.hi)
    (rest : List UInt8) : utf8LossyFrom (b :: rest) (some p) =
      Char.ofNat (p.bits * 64 + b.toNat % 64) :: utf8LossyFrom rest none := by
  rw [utf8LossyFrom, if_pos (by simp [hlo, hhi]), if_pos hmissing]

theorem utf8LossyFrom_more (hmissing : p.missing ≠ 1) (hlo : p.lo ≤ b) (hhi : b ≤ p.hi)
    (rest : List UInt8) : utf8LossyFrom (b :: rest) (some p) = utf8LossyFrom rest
      (some ⟨p.bits * 64 + b.toNat % 64, p.missing - 1, 0x80, 0xBF⟩) := by
  rw [utf8LossyFrom, if_pos (by simp [hlo, hhi]), if_neg hmissing]

theorem utf8Start_two (hlo : 0xC2 ≤ b.toNat) (hhi : b.toNat ≤ 0xDF) :
    utf8Start b = some ⟨b.toNat % 32, 1, 0x80, 0xBF⟩ := by
  have h : 0xC2 ≤ b ∧ b ≤ 0xDF := ⟨hlo, hhi⟩
  unfold utf8Start
  rw [if_pos (by simp [h])]

/-- After `E0` the next byte is not too small, after `ED` not too large. -/
theorem utf8Start_three (hlo : 0xE0 ≤ b.toNat) (hhi : b.toNat ≤ 0xEF) {x : UInt8}
    (hx : 0x80 ≤ x.toNat) (hx' : x.toNat ≤ 0xBF) (hsmall : b.toNat = 0xE0 → 0xA0 ≤ x.toNat)
    (hlarge : b.toNat = 0xED → x.toNat ≤ 0x9F) :
    ∃ lo hi, utf8Start b = some ⟨b.toNat % 16, 2, lo, hi⟩ ∧ lo ≤ x ∧ x ≤ hi := by
  unfold utf8Start
  simp only [Bool.and_eq_true, decide_eq_true_eq, beq_iff_eq, UInt8.le_iff_toNat_le,
    ← UInt8.toNat_inj, UInt8.reduceToNat]
  split_ifs <;> first
    | omega
    | exact ⟨_, _, rfl, by simp; omega, by simp; omega⟩

theorem utf8Start_four (hlo : 0xF0 ≤ b.toNat) (hhi : b.toNat ≤ 0xF4) {x : UInt8}
    (hx : 0x80 ≤ x.toNat) (hx' : x.toNat ≤ 0xBF) (hsmall : b.toNat = 0xF0 → 0x90 ≤ x.toNat)
    (hlarge : b.toNat = 0xF4 → x.toNat ≤ 0x8F) :
    ∃ lo hi, utf8Start b = some ⟨b.toNat % 8, 3, lo, hi⟩ ∧ lo ≤ x ∧ x ≤ hi := by
  unfold utf8Start
  simp only [Bool.and_eq_true, decide_eq_true_eq, beq_iff_eq, UInt8.le_iff_toNat_le,
    ← UInt8.toNat_inj, UInt8.reduceToNat]
  split_ifs <;> first
    | omega
    | exact ⟨_, _, rfl, by simp; omega, by simp; omega⟩

/-! ## One character -/

theorem toNat_ofNat_of_lt {n : Nat} (h : n < 256) : (UInt8.ofNat n).toNat = n := by
  rw [UInt8.toNat_ofNat', Nat.mod_eq_of_lt h]

/-- Every byte after the first is in the range of a continuation byte. -/
theorem toNat_continuation (n : Nat) : (UInt8.ofNat (n % 64 + 0x80)).toNat = n % 64 + 0x80 :=
  toNat_ofNat_of_lt (by omega)

theorem continuation_in_range (n : Nat) :
    (0x80 : UInt8) ≤ UInt8.ofNat (n % 64 + 0x80) ∧ UInt8.ofNat (n % 64 + 0x80) ≤ 0xBF := by
  rw [UInt8.le_iff_toNat_le, UInt8.le_iff_toNat_le, toNat_continuation]
  change 0x80 ≤ _ ∧ _ ≤ 0xBF
  omega

theorem utf8LossyFrom_encode (c : Char) (rest : List UInt8) :
    utf8LossyFrom (String.utf8EncodeChar c ++ rest) none = c :: utf8LossyFrom rest none := by
  have hvalid := c.valid
  have hc : Char.ofNat c.val.toNat = c := Char.ofNat_toNat c
  unfold String.utf8EncodeChar
  dsimp only
  generalize hn : c.val.toNat = n at hc
  have hsurrogate : n < 0xD800 ∨ 0xDFFF < n ∧ n < 0x110000 := hn ▸ hvalid
  -- one to four bytes: the first is in its range, and the bits put together are the character again
  split_ifs with hone htwo hthree
  · have hb := toNat_ofNat_of_lt (Nat.lt_of_le_of_lt hone (by decide : 0x7f < 256))
    rw [List.singleton_append, utf8LossyFrom_ascii (by rw [hb]; omega), hb, hc]
  · have hb : (UInt8.ofNat (n / 64 % 32 + 0xc0)).toNat = n / 64 % 32 + 0xc0 :=
      toNat_ofNat_of_lt (by omega)
    obtain ⟨hlo, hhi⟩ := continuation_in_range n
    have hstart := utf8Start_two (b := UInt8.ofNat (n / 64 % 32 + 0xc0)) (by omega) (by omega)
    have hbits : (n / 64 % 32 + 0xc0) % 32 * 64 + (n % 64 + 0x80) % 64 = n := by omega
    simp only [List.cons_append, List.nil_append]
    rw [utf8LossyFrom_start (by omega) hstart, utf8LossyFrom_last rfl hlo hhi, hb,
      toNat_continuation, hbits, hc]
  · have hb : (UInt8.ofNat (n / 4096 % 16 + 0xe0)).toNat = n / 4096 % 16 + 0xe0 :=
      toNat_ofNat_of_lt (by omega)
    have hx := toNat_continuation (n / 64)
    obtain ⟨lo, hi, hstart, hlo, hhi⟩ := utf8Start_three
      (b := UInt8.ofNat (n / 4096 % 16 + 0xe0)) (x := UInt8.ofNat (n / 64 % 64 + 0x80))
      (by omega) (by omega) (by omega) (by omega) (by omega) (by omega)
    obtain ⟨hlo', hhi'⟩ := continuation_in_range n
    have hbits : ((n / 4096 % 16 + 0xe0) % 16 * 64 + (n / 64 % 64 + 0x80) % 64) * 64 +
        (n % 64 + 0x80) % 64 = n := by omega
    simp only [List.cons_append, List.nil_append]
    rw [utf8LossyFrom_start (by omega) hstart, utf8LossyFrom_more (by simp) hlo hhi,
      utf8LossyFrom_last rfl hlo' hhi', hb, hx, toNat_continuation, hbits, hc]
  · have hb : (UInt8.ofNat (n / 262144 % 8 + 0xf0)).toNat = n / 262144 % 8 + 0xf0 :=
      toNat_ofNat_of_lt (by omega)
    have hx := toNat_continuation (n / 4096)
    have hy := toNat_continuation (n / 64)
    obtain ⟨lo, hi, hstart, hlo, hhi⟩ := utf8Start_four
      (b := UInt8.ofNat (n / 262144 % 8 + 0xf0)) (x := UInt8.ofNat (n / 4096 % 64 + 0x80))
      (by omega) (by omega) (by omega) (by omega) (by omega) (by omega)
    obtain ⟨hlo', hhi'⟩ := continuation_in_range (n / 64)
    obtain ⟨hlo'', hhi''⟩ := continuation_in_range n
    have hbits : (((n / 262144 % 8 + 0xf0) % 8 * 64 + (n / 4096 % 64 + 0x80) % 64) * 64 +
        (n / 64 % 64 + 0x80) % 64) * 64 + (n % 64 + 0x80) % 64 = n := by omega
    simp only [List.cons_append, List.nil_append]
    rw [utf8LossyFrom_start (by omega) hstart, utf8LossyFrom_more (by simp) hlo hhi,
      utf8LossyFrom_more (by simp) hlo' hhi', utf8LossyFrom_last rfl hlo'' hhi'', hb, hx, hy,
      toNat_continuation, hbits, hc]

/-! ## Texts -/

theorem fromUtf8Lossy_utf8 (s : String) : fromUtf8Lossy (utf8 s) = s := by
  have hchars : ∀ cs : List Char, utf8LossyFrom (cs.flatMap String.utf8EncodeChar) none = cs := by
    intro cs
    induction cs with
    | nil => rfl
    | cons c cs ih => rw [List.flatMap_cons, utf8LossyFrom_encode, ih]
  unfold fromUtf8Lossy utf8
  rw [hchars, String.ofList_toList]

theorem utf8_injective : Function.Injective utf8 :=
  Function.LeftInverse.injective fromUtf8Lossy_utf8

theorem utf8_append (s t : String) : utf8 (s ++ t) = utf8 s ++ utf8 t := by
  unfold utf8
  rw [String.toList_append, List.flatMap_append]

theorem utf8_ne_nil {s : String} (h : s ≠ "") : utf8 s ≠ [] := by
  intro hnil
  refine h (String.toList_eq_nil_iff.mp ?_)
  refine List.eq_nil_iff_forall_not_mem.mpr fun c hc => ?_
  exact String.utf8EncodeChar_ne_nil (List.flatMap_eq_nil_iff.mp hnil c hc)

theorem utf8EncodeChar_ascii (h : b.toNat < 0x80) :
    String.utf8EncodeChar (Char.ofNat b.toNat) = [b] := by
  have hvalid : b.toNat.isValidChar := Or.inl (by omega)
  have hval : (Char.ofNat b.toNat).val.toNat = b.toNat := by
    rw [Char.ofNat, dif_pos hvalid]
    rfl
  have hsize : (Char.ofNat b.toNat).utf8Size = 1 := by
    rw [Char.utf8Size_eq_one_iff, UInt32.le_iff_toNat_le, hval]
    exact Nat.le_of_lt_succ h
  rw [String.utf8EncodeChar_eq_singleton hsize]
  refine congrArg (fun e => [e]) (UInt8.toNat_inj.mp ?_)
  rw [UInt32.toNat_toUInt8, hval, Nat.mod_eq_of_lt b.toNat_lt]

/-- ASCII characters are their bytes. -/
theorem utf8_ofList_ascii {bytes : List UInt8} (h : ∀ b ∈ bytes, b.toNat < 0x80) :
    utf8 (String.ofList (bytes.map fun b => Char.ofNat b.toNat)) = bytes := by
  rw [utf8, String.toList_ofList]
  induction bytes with
  | nil => rfl
  | cons b bytes ih =>
    obtain ⟨hb, hbytes⟩ := List.forall_mem_cons.mp h
    rw [List.map_cons, List.flatMap_cons, ih hbytes, utf8EncodeChar_ascii hb]
    rfl

/-- Only an ASCII character has a byte below `0x80` in its code. -/
theorem mem_utf8EncodeChar {c : Char} (hb : b ∈ String.utf8EncodeChar c) (hlt : b.toNat < 0x80) :
    c = Char.ofNat b.toNat := by
  unfold String.utf8EncodeChar at hb
  dsimp only at hb
  split_ifs at hb with hone
  · rw [List.mem_singleton.mp hb, toNat_ofNat_of_lt (Nat.lt_of_le_of_lt hone (by decide))]
    exact (Char.ofNat_toNat c).symm
  all_goals simp only [List.mem_cons, List.not_mem_nil, or_false] at hb
  · rcases hb with rfl | rfl <;> rw [toNat_ofNat_of_lt (by omega)] at hlt <;> omega
  · rcases hb with rfl | rfl | rfl <;> rw [toNat_ofNat_of_lt (by omega)] at hlt <;> omega
  · rcases hb with rfl | rfl | rfl | rfl <;> rw [toNat_ofNat_of_lt (by omega)] at hlt <;> omega

/-- A byte below `0x80` comes from its own character only. -/
theorem notMem_utf8 {s : String} (hlt : b.toNat < 0x80) (h : Char.ofNat b.toNat ∉ s.toList) :
    b ∉ utf8 s := by
  intro hb
  obtain ⟨c, hc, hbyte⟩ := List.mem_flatMap.mp hb
  exact h (mem_utf8EncodeChar hbyte hlt ▸ hc)

end Hypern.Lib
