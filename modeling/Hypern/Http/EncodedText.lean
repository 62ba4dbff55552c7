import Hypern.Http.PercentEncoding

/-! Percent-encoded texts: what a component of a URI may look like, and when it stands for
itself. -/

namespace Hypern.Http

open Lib

/-- Bytes that may stand for themselves, and escapes: `*( allowed / pct-encoded )`. -/
inductive Encoded (allowed : UInt8 → Bool) : List UInt8 → Prop
  | nil : Encoded allowed []
  | literal {b : UInt8} {rest : List UInt8} (hb : allowed b = true) (h : Encoded allowed rest) :
    Encoded allowed (b :: rest)
  | escape {high low : UInt8} {rest : List UInt8} (hhigh : hexDigit high ≠ none)
    (hlow : hexDigit low ≠ none) (h : Encoded allowed rest) :
    Encoded allowed (0x25 :: high :: low :: rest)

/-- Only characters of ASCII are allowed, and not the percent sign. -/
structure CharSet where
  allowed : UInt8 → Bool
  ascii {b : UInt8} (h : allowed b = true) : b.toNat < 0x80
  percent : allowed 0x25 = false

/-- A component of a URI, and the value that it stands for. -/
structure Component (set : CharSet) where
  bytes : List UInt8
  encoded : Encoded set.allowed bytes
  value : String
  decoded : percentDecode bytes = utf8 value
  nonempty : value ≠ ""

def Component.text {set : CharSet} (c : Component set) : String :=
  String.ofList (c.bytes.map fun b => Char.ofNat b.toNat)

/-- `sub-delims` -/
def subDelim (b : UInt8) : Bool :=
  [0x21, 0x24, 0x26, 0x27, 0x28, 0x29, 0x2A, 0x2B, 0x2C, 0x3B, 0x3D].contains b

variable {set : CharSet} {bytes : List UInt8} {b : UInt8}

theorem hexDigit_lt (h : hexDigit b ≠ none) : b.toNat < 0x80 := by
  by_contra hlarge
  refine h ?_
  have hbounds : ¬ (b ≤ 0x39) ∧ ¬ (b ≤ 0x46) ∧ ¬ (b ≤ 0x66) := by
    simp only [UInt8.le_iff_toNat_le, UInt8.toNat_ofNat]
    omega
  simp [hexDigit, hbounds]

namespace Encoded

theorem ascii (h : Encoded set.allowed bytes) : ∀ b ∈ bytes, b.toNat < 0x80 := by
  induction h with
  | nil => exact List.forall_mem_nil _
  | literal hb _ ih => exact List.forall_mem_cons.mpr ⟨set.ascii hb, ih⟩
  | escape hhigh hlow _ ih =>
    simp only [List.forall_mem_cons]
    exact ⟨by decide, hexDigit_lt hhigh, hexDigit_lt hlow, ih⟩

/-- What is neither allowed nor part of an escape does not occur. -/
theorem notMem (h : Encoded set.allowed bytes) (hfree : set.allowed b = false) (hpercent : b ≠ 0x25)
    (hdigit : hexDigit b = none) : b ∉ bytes := by
  induction h with
  | nil => exact List.not_mem_nil
  | literal hb _ ih =>
    rw [List.mem_cons, not_or]
    refine ⟨?_, ih⟩
    rintro rfl
    rw [hfree] at hb
    cases hb
  | escape hhigh hlow _ ih =>
    simp only [List.mem_cons, not_or]
    refine ⟨hpercent, ?_, ?_, ih⟩
    · rintro rfl
      exact hhigh hdigit
    · rintro rfl
      exact hlow hdigit

theorem percentDecode_escape {high low : UInt8} (hhigh : hexDigit high ≠ none)
    (hlow : hexDigit low ≠ none) (rest : List UInt8) :
    ∃ b, percentDecode (0x25 :: high :: low :: rest) = b :: percentDecode rest := by
  obtain ⟨h, hh⟩ := Option.ne_none_iff_exists'.mp hhigh
  obtain ⟨l, hl⟩ := Option.ne_none_iff_exists'.mp hlow
  exact ⟨UInt8.ofNat (h * 16 + l), by rw [percentDecode, if_pos rfl, hh, hl]⟩

/-- Every escape makes the text longer than its value. -/
theorem length_percentDecode (h : Encoded set.allowed bytes) :
    (percentDecode bytes).length ≤ bytes.length ∧
      (0x25 ∈ bytes → (percentDecode bytes).length < bytes.length) := by
  induction h with
  | nil => simp [percentDecode]
  | @literal b rest hb _ ih =>
    have hne : b ≠ 0x25 := by
      rintro rfl
      rw [set.percent] at hb
      cases hb
    rw [percentDecode_cons hne, List.length_cons, List.length_cons, List.mem_cons,
      or_iff_right (Ne.symm hne)]
    exact ⟨Nat.succ_le_succ ih.1, fun hmem => Nat.succ_lt_succ (ih.2 hmem)⟩
  | escape hhigh hlow _ ih =>
    obtain ⟨b, hdecode⟩ := percentDecode_escape hhigh hlow _
    rw [hdecode]
    simp only [List.length_cons]
    omega

/-- A text is its own value exactly when nothing in it is escaped. -/
theorem percentDecode_eq_iff (h : Encoded set.allowed bytes) :
    percentDecode bytes = bytes ↔ 0x25 ∉ bytes := by
  constructor
  · intro hsame hmem
    have hlt := h.length_percentDecode.2 hmem
    rw [hsame] at hlt
    exact absurd hlt (Nat.lt_irrefl _)
  · exact percentDecode_of_notMem

end Encoded

theorem encoded_percentEncodeByte (hset : ∀ b, unreserved b = true → set.allowed b = true) (b : UInt8)
    {rest : List UInt8} (h : Encoded set.allowed rest) :
    Encoded set.allowed (percentEncodeByte b ++ rest) := by
  have hb : b.toNat < 256 := b.toNat_lt
  unfold percentEncodeByte
  split_ifs with hfree
  · exact .literal (hset b hfree) h
  · refine .escape ?_ ?_ h
    · rw [hexDigit_upperDigit (by omega)]
      simp
    · rw [hexDigit_upperDigit (by omega)]
      simp

namespace Component

/-- The component in which everything is escaped that is not unreserved. -/
def ofValue (hset : ∀ b, unreserved b = true → set.allowed b = true) (value : String)
    (h : value ≠ "") : Component set where
  bytes := (utf8 value).flatMap percentEncodeByte
  encoded := by
    induction utf8 value with
    | nil => exact .nil
    | cons b bytes ih => exact encoded_percentEncodeByte hset b ih
  value := value
  decoded := by
    have hdecode := percentDecode_encode (utf8 value) []
    rw [List.append_nil] at hdecode
    rw [hdecode]
    exact List.append_nil _
  nonempty := h

theorem utf8_text (c : Component set) : utf8 c.text = c.bytes := utf8_ofList_ascii c.encoded.ascii

theorem text_eq_value_iff (c : Component set) : c.text = c.value ↔ 0x25 ∉ c.bytes := by
  rw [← c.encoded.percentDecode_eq_iff, c.decoded, ← c.utf8_text]
  constructor
  · intro h
    rw [h]
  · intro h
    exact (utf8_injective h).symm

/-- A delimiter that is not allowed does not occur in the text. -/
theorem notMem_text (c : Component set) (b : UInt8) {ch : Char}
    (h : String.utf8EncodeChar ch = [b] ∧ set.allowed b = false ∧ b ≠ 0x25 ∧ hexDigit b = none) :
    ch ∉ c.text.toList := by
  intro hmem
  obtain ⟨hcode, hfree, hpercent, hdigit⟩ := h
  have hbyte : b ∈ utf8 c.text := List.mem_flatMap.mpr ⟨ch, hmem, by simp [hcode]⟩
  rw [c.utf8_text] at hbyte
  exact c.encoded.notMem hfree hpercent hdigit hbyte

end Component

end Hypern.Http
