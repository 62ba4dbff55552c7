import Hypern.Http.Uri
import Hypern.Lib.Utf8RoundTrip

/-! The percent-encoding of RFC 3986, and what the decoding of a path makes of it. -/

namespace Hypern.Http

open Lib

/-! ## Encoding -/

/-- A letter, a digit, or one of `-`, `.`, `_` and `~`. -/
def unreserved (b : UInt8) : Bool :=
  (0x30 ≤ b && b ≤ 0x39) || (0x41 ≤ b && b ≤ 0x5A) || (0x61 ≤ b && b ≤ 0x7A) || b == 0x2D ||
    b == 0x2E || b == 0x5F || b == 0x7E

/-- An upper-case hexadecimal digit. -/
def upperDigit (n : Nat) : UInt8 := if n < 10 then UInt8.ofNat (0x30 + n) else UInt8.ofNat (0x37 + n)

def percentEncodeByte (b : UInt8) : List UInt8 :=
  if unreserved b then [b] else [0x25, upperDigit (b.toNat / 16), upperDigit (b.toNat % 16)]

/-- The text that stands for a value in a path; all its bytes are ASCII characters. -/
def percentEncode (value : String) : String :=
  String.ofList (((utf8 value).flatMap percentEncodeByte).map fun b => Char.ofNat b.toNat)

example : percentEncode "a b/ü" = "a%20b%2F%C3%BC" := by decide +kernel

/-! ## Decoding -/

variable {b : UInt8} {bytes : List UInt8}

theorem percentDecode_cons (h : b ≠ 0x25) (rest : List UInt8) :
    percentDecode (b :: rest) = b :: percentDecode rest := by
  match rest with
  | [] => rfl
  | [_] => rfl
  | _ :: _ :: _ => rw [percentDecode, if_neg h]

theorem percentDecode_of_notMem (h : 0x25 ∉ bytes) : percentDecode bytes = bytes := by
  induction bytes with
  | nil => rfl
  | cons b bytes ih =>
    rw [List.mem_cons, not_or] at h
    rw [percentDecode_cons (Ne.symm h.1), ih h.2]

theorem hexDigit_upperDigit {n : Nat} (h : n < 16) : hexDigit (upperDigit n) = some n := by
  have hall : ∀ n : Fin 16, hexDigit (upperDigit n.val) = some n.val := by decide
  exact hall ⟨n, h⟩

theorem percentDecode_encodeByte (b : UInt8) (rest : List UInt8) :
    percentDecode (percentEncodeByte b ++ rest) = b :: percentDecode rest := by
  have hb : b.toNat < 256 := b.toNat_lt
  unfold percentEncodeByte
  split_ifs with hfree
  · refine percentDecode_cons ?_ rest
    rintro rfl
    exact absurd hfree (by decide)
  · change percentDecode (0x25 :: _ :: _ :: rest) = _
    rw [percentDecode, if_pos rfl, hexDigit_upperDigit (by omega), hexDigit_upperDigit (by omega)]
    have hvalue : b.toNat / 16 * 16 + b.toNat % 16 = b.toNat := by omega
    dsimp only
    rw [hvalue, UInt8.ofNat_toNat]

theorem percentDecode_encode (bytes rest : List UInt8) :
    percentDecode (bytes.flatMap percentEncodeByte ++ rest) = bytes ++ percentDecode rest := by
  induction bytes with
  | nil => rfl
  | cons b bytes ih =>
    rw [List.flatMap_cons, List.append_assoc, percentDecode_encodeByte, ih]
    rfl

theorem percentDecode_first {a b : UInt8} (h : hexDigit b = none) (rest : List UInt8) :
    percentDecode (a :: b :: rest) = a :: percentDecode (b :: rest) := by
  match rest with
  | [] => rfl
  | c :: rest =>
    rw [percentDecode, h]
    split_ifs <;> rfl

theorem percentDecode_second {a b c : UInt8} (h : hexDigit c = none) (rest : List UInt8) :
    percentDecode (a :: b :: c :: rest) = a :: percentDecode (b :: c :: rest) := by
  rw [percentDecode, h]
  split_ifs
  · cases hexDigit b <;> rfl
  · rfl

/-- An escape does not reach beyond a slash. -/
theorem percentDecode_slash (rest : List UInt8) : ∀ bytes : List UInt8,
    percentDecode (bytes ++ 0x2F :: rest) =
      percentDecode (bytes ++ [0x2F]) ++ percentDecode rest
  | [] => percentDecode_cons (by decide) rest
  | [a] => by
    have hslash : hexDigit 0x2F = none := by decide
    rw [List.singleton_append, List.singleton_append, percentDecode_first hslash,
      percentDecode_first hslash, percentDecode_cons (by decide)]
    rfl
  | [a, b] => by
    have hslash : hexDigit 0x2F = none := by decide
    have hrest := percentDecode_slash rest [b]
    simp only [List.cons_append, List.nil_append] at hrest ⊢
    rw [percentDecode_second hslash, percentDecode_second hslash, hrest]
    rfl
  | a :: b :: c :: bytes => by
    have hlater := percentDecode_slash rest bytes
    have hrest := percentDecode_slash rest (b :: c :: bytes)
    simp only [List.cons_append] at hrest ⊢
    rw [percentDecode, percentDecode]
    split_ifs
    · cases hexDigit b with
      | none => exact congrArg _ hrest
      | some high =>
        cases hexDigit c with
        | none => exact congrArg _ hrest
        | some low => exact congrArg _ hlater
    · exact congrArg _ hrest

/-! ## Paths -/

theorem decodePath_some {decode : List UInt8 → List UInt8}
    (hdecode : ∀ bytes, decode bytes = percentDecode bytes) (raw : String) :
    decodePath decode (some raw) = fromUtf8Lossy (percentDecode (utf8 raw)) := by
  unfold decodePath
  dsimp only
  split_ifs with hpercent
  · rw [hdecode]
  · have hno : (0x25 : UInt8) ∉ utf8 raw :=
      notMem_utf8 (by decide) fun h => hpercent (List.contains_iff_mem.mpr h)
    rw [percentDecode_of_notMem hno, fromUtf8Lossy_utf8]

theorem toNat_lt_of_unreserved (h : unreserved b = true) : b.toNat < 0x80 := by
  simp only [unreserved, Bool.or_eq_true, Bool.and_eq_true, decide_eq_true_eq, beq_iff_eq,
    UInt8.le_iff_toNat_le, ← UInt8.toNat_inj, UInt8.toNat_ofNat] at h
  omega

theorem upperDigit_lt {n : Nat} (h : n < 16) : (upperDigit n).toNat < 0x80 := by
  have hall : ∀ n : Fin 16, (upperDigit n.val).toNat < 0x80 := by decide
  exact hall ⟨n, h⟩

theorem percentEncodeByte_lt (b : UInt8) : ∀ e ∈ percentEncodeByte b, e.toNat < 0x80 := by
  have hb : b.toNat < 256 := b.toNat_lt
  unfold percentEncodeByte
  split_ifs with hfree
  · exact List.forall_mem_singleton.mpr (toNat_lt_of_unreserved hfree)
  · refine List.forall_mem_cons.mpr ⟨by decide, List.forall_mem_cons.mpr ⟨?_, ?_⟩⟩
    · exact upperDigit_lt (by omega)
    · exact List.forall_mem_singleton.mpr (upperDigit_lt (by omega))

theorem utf8_percentEncode (value : String) :
    utf8 (percentEncode value) = (utf8 value).flatMap percentEncodeByte := by
  have hascii : ∀ e ∈ (utf8 value).flatMap percentEncodeByte, e.toNat < 0x80 := by
    intro e he
    obtain ⟨b, -, he⟩ := List.mem_flatMap.mp he
    exact percentEncodeByte_lt b e he
  exact utf8_ofList_ascii hascii

/-- A literal part of a path that decoding leaves as it is. -/
def Unescaped (part : String) : Prop := percentDecode (utf8 part) = utf8 part

/-- A value in a path, behind a slash, is decoded to itself. -/
theorem decodePath_encode {decode : List UInt8 → List UInt8}
    (hdecode : ∀ bytes, decode bytes = percentDecode bytes) {pre post value : String} (hslash : pre.toList.getLast? = some '/')
    (hpre : Unescaped pre) (hpost : Unescaped post) :
    decodePath decode (some (pre ++ percentEncode value ++ post)) = pre ++ value ++ post := by
  obtain ⟨before, hbefore⟩ := List.getLast?_eq_some_iff.mp hslash
  have hbytes : utf8 pre = before.flatMap String.utf8EncodeChar ++ [0x2F] := by
    rw [utf8, hbefore, List.flatMap_append]
    rfl
  unfold Unescaped at hpre hpost
  rw [hbytes] at hpre
  rw [decodePath_some hdecode, utf8_append, utf8_append, utf8_percentEncode, hbytes, List.append_assoc,
    List.append_assoc, List.singleton_append, percentDecode_slash, hpre, percentDecode_encode, hpost,
    ← hbytes, ← List.append_assoc, ← utf8_append, ← utf8_append, fromUtf8Lossy_utf8]

end Hypern.Http
