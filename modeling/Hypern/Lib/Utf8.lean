import Mathlib.Data.List.Basic

/-! Encoding text as UTF-8 and decoding bytes that may be no text. -/

namespace Hypern.Lib

def utf8 (s : String) : List UInt8 := s.toList.flatMap String.utf8EncodeChar

/-- A character of which some bytes are still missing: the bits read so far, how many bytes
are to come, and the range of the next one. -/
structure Utf8Pending where
  bits : Nat
  missing : Nat
  lo : UInt8
  hi : UInt8

def utf8Start (b : UInt8) : Option Utf8Pending :=
  if 0xC2 ≤ b && b ≤ 0xDF then some ⟨b.toNat % 32, 1, 0x80, 0xBF⟩
  else if b == 0xE0 then some ⟨b.toNat % 16, 2, 0xA0, 0xBF⟩
  else if b == 0xED then some ⟨b.toNat % 16, 2, 0x80, 0x9F⟩
  else if 0xE1 ≤ b && b ≤ 0xEF then some ⟨b.toNat % 16, 2, 0x80, 0xBF⟩
  else if b == 0xF0 then some ⟨b.toNat % 8, 3, 0x90, 0xBF⟩
  else if b == 0xF4 then some ⟨b.toNat % 8, 3, 0x80, 0x8F⟩
  else if 0xF1 ≤ b && b ≤ 0xF3 then some ⟨b.toNat % 8, 3, 0x80, 0xBF⟩
  else none

def utf8Replacement : Char := Char.ofNat 0xFFFD

/-- Every maximal invalid sequence becomes one replacement character. -/
def utf8LossyFrom : List UInt8 → Option Utf8Pending → List Char
  | [], none => []
  | [], some _ => [utf8Replacement]
  | b :: bs, pending =>
    let fresh :=
      if b < 0x80 then Char.ofNat b.toNat :: utf8LossyFrom bs none
      else match utf8Start b with
        | some p => utf8LossyFrom bs (some p)
        | none => utf8Replacement :: utf8LossyFrom bs none
    match pending with
    | none => fresh
    | some p =>
      if p.lo ≤ b && b ≤ p.hi then
        let bits := p.bits * 64 + b.toNat % 64
        if p.missing = 1 then Char.ofNat bits :: utf8LossyFrom bs none
        else utf8LossyFrom bs (some ⟨bits, p.missing - 1, 0x80, 0xBF⟩)
      else utf8Replacement :: fresh

def fromUtf8Lossy (bytes : List UInt8) : String := String.ofList (utf8LossyFrom bytes none)

end Hypern.Lib
