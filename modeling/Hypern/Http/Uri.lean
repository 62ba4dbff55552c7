import Hypern.Lib.Utf8

/-! The path of a request as `Request::from_axum` reads it from the URI. -/

namespace Hypern.Http

open Lib

def hexDigit (b : UInt8) : Option Nat :=
  if 0x30 ≤ b && b ≤ 0x39 then some (b.toNat - 0x30)
  else if 0x41 ≤ b && b ≤ 0x46 then some (b.toNat - 0x37)
  else if 0x61 ≤ b && b ≤ 0x66 then some (b.toNat - 0x57)
  else none

/-- The percent-decoding of RFC 3986; a percent sign without two hex digits stands for itself. -/
def percentDecode : List UInt8 → List UInt8
  | a :: b :: c :: rest =>
    if a = 0x25 then
      match hexDigit b, hexDigit c with
      | some h, some l => UInt8.ofNat (h * 16 + l) :: percentDecode rest
      | _, _ => a :: percentDecode (b :: c :: rest)
    else a :: percentDecode (b :: c :: rest)
  | bytes => bytes

/-- The decoded path; a URI without a path and query has the path `/`. What `percent_decode_str`
makes of the bytes is a parameter. -/
def decodePath (percentDecodeStr : List UInt8 → List UInt8) : Option String → String
  | none => "/"
  | some rawPath =>
    if rawPath.toList.contains '%' then fromUtf8Lossy (percentDecodeStr (utf8 rawPath)) else rawPath

end Hypern.Http
