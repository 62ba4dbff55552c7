import Hypern.Lib.Utf8
import Hypern.Python.Object

/-! The `base64` and `binascii` functions that the token code calls, on characters. -/

namespace Hypern.Python

def urlsafeAlphabet : List Char :=
  "ABCDEFGHIJKLMNOPQRSTUVWXYZabcdefghijklmnopqrstuvwxyz0123456789-_".toList

def urlsafeDigit (n : Nat) : Char := urlsafeAlphabet.getD n '='

/-- `base64.urlsafe_b64encode(data).rstrip(b"=")` -/
def b64urlChars : List UInt8 → List Char
  | [] => []
  | [a] => [urlsafeDigit (a.toNat / 4), urlsafeDigit (a.toNat % 4 * 16)]
  | [a, b] =>
    [urlsafeDigit (a.toNat / 4), urlsafeDigit (a.toNat % 4 * 16 + b.toNat / 16),
      urlsafeDigit (b.toNat % 16 * 4)]
  | a :: b :: c :: rest =>
    urlsafeDigit (a.toNat / 4) :: urlsafeDigit (a.toNat % 4 * 16 + b.toNat / 16) ::
      urlsafeDigit (b.toNat % 16 * 4 + c.toNat / 64) :: urlsafeDigit (c.toNat % 64) ::
      b64urlChars rest

def b64urlEncode (data : List UInt8) : String := String.ofList (b64urlChars data)

/-- `table_a2b_base64`, after the translation of `-_` to `+/`. -/
def b64Value (c : Char) : Option Nat :=
  if c == '+' then some 62 else if c == '/' then some 63
  else (urlsafeAlphabet.findIdx? (· == c))

def binasciiError (message : String) : PyExc :=
  ⟨["binascii.Error", "ValueError", "Exception", "BaseException", "object"], message⟩

/-- `binascii.a2b_base64` without strict mode: other characters are skipped, and enough
padding ends the input. -/
def a2bBase64 : List Char → (quadPos leftchar pads : Nat) → List UInt8 → Except PyExc (List UInt8)
  | [], quadPos, _, _, out =>
    if quadPos = 0 then .ok out
    else if quadPos = 1 then
      .error (binasciiError ("Invalid base64-encoded string: number of data characters (" ++
        toString (out.length / 3 * 4 + 1) ++ ") cannot be 1 more than a multiple of 4"))
    else .error (binasciiError "Incorrect padding")
  | c :: cs, quadPos, leftchar, pads, out =>
    if c = '=' then
      if quadPos < 2 then a2bBase64 cs quadPos leftchar pads out
      else if 4 ≤ quadPos + (pads + 1) then .ok out
      else a2bBase64 cs quadPos leftchar (pads + 1) out
    else
      match b64Value c with
      | none => a2bBase64 cs quadPos leftchar pads out
      | some v =>
        match quadPos with
        | 0 => a2bBase64 cs 1 v 0 out
        | 1 => a2bBase64 cs 2 (v % 16) 0 (out ++ [UInt8.ofNat (leftchar * 4 + v / 16)])
        | 2 => a2bBase64 cs 3 (v % 4) 0 (out ++ [UInt8.ofNat (leftchar * 16 + v / 4)])
        | _ => a2bBase64 cs 0 0 0 (out ++ [UInt8.ofNat (leftchar * 64 + v)])

def urlsafeB64decode (s : List Char) : Except PyExc (List UInt8) :=
  if s.all (·.toNat < 128) then a2bBase64 s 0 0 0 []
  else .error (builtinError "ValueError" "string argument should contain only ASCII characters")

def b64Padding (length : Nat) : List Char :=
  let padding := 4 - length % 4
  if padding ≠ 4 then List.replicate padding '=' else []

def b64urlDecode (s : String) : Except PyExc (List UInt8) :=
  urlsafeB64decode (s.toList ++ b64Padding s.toList.length)

/-! ## Decoding what was encoded -/

theorem b64Value_urlsafeDigit {v : Nat} (h : v < 64) : b64Value (urlsafeDigit v) = some v := by
  have hall : ∀ v < 64, b64Value (urlsafeDigit v) = some v := by decide +kernel
  exact hall v h

theorem urlsafeDigit_plain {v : Nat} (h : v < 64) :
    (urlsafeDigit v).toNat < 128 ∧ urlsafeDigit v ≠ '=' ∧ urlsafeDigit v ≠ '.' := by
  have hall : ∀ v < 64, (urlsafeDigit v).toNat < 128 ∧ urlsafeDigit v ≠ '=' ∧
      urlsafeDigit v ≠ '.' := by decide +kernel
  exact hall v h

section Digits

variable {v : Nat} (h : v < 64) (cs : List Char) (leftchar pads : Nat) (out : List UInt8)
include h

theorem a2bBase64_first :
    a2bBase64 (urlsafeDigit v :: cs) 0 leftchar pads out = a2bBase64 cs 1 v 0 out := by
  rw [a2bBase64, if_neg (urlsafeDigit_plain h).2.1, b64Value_urlsafeDigit h]
  rfl

theorem a2bBase64_second :
    a2bBase64 (urlsafeDigit v :: cs) 1 leftchar pads out =
      a2bBase64 cs 2 (v % 16) 0 (out ++ [UInt8.ofNat (leftchar * 4 + v / 16)]) := by
  rw [a2bBase64, if_neg (urlsafeDigit_plain h).2.1, b64Value_urlsafeDigit h]
  rfl

theorem a2bBase64_third :
    a2bBase64 (urlsafeDigit v :: cs) 2 leftchar pads out =
      a2bBase64 cs 3 (v % 4) 0 (out ++ [UInt8.ofNat (leftchar * 16 + v / 4)]) := by
  rw [a2bBase64, if_neg (urlsafeDigit_plain h).2.1, b64Value_urlsafeDigit h]
  rfl

theorem a2bBase64_fourth :
    a2bBase64 (urlsafeDigit v :: cs) 3 leftchar pads out =
      a2bBase64 cs 0 0 0 (out ++ [UInt8.ofNat (leftchar * 64 + v)]) := by
  rw [a2bBase64, if_neg (urlsafeDigit_plain h).2.1, b64Value_urlsafeDigit h]
  rfl

end Digits

theorem ofNat_eq_of_toNat {n : Nat} {a : UInt8} (h : n = a.toNat) : UInt8.ofNat n = a := by
  rw [h, UInt8.ofNat_toNat]

theorem a2bBase64_encoded (data out : List UInt8) :
    a2bBase64 (b64urlChars data ++ b64Padding (b64urlChars data).length) 0 0 0 out =
      .ok (out ++ data) := by
  induction data using b64urlChars.induct generalizing out with
  | case1 => simp [b64urlChars, b64Padding, a2bBase64]
  | case2 a =>
    have ha := a.toNat_lt
    have hfirst : UInt8.ofNat (a.toNat / 4 * 4 + a.toNat % 4 * 16 / 16) = a :=
      ofNat_eq_of_toNat (by omega)
    simp only [b64urlChars, List.cons_append, List.nil_append]
    rw [a2bBase64_first (by omega), a2bBase64_second (by omega), hfirst]
    rfl
  | case3 a b =>
    have ha := a.toNat_lt
    have hb := b.toNat_lt
    have hfirst : UInt8.ofNat (a.toNat / 4 * 4 + (a.toNat % 4 * 16 + b.toNat / 16) / 16) = a :=
      ofNat_eq_of_toNat (by omega)
    have hsecond : UInt8.ofNat ((a.toNat % 4 * 16 + b.toNat / 16) % 16 * 16 +
        b.toNat % 16 * 4 / 4) = b := ofNat_eq_of_toNat (by omega)
    simp only [b64urlChars, List.cons_append, List.nil_append]
    rw [a2bBase64_first (by omega), a2bBase64_second (by omega), a2bBase64_third (by omega),
      hfirst, hsecond, List.append_assoc]
    rfl
  | case4 a b c rest ih =>
    have ha := a.toNat_lt
    have hb := b.toNat_lt
    have hc := c.toNat_lt
    have hfirst : UInt8.ofNat (a.toNat / 4 * 4 + (a.toNat % 4 * 16 + b.toNat / 16) / 16) = a :=
      ofNat_eq_of_toNat (by omega)
    have hsecond : UInt8.ofNat ((a.toNat % 4 * 16 + b.toNat / 16) % 16 * 16 +
        (b.toNat % 16 * 4 + c.toNat / 64) / 4) = b := ofNat_eq_of_toNat (by omega)
    have hthird : UInt8.ofNat ((b.toNat % 16 * 4 + c.toNat / 64) % 4 * 64 + c.toNat % 64) = c :=
      ofNat_eq_of_toNat (by omega)
    have hmod : (b64urlChars (a :: b :: c :: rest)).length % 4 = (b64urlChars rest).length % 4 := by
      simp only [b64urlChars, List.length_cons]
      omega
    have hpad : b64Padding (b64urlChars (a :: b :: c :: rest)).length =
        b64Padding (b64urlChars rest).length := by
      rw [b64Padding, hmod, b64Padding]
    rw [hpad]
    simp only [b64urlChars, List.cons_append]
    rw [a2bBase64_first (by omega), a2bBase64_second (by omega), a2bBase64_third (by omega),
      a2bBase64_fourth (by omega), hfirst, hsecond, hthird, ih]
    simp

theorem mem_b64urlChars {data : List UInt8} {c : Char} (h : c ∈ b64urlChars data) :
    ∃ v < 64, c = urlsafeDigit v := by
  induction data using b64urlChars.induct with
  | case1 => cases h
  | case2 a =>
    have ha := a.toNat_lt
    simp only [b64urlChars, List.mem_cons, List.not_mem_nil, or_false] at h
    obtain h | h := h
    · exact ⟨_, by omega, h⟩
    · exact ⟨_, by omega, h⟩
  | case3 a b =>
    have ha := a.toNat_lt
    have hb := b.toNat_lt
    simp only [b64urlChars, List.mem_cons, List.not_mem_nil, or_false] at h
    obtain h | h | h := h
    · exact ⟨_, by omega, h⟩
    · exact ⟨_, by omega, h⟩
    · exact ⟨_, by omega, h⟩
  | case4 a b c rest ih =>
    have ha := a.toNat_lt
    have hb := b.toNat_lt
    have hc := c.toNat_lt
    simp only [b64urlChars, List.mem_cons] at h
    obtain h | h | h | h | h := h
    · exact ⟨_, by omega, h⟩
    · exact ⟨_, by omega, h⟩
    · exact ⟨_, by omega, h⟩
    · exact ⟨_, by omega, h⟩
    · exact ih h

theorem b64urlDecode_encode (data : List UInt8) : b64urlDecode (b64urlEncode data) = .ok data := by
  have hascii : (b64urlChars data ++ b64Padding (b64urlChars data).length).all (·.toNat < 128) := by
    refine List.all_eq_true.mpr fun c hc => decide_eq_true ?_
    obtain hc | hc := List.mem_append.mp hc
    · obtain ⟨v, hv, rfl⟩ := mem_b64urlChars hc
      exact (urlsafeDigit_plain hv).1
    · rw [b64Padding] at hc
      split_ifs at hc
      · rw [List.eq_of_mem_replicate hc]
        decide
      · cases hc
  unfold b64urlDecode b64urlEncode urlsafeB64decode
  rw [String.toList_ofList, if_pos hascii, a2bBase64_encoded]
  rfl

end Hypern.Python
