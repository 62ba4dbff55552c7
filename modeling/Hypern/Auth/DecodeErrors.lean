import Hypern.Auth.Guards
import Hypern.Auth.Revocation
import Hypern.Python.Str

/-! What `decode` raises. Besides `JWTError` there are the errors of decoding the signature, of a
payload that is no object, of a `jti` that cannot be looked up and of an `exp` that cannot be
compared, and `required` lets all of them through. -/

namespace Hypern.Auth

open Lib Python Hypern.Core

namespace JWTAuth

variable (prims : Primitives) (auth : JWTAuth)

/-- `decode` of any string. The signing input is encoded before the signature is decoded. -/
def decodeStr (token : PyStr) (now : Int) : Except PyExc Dict :=
  match token.plain? with
  | some token => auth.decode prims token now
  | none =>
    match token.splitOn (.char '.') with
    | [headerB64, payloadB64, _] =>
      let signingInput : PyStr := headerB64 ++ .char '.' :: payloadB64
      if signingInput.plain?.isNone then .error (unicodeEncodeError signingInput)
      else .error asciiOnlyError
    | _ => .error (jwtError "Invalid token format")

/-- Every failure is a `JWTError`, and behind `required` a token that is not accepted is answered
with 401 in place of the handler. -/
structure ErrorContract (token : PyStr) (now : Int) : Prop where
  raises : ∀ e, auth.decodeStr prims token now = .error e → e.isInstance "JWTError" = true
  guarded : auth.autoError = true → ∀ text, token.plain? = some text →
    (∀ payload, auth.decodeStr prims token now ≠ .ok payload) →
    ∀ str req ctx, auth.extractToken req = some text →
      ∃ message, auth.required prims str req now ctx = .error (.responded 401 "unauthorized" message)

def parts (token : String) : List String := (token.toList.splitOn '.').map String.ofList

/-- The token is correctly signed and this is its payload. -/
def Signed (token : String) (payload : Json) : Prop :=
  ∃ headerB64 payloadB64 signatureB64 data, parts token = [headerB64, payloadB64, signatureB64] ∧
    b64urlDecode signatureB64 =
      .ok (prims.hmacSha256 (utf8 auth.secret) (utf8 (headerB64 ++ "." ++ payloadB64))) ∧
    b64urlDecode payloadB64 = .ok data ∧ prims.loads data = .ok payload

/-- `exp` can be compared with the time. -/
def comparable : Json → Bool
  | .null | .bool _ | .int _ | .float _ => true
  | .str _ | .list _ | .dict _ => false

/-- The signature of a token of three parts is base64; a payload that is correctly signed is an
object whose `jti` is hashable, and revoked unless its `exp` is missing, `null` or a number. -/
structure Checkable (token : String) : Prop where
  signature : ∀ headerB64 payloadB64 signatureB64,
    parts token = [headerB64, payloadB64, signatureB64] → (b64urlDecode signatureB64).isOk = true
  payload : ∀ v, auth.Signed prims token v → ∃ d key, v = .dict d ∧
    (jtiOf d token).hashKey = .ok key ∧
    (auth.isBlacklisted key = true ∨ comparable ((Dict.get? d "exp").getD .null) = true)

/-- The same for any string: one with surrogates does not have three parts. -/
def CheckableStr (token : PyStr) : Prop :=
  match token.plain? with
  | some text => auth.Checkable prims text
  | none => (token.splitOn (.char '.')).length ≠ 3

/-! ## The errors of the single steps -/

variable {prims auth}

theorem isInstance_typeError (message : String) : (typeError message).isInstance "JWTError" = false :=
  rfl

theorem a2bBase64_error {cs : List Char} {quadPos leftchar pads : Nat} {out : List UInt8} {e : PyExc}
    (h : a2bBase64 cs quadPos leftchar pads out = .error e) : e.isInstance "JWTError" = false := by
  induction cs generalizing quadPos leftchar pads out with
  | nil =>
    unfold a2bBase64 at h
    split_ifs at h
    · cases h
      rfl
    · cases h
      rfl
  | cons c cs ih =>
    unfold a2bBase64 at h
    split_ifs at h
    · exact ih h
    · exact ih h
    · split at h
      · exact ih h
      · split at h <;> exact ih h

theorem b64urlDecode_error {s : String} {e : PyExc} (h : b64urlDecode s = .error e) :
    e.isInstance "JWTError" = false := by
  unfold b64urlDecode urlsafeB64decode at h
  split_ifs at h
  · exact a2bBase64_error h
  · cases h
    rfl

theorem hashKey_error {v : Json} {e : PyExc} (h : v.hashKey = .error e) :
    e.isInstance "JWTError" = false := by
  cases v with
  | null | bool | int | str => cases h
  | float f => cases f <;> cases h
  | list | dict =>
    cases h
    rfl

theorem ltInt_isOk {v : Json} (hnull : v ≠ .null) (now : Int) :
    (v.ltInt now).isOk = comparable v := by
  cases v with
  | null => exact absurd rfl hnull
  | float f => cases f <;> rfl
  | _ => rfl

/-- The expiry check raises something else exactly if `exp` cannot be compared. -/
theorem checkExpiry_error_iff (payload : Dict) (now : Int) :
    (∀ e, checkExpiry payload now = .error e → e.isInstance "JWTError" = true) ↔
      comparable ((payload.get? "exp").getD .null) = true := by
  unfold checkExpiry
  split
  · rename_i hexp
    rw [hexp]
    exact iff_of_true nofun rfl
  · rename_i exp hnull
    rw [← ltInt_isOk (fun h => hnull h) now]
    cases hlt : ((payload.get? "exp").getD .null).ltInt now with
    | error e =>
      obtain ⟨message, rfl⟩ := ltInt_error hlt
      refine iff_of_false (fun h => ?_) nofun
      have hinstance := h _ rfl
      rw [isInstance_typeError] at hinstance
      cases hinstance
    | ok late =>
      refine iff_of_true (fun e he => ?_) rfl
      cases late with
      | true =>
        cases he
        rfl
      | false => cases he

theorem checkIssuer_error {payload : Dict} {e : PyExc} (h : auth.checkIssuer payload = .error e) :
    e.isInstance "JWTError" = true := by
  unfold checkIssuer at h
  split at h
  · split_ifs at h
    cases h
    rfl
  · cases h

theorem checkAudience_error {payload : Dict} {e : PyExc} (h : auth.checkAudience payload = .error e) :
    e.isInstance "JWTError" = true := by
  unfold checkAudience at h
  split at h
  · dsimp only at h
    split_ifs at h
    cases h
    rfl
  · cases h

theorem checkClaims_error_iff (payload : Dict) (now : Int) :
    (∀ e, auth.checkClaims payload now = .error e → e.isInstance "JWTError" = true) ↔
      comparable ((payload.get? "exp").getD .null) = true := by
  rw [← checkExpiry_error_iff payload now]
  constructor
  · intro h e he
    refine h e ?_
    unfold checkClaims
    rw [he]
  · intro h e he
    unfold checkClaims at he
    split at he
    · rename_i hexpiry
      cases he
      exact h _ hexpiry
    · rename_i hissuer
      cases he
      exact checkIssuer_error hissuer
    · rename_i haudience
      cases he
      exact checkAudience_error haudience
    · cases he

/-! ## The token as a whole -/

section Hs256

variable {token : String} {now : Int} (hs256 : auth.algorithm = .hs256)
include hs256

theorem verifyToken_of_parts {headerB64 payloadB64 signatureB64 : String}
    (h : parts token = [headerB64, payloadB64, signatureB64]) :
    auth.verifyToken prims token = auth.verifyHs256 prims headerB64 payloadB64 signatureB64 := by
  unfold verifyToken
  rw [show (token.toList.splitOn '.').map String.ofList = _ from h, hs256]

theorem verifyToken_of_signed {v : Json} (h : auth.Signed prims token v) :
    auth.verifyToken prims token = .ok v := by
  obtain ⟨headerB64, payloadB64, signatureB64, data, hparts, hsig, hdata, hload⟩ := h
  rw [verifyToken_of_parts hs256 hparts]
  unfold verifyHs256
  rw [hsig, hdata, show (Except.ok data >>= prims.loads) = _ from hload]
  exact if_neg (not_not.mpr rfl)

/-- The signature check fails with a `JWTError`, or while it decodes the signature, or gives the
payload of a token that is signed. -/
theorem verifyToken_cases :
    (∃ message, auth.verifyToken prims token = .error (jwtError message) ∧
      ∀ headerB64 payloadB64 signatureB64, parts token = [headerB64, payloadB64, signatureB64] →
        (b64urlDecode signatureB64).isOk = true) ∨
      (∃ headerB64 payloadB64 signatureB64 e,
        parts token = [headerB64, payloadB64, signatureB64] ∧ b64urlDecode signatureB64 = .error e ∧
          auth.verifyToken prims token = .error e) ∨
      ∃ v, auth.Signed prims token v := by
  by_cases hthree : ∃ headerB64 payloadB64 signatureB64,
      parts token = [headerB64, payloadB64, signatureB64]
  · obtain ⟨headerB64, payloadB64, signatureB64, hparts⟩ := hthree
    have hverify := @verifyToken_of_parts prims auth token hs256 _ _ _ hparts
    unfold verifyHs256 at hverify
    cases hsig : b64urlDecode signatureB64 with
    | error e =>
      rw [hsig] at hverify
      exact .inr (.inl ⟨_, _, _, e, hparts, hsig, hverify⟩)
    | ok actual =>
      have hok : ∀ h p s, parts token = [h, p, s] → (b64urlDecode s).isOk = true := by
        intro h p s heq
        obtain rfl : signatureB64 = s := by
          rw [hparts] at heq
          exact (List.cons.inj (List.cons.inj (List.cons.inj heq).2).2).1
        rw [hsig]
        rfl
      rw [hsig] at hverify
      dsimp only at hverify
      split_ifs at hverify with hne
      · exact .inl ⟨_, hverify, hok⟩
      · cases hdata : b64urlDecode payloadB64 with
        | error e =>
          rw [hdata] at hverify
          exact .inl ⟨_, hverify, hok⟩
        | ok data =>
          rw [hdata] at hverify
          cases hload : prims.loads data with
          | error e =>
            rw [show (Except.ok data >>= prims.loads) = _ from hload] at hverify
            exact .inl ⟨_, hverify, hok⟩
          | ok v =>
            rw [← not_not.mp hne] at hsig
            exact .inr (.inr ⟨v, _, _, _, data, hparts, hsig, hdata, hload⟩)
  · refine .inl ⟨"Invalid token format", ?_, fun h p s heq => absurd ⟨h, p, s, heq⟩ hthree⟩
    unfold verifyToken
    split
    · rename_i h p s heq
      exact absurd ⟨h, p, s, heq⟩ hthree
    · rfl

theorem identify_of_signed {payload : Dict} (h : auth.Signed prims token (.dict payload)) :
    auth.identify prims token = (jtiOf payload token).hashKey.map (payload, ·) := by
  unfold identify
  rw [verifyToken_of_signed hs256 h]

theorem decode_unhashable {payload : Dict} (h : auth.Signed prims token (.dict payload)) {e : PyExc}
    (hkey : (jtiOf payload token).hashKey = .error e) : auth.decode prims token now = .error e := by
  unfold decode
  rw [identify_of_signed hs256 h, hkey]
  rfl

theorem decode_hashed_error_iff {payload : Dict} (h : auth.Signed prims token (.dict payload))
    {key : Option HashKey} (hkey : (jtiOf payload token).hashKey = .ok key) :
    (∀ e, auth.decode prims token now = .error e → e.isInstance "JWTError" = true) ↔
      auth.isBlacklisted key = true ∨ comparable ((payload.get? "exp").getD .null) = true := by
  have hidentify : auth.identify prims token = .ok (payload, key) := by
    rw [identify_of_signed hs256 h, hkey]
    rfl
  rw [decode_eq hidentify]
  split_ifs with hblack
  · refine iff_of_true (fun e he => ?_) (.inl hblack)
    cases he
    rfl
  · rw [checkClaims_error_iff]
    exact (or_iff_right hblack).symm

/-- `decode` on a token that is signed. -/
theorem decode_signed_error_iff {v : Json} (h : auth.Signed prims token v) :
    (∀ e, auth.decode prims token now = .error e → e.isInstance "JWTError" = true) ↔
      ∃ d key, v = .dict d ∧ (jtiOf d token).hashKey = .ok key ∧
        (auth.isBlacklisted key = true ∨ comparable ((Dict.get? d "exp").getD .null) = true) := by
  cases v with
  | dict d =>
    cases hkey : (jtiOf d token).hashKey with
    | error e =>
      refine iff_of_false (fun hall => ?_) ?_
      · have hinstance := hall e (decode_unhashable hs256 h hkey)
        rw [hashKey_error hkey] at hinstance
        cases hinstance
      · rintro ⟨d', key, heq, hkey', -⟩
        cases heq
        rw [hkey] at hkey'
        cases hkey'
    | ok key =>
      rw [decode_hashed_error_iff hs256 h hkey]
      constructor
      · exact fun hor => ⟨d, key, rfl, hkey, hor⟩
      · rintro ⟨d', key', heq, hkey', hor⟩
        cases heq
        rw [hkey] at hkey'
        cases hkey'
        exact hor
  | _ =>
    have hverify := verifyToken_of_signed hs256 h
    refine iff_of_false (fun hall => ?_) nofun
    have hinstance := hall _ (by
      unfold decode identify
      rw [hverify])
    cases hinstance

theorem decode_error_iff :
    (∀ e, auth.decode prims token now = .error e → e.isInstance "JWTError" = true) ↔
      auth.Checkable prims token := by
  rcases @verifyToken_cases prims auth token hs256 with
    ⟨message, hverify, hok⟩ | ⟨h, p, s, e, hparts, hsig, hverify⟩ | ⟨v, hsigned⟩
  · refine iff_of_true (fun e he => ?_) ⟨hok, fun v hv => ?_⟩
    · unfold decode identify at he
      rw [hverify] at he
      cases he
      rfl
    · rw [verifyToken_of_signed hs256 hv] at hverify
      cases hverify
  · refine iff_of_false (fun hall => ?_) fun hcheck => ?_
    · have hinstance := hall e (by
        unfold decode identify
        rw [hverify])
      rw [b64urlDecode_error hsig] at hinstance
      cases hinstance
    · have hok := hcheck.signature _ _ _ hparts
      rw [hsig] at hok
      cases hok
  · rw [decode_signed_error_iff hs256 hsigned]
    constructor
    · intro hd
      refine ⟨fun h p s hparts => ?_, fun v' hv' => ?_⟩
      · obtain ⟨h', p', s', data, hparts', hsig, -⟩ := hsigned
        rw [hparts] at hparts'
        cases hparts'
        rw [hsig]
        rfl
      · have heq : v = v' := Except.ok.inj
          ((verifyToken_of_signed hs256 hsigned).symm.trans (verifyToken_of_signed hs256 hv'))
        exact heq ▸ hd
    · exact fun hcheck => hcheck.payload v hsigned

theorem decodeStr_error_iff (token : PyStr) (now : Int) :
    (∀ e, auth.decodeStr prims token now = .error e → e.isInstance "JWTError" = true) ↔
      auth.CheckableStr prims token := by
  unfold decodeStr CheckableStr
  cases token.plain? with
  | some text => exact decode_error_iff hs256
  | none =>
    dsimp only
    split
    · rename_i headerB64 payloadB64 signatureB64 hparts
      refine iff_of_false (fun hall => ?_) fun hlength => hlength (congrArg List.length hparts)
      split_ifs at hall
      · have hinstance := hall _ rfl
        cases hinstance
      · have hinstance := hall _ rfl
        cases hinstance
    · rename_i hparts
      refine iff_of_true (fun e he => ?_) fun hlength => ?_
      · cases he
        rfl
      · obtain ⟨h, p, s, heq⟩ := List.length_eq_three.mp hlength
        exact hparts h p s heq

end Hs256

theorem checkableStr_ofString (text : String) :
    auth.CheckableStr prims (.ofString text) ↔ auth.Checkable prims text := by
  unfold CheckableStr
  rw [PyStr.plain?_ofString]

theorem decodeStr_ofString (text : String) (now : Int) :
    auth.decodeStr prims (.ofString text) now = auth.decode prims text now := by
  unfold decodeStr
  rw [PyStr.plain?_ofString]

/-- What `required` answers where `decode` fails with a `JWTError`. -/
theorem required_of_jwtError {token : String} {now : Int} {e : PyExc}
    (hdecode : auth.decode prims token now = .error e) (he : e.isInstance "JWTError" = true)
    (hauto : auth.autoError = true) {req : AuthRequest} (htoken : auth.extractToken req = some token)
    (str : Json → String) (ctx : Context Json) :
    ∃ message, auth.required prims str req now ctx =
      .error (.responded 401 "unauthorized" message) := by
  unfold required
  rw [htoken, hauto]
  by_cases hempty : token = ""
  · rw [show ifTrue (some token) = none from if_pos hempty]
    exact ⟨_, rfl⟩
  · rw [show ifTrue (some token) = some token from if_neg hempty]
    dsimp only
    rw [hdecode]
    dsimp only
    rw [he]
    exact ⟨_, rfl⟩

/-- `decode` keeps to its error contract on exactly the tokens that can be checked. -/
theorem errorContract_iff_checkable (prims : Primitives) (auth : JWTAuth)
    (hs256 : auth.algorithm = .hs256) (token : PyStr) (now : Int) :
    auth.ErrorContract prims token now ↔ auth.CheckableStr prims token := by
  refine ⟨fun h => (decodeStr_error_iff hs256 token now).mp h.raises, fun h => ?_⟩
  have hraises := (decodeStr_error_iff hs256 token now).mpr h
  refine ⟨hraises, fun hauto text htext hrejected str req ctx htoken => ?_⟩
  have hdecodeStr : auth.decodeStr prims token now = auth.decode prims text now := by
    unfold decodeStr
    rw [htext]
  rw [hdecodeStr] at hraises hrejected
  cases hdecode : auth.decode prims text now with
  | ok payload => exact absurd hdecode (hrejected payload)
  | error e => exact required_of_jwtError hdecode (hraises e hdecode) hauto htoken str ctx

end JWTAuth

theorem sampleToken_errorContract :
    TokenPair.sampleAuth.ErrorContract TokenPair.samplePrims
        (PyStr.ofString (TokenPair.sampleToken "1")) 1700000000 ∧
      TokenPair.sampleAuth.decodeStr TokenPair.samplePrims
          (PyStr.ofString (TokenPair.sampleToken "1")) 1700000000 =
        .ok (TokenPair.userClaims "1") := by
  have hdecoded := @TokenPair.sampleToken_decoded "1" (.inl rfl)
  constructor
  · refine (JWTAuth.errorContract_iff_checkable _ _ rfl _ _).mpr ?_
    rw [JWTAuth.checkableStr_ofString]
    refine (@JWTAuth.decode_error_iff _ _ _ 1700000000 rfl).mp fun e he => ?_
    rw [hdecoded] at he
    cases he
  · rw [JWTAuth.decodeStr_ofString]
    exact hdecoded

/-- One character is no base64, whatever the secret. -/
theorem short_signature_valueError :
    ¬ ∀ (prims : Primitives) (auth : JWTAuth) (token : PyStr) (now : Int), auth.algorithm = .hs256 →
      auth.ErrorContract prims token now := by
  intro h
  have hraises := (h TokenPair.samplePrims TokenPair.sampleAuth (.ofString "a.b.c") 0 rfl).raises
  have hinstance := hraises _ rfl
  exact absurd hinstance (by decide +kernel)

end Hypern.Auth
