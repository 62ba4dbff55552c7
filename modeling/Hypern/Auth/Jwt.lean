import Hypern.Python.Base64
import Hypern.Python.Json
import Mathlib.Data.Finset.Insert

/-! `hypern.auth.JWTAuth`: encoding, decoding, revoking and refreshing tokens. -/

namespace Hypern.Auth

open Lib Python

inductive Algorithm
  | hs256 | rs256 | es256 | unsupported (name : String)

def Algorithm.name : Algorithm → String
  | .hs256 => "HS256"
  | .rs256 => "RS256"
  | .es256 => "ES256"
  | .unsupported name => name

/-- Code outside this module: HMAC-SHA256 of a key and a message, `json.dumps` and
`json.loads`, and for RS256 and ES256 signing claims and verifying a token. -/
structure Primitives where
  hmacSha256 : List UInt8 → List UInt8 → List UInt8
  dumps : Dict → Except PyExc String
  loads : List UInt8 → Except PyExc Json
  sign : Algorithm → Dict → Except PyExc String
  verify : Algorithm → String → Except PyExc Json

structure JWTAuth where
  secret : String
  algorithm : Algorithm
  expirySeconds : Int
  issuer : Option String
  audience : Option String
  headerName : String := "Authorization"
  headerPrefix : String := "Bearer"
  autoError : Bool := true
  blacklist : Finset HashKey

def jwtError (message : String) : PyExc := builtinError "JWTError" message

/-- `token[:32]` -/
def tokenPrefix (token : String) : String := String.ofList (token.toList.take 32)

/-- `json.dumps({"alg": alg, "typ": "JWT"}, separators=(",", ":"))` -/
def headerJson (alg : String) : String := "\x7b\"alg\":\"" ++ alg ++ "\",\"typ\":\"JWT\"\x7d"

namespace JWTAuth

variable (prims : Primitives) (auth : JWTAuth)

def setdefaultIf (claims : Dict) (key : String) : Option String → Dict
  | some value => if value = "" then claims else claims.setdefault key (.str value)
  | none => claims

def claims (payload : Dict) (expiry : Option Int) (now : Int) : Dict :=
  let claims := (payload.set "iat" (.int now)).set "exp" (.int (now + expiry.getD auth.expirySeconds))
  setdefaultIf (setdefaultIf claims "iss" auth.issuer) "aud" auth.audience

def encode (payload : Dict) (expiry : Option Int) (now : Int) : Except PyExc String :=
  let claims := auth.claims payload expiry now
  let headerB64 := b64urlEncode (utf8 (headerJson auth.algorithm.name))
  match prims.dumps claims with
  | .error e => .error e
  | .ok payloadJson =>
    let signingInput := headerB64 ++ "." ++ b64urlEncode (utf8 payloadJson)
    match auth.algorithm with
    | .hs256 =>
      let signature := prims.hmacSha256 (utf8 auth.secret) (utf8 signingInput)
      .ok (signingInput ++ "." ++ b64urlEncode signature)
    | .unsupported name => .error (jwtError ("Unsupported algorithm: " ++ name))
    | alg => prims.sign alg claims

def verifyHs256 (headerB64 payloadB64 signatureB64 : String) : Except PyExc Json :=
  let expected := prims.hmacSha256 (utf8 auth.secret) (utf8 (headerB64 ++ "." ++ payloadB64))
  match b64urlDecode signatureB64 with
  | .error e => .error e
  | .ok actual =>
    if expected ≠ actual then .error (jwtError "Invalid signature")
    else
      match b64urlDecode payloadB64 >>= prims.loads with
      | .error e => .error (jwtError ("Invalid payload: " ++ e.message))
      | .ok payload => .ok payload

def verifyToken (token : String) : Except PyExc Json :=
  match (token.toList.splitOn '.').map String.ofList with
  | [headerB64, payloadB64, signatureB64] =>
    match auth.algorithm with
    | .hs256 => auth.verifyHs256 prims headerB64 payloadB64 signatureB64
    | .unsupported name => .error (jwtError ("Unsupported algorithm: " ++ name))
    | alg =>
      match prims.verify alg token with
      | .error e => .error (jwtError (alg.name ++ " verification failed: " ++ e.message))
      | .ok payload => .ok payload
  | _ => .error (jwtError "Invalid token format")

/-- `payload.get("jti", token[:32])` -/
def jtiOf (payload : Dict) (token : String) : Json :=
  (payload.get? "jti").getD (.str (tokenPrefix token))

/-- `decode` up to the look at the blacklist: the payload and the key it looks up. -/
def identify (token : String) : Except PyExc (Dict × Option HashKey) :=
  match auth.verifyToken prims token with
  | .error e => .error e
  | .ok (.dict payload) => (jtiOf payload token).hashKey.map (payload, ·)
  | .ok v => .error (builtinError "AttributeError"
      ("'" ++ v.typeName ++ "' object has no attribute 'get'"))

def checkIssuer (payload : Dict) : Except PyExc Unit :=
  match auth.issuer with
  | some iss =>
    if iss = "" || ((payload.get? "iss").getD .null).isStr iss then .ok ()
    else .error (jwtError "Invalid issuer")
  | none => .ok ()

def checkAudience (payload : Dict) : Except PyExc Unit :=
  match auth.audience with
  | some audience =>
    let listed := match (payload.get? "aud").getD .null with
      | .list l => l.any (·.isStr audience)
      | aud => aud.isStr audience
    if audience = "" || listed then .ok () else .error (jwtError "Invalid audience")
  | none => .ok ()

def checkExpiry (payload : Dict) (now : Int) : Except PyExc Unit :=
  match (payload.get? "exp").getD .null with
  | .null => .ok ()
  | exp =>
    match exp.ltInt now with
    | .error e => .error e
    | .ok true => .error (jwtError "Token has expired")
    | .ok false => .ok ()

def checkClaims (payload : Dict) (now : Int) : Except PyExc Dict :=
  match checkExpiry payload now, auth.checkIssuer payload, auth.checkAudience payload with
  | .error e, _, _ => .error e
  | .ok _, .error e, _ => .error e
  | .ok _, .ok _, .error e => .error e
  | .ok _, .ok _, .ok _ => .ok payload

def isBlacklisted (key : Option HashKey) : Bool :=
  match key with
  | some k => decide (k ∈ auth.blacklist)
  | none => false

def decode (token : String) (now : Int) : Except PyExc Dict :=
  match auth.identify prims token with
  | .error e => .error e
  | .ok (payload, key) =>
    if auth.isBlacklisted key then .error (jwtError "Token has been revoked")
    else auth.checkClaims payload now

def blacklistAdd (key : Option HashKey) : JWTAuth :=
  match key with
  | some k => { auth with blacklist := insert k auth.blacklist }
  | none => auth

def revoke (token : String) (now : Int) : Except PyExc Unit × JWTAuth :=
  match auth.decode prims token now with
  | .ok payload =>
    match (jtiOf payload token).hashKey with
    | .ok key => (.ok (), auth.blacklistAdd key)
    | .error e => (.error e, auth)
  | .error e =>
    if e.isInstance "JWTError" then (.ok (), auth.blacklistAdd (some (.str (tokenPrefix token))))
    else (.error e, auth)

def refresh (token : String) (expiry : Option Int) (now later : Int) : Except PyExc String :=
  match auth.decode prims token now with
  | .error e => .error e
  | .ok payload => auth.encode prims (((payload.pop "iat").pop "exp").pop "nbf") expiry later

/-! ## A token passes its own signature check -/

def hs256SigningInput (payloadJson : String) : String :=
  b64urlEncode (utf8 (headerJson "HS256")) ++ "." ++ b64urlEncode (utf8 payloadJson)

def hs256Token (payloadJson : String) : String :=
  hs256SigningInput payloadJson ++ "." ++
    b64urlEncode (prims.hmacSha256 (utf8 auth.secret) (utf8 (hs256SigningInput payloadJson)))

variable {prims auth}

theorem encode_hs256 (hs256 : auth.algorithm = .hs256) {payload : Dict} {expiry : Option Int}
    {now : Int} {payloadJson : String}
    (hdumps : prims.dumps (auth.claims payload expiry now) = .ok payloadJson) :
    auth.encode prims payload expiry now = .ok (auth.hs256Token prims payloadJson) := by
  simp only [encode, hdumps, hs256]
  rfl

theorem dot_not_mem_b64urlEncode (data : List UInt8) : '.' ∉ (b64urlEncode data).toList := by
  intro h
  rw [b64urlEncode, String.toList_ofList] at h
  obtain ⟨v, hv, heq⟩ := mem_b64urlChars h
  exact (urlsafeDigit_plain hv).2.2 heq.symm

theorem splitOn_dots {h p s : String} (hh : '.' ∉ h.toList) (hp : '.' ∉ p.toList)
    (hs : '.' ∉ s.toList) :
    ((h ++ "." ++ p ++ "." ++ s).toList.splitOn '.').map String.ofList = [h, p, s] := by
  have hlist : (h ++ "." ++ p ++ "." ++ s).toList =
      ['.'].intercalate [h.toList, p.toList, s.toList] := by
    simp [List.intercalate]
  rw [hlist, List.splitOn_intercalate]
  · simp
  · simpa using ⟨hh, hp, hs⟩
  · simp

theorem verifyToken_hs256Token (hs256 : auth.algorithm = .hs256) (payloadJson : String) :
    auth.verifyToken prims (auth.hs256Token prims payloadJson) =
      match prims.loads (utf8 payloadJson) with
      | .error e => .error (jwtError ("Invalid payload: " ++ e.message))
      | .ok payload => .ok payload := by
  have hsplit := splitOn_dots (dot_not_mem_b64urlEncode (utf8 (headerJson "HS256")))
    (dot_not_mem_b64urlEncode (utf8 payloadJson)) (dot_not_mem_b64urlEncode
      (prims.hmacSha256 (utf8 auth.secret) (utf8 (hs256SigningInput payloadJson))))
  simp only [verifyToken, hs256Token]
  rw [hs256SigningInput] at hsplit ⊢
  rw [hsplit, hs256]
  simp only [verifyHs256, b64urlDecode_encode, ne_eq, not_true_eq_false, if_false]
  rfl

end JWTAuth

end Hypern.Auth
