import Hypern.Auth.Guards
import Hypern.Auth.Permanence

/-! `decode` after `encode`. The times of a token are always the instance's, but its issuer and its
audience are those of the payload where the payload has its own, and `decode` holds these to the
ones of the instance. -/

namespace Hypern.Auth

open Lib Python

/-- `json.loads` gives back what `json.dumps` has written of these claims. -/
def Primitives.RoundTrips (prims : Primitives) (claims : Dict) : Prop :=
  ∃ text, prims.dumps claims = .ok text ∧ prims.loads (utf8 text) = .ok (.dict claims)

namespace JWTAuth

variable (prims : Primitives) (auth : JWTAuth)

/-- What a payload says about issuer and audience itself is what the instance is configured with;
its audience may also be a list with the instance's among others. -/
structure Agrees (payload : Dict) : Prop where
  issuer : ∀ iss, ifTrue auth.issuer = some iss → ∀ v, payload.get? "iss" = some v →
    v.isStr iss = true
  audience : ∀ aud, ifTrue auth.audience = some aud → ∀ v, payload.get? "aud" = some v →
    v.isStr aud = true ∨ ∃ l, v = .list l ∧ l.any (·.isStr aud) = true

/-- The payload with the times of the token, and with the issuer and the audience of the instance
where these are configured and the payload has none. -/
def updated (payload : Dict) (expiry : Option Int) (now : Int) (key : String) : Option Json :=
  if key = "exp" then some (.int (now + expiry.getD auth.expirySeconds))
  else if key = "iat" then some (.int now)
  else if key = "iss" then (payload.get? "iss").or ((ifTrue auth.issuer).map .str)
  else if key = "aud" then (payload.get? "aud").or ((ifTrue auth.audience).map .str)
  else payload.get? key

end JWTAuth

/-! ## The claims of a token -/

namespace JWTAuth

variable {prims : Primitives} {auth : JWTAuth} {payload : Dict} {expiry : Option Int} {now later : Int}

theorem get?_setdefaultIf (d : Dict) (key key' : String) (value : Option String) :
    (setdefaultIf d key value).get? key' =
      if key' = key then (d.get? key).or ((ifTrue value).map .str) else d.get? key' := by
  unfold setdefaultIf ifTrue
  cases value with
  | none =>
    split_ifs with hkey
    · rw [hkey]
      exact Option.or_none.symm
    · rfl
  | some s =>
    dsimp only
    split_ifs with hempty hkey hkey
    · rw [hkey]
      exact Option.or_none.symm
    · rfl
    · rw [Dict.get?_setdefault, if_pos hkey]
      rfl
    · rw [Dict.get?_setdefault, if_neg hkey]

theorem get?_claims (key : String) :
    (auth.claims payload expiry now).get? key = auth.updated payload expiry now key := by
  unfold claims updated
  simp only [get?_setdefaultIf, Dict.get?_set, String.reduceEq, if_false]
  by_cases hiss : key = "iss"
  · rw [hiss]
    rfl
  · by_cases haud : key = "aud"
    · rw [haud]
      rfl
    · rw [if_neg haud, if_neg hiss, if_neg hiss, if_neg haud]

/-! ## Decoding -/

theorem checkIssuer_eq_ok {d : Dict} : auth.checkIssuer d = .ok () ↔
    ∀ iss, ifTrue auth.issuer = some iss → ((d.get? "iss").getD .null).isStr iss = true := by
  unfold checkIssuer ifTrue
  cases auth.issuer with
  | none => exact iff_of_true rfl nofun
  | some iss =>
    dsimp only
    by_cases hempty : iss = ""
    · rw [if_pos hempty, decide_eq_true hempty]
      exact iff_of_true rfl nofun
    · rw [if_neg hempty, decide_eq_false hempty, Bool.false_or]
      split_ifs with hstr
      · exact iff_of_true rfl fun _ h => Option.some.inj h ▸ hstr
      · exact iff_of_false nofun fun h => hstr (h iss rfl)

/-- The audience is the one wanted, or a list that has it. -/
def listsAudience (aud : String) : Json → Bool
  | .list l => l.any (·.isStr aud)
  | v => v.isStr aud

theorem checkAudience_eq_ok {d : Dict} : auth.checkAudience d = .ok () ↔
    ∀ aud, ifTrue auth.audience = some aud → listsAudience aud ((d.get? "aud").getD .null) = true := by
  unfold checkAudience ifTrue
  cases auth.audience with
  | none => exact iff_of_true rfl nofun
  | some aud =>
    dsimp only
    by_cases hempty : aud = ""
    · rw [if_pos hempty, decide_eq_true hempty]
      exact iff_of_true rfl nofun
    · rw [if_neg hempty, decide_eq_false hempty, Bool.false_or]
      change (if listsAudience aud ((d.get? "aud").getD .null) = true then _ else _) = _ ↔ _
      split_ifs with hlisted
      · exact iff_of_true rfl fun _ h => Option.some.inj h ▸ hlisted
      · exact iff_of_false nofun fun h => hlisted (h aud rfl)

theorem checkIssuer_claims : auth.checkIssuer (auth.claims payload expiry now) = .ok () ↔
    ∀ iss, ifTrue auth.issuer = some iss → ∀ v, payload.get? "iss" = some v → v.isStr iss = true := by
  rw [checkIssuer_eq_ok, get?_claims]
  refine forall₂_congr fun iss hiss => ?_
  have hupdated : auth.updated payload expiry now "iss" = (payload.get? "iss").or (some (.str iss)) := by
    unfold updated
    rw [hiss]
    rfl
  rw [hupdated]
  cases payload.get? "iss" with
  | none => exact iff_of_true (beq_self_eq_true iss) nofun
  | some v => exact ⟨fun h _ heq => Option.some.inj heq ▸ h, fun h => h v rfl⟩

theorem checkAudience_claims : auth.checkAudience (auth.claims payload expiry now) = .ok () ↔
    ∀ aud, ifTrue auth.audience = some aud → ∀ v, payload.get? "aud" = some v →
      listsAudience aud v = true := by
  rw [checkAudience_eq_ok, get?_claims]
  refine forall₂_congr fun aud haud => ?_
  have hupdated : auth.updated payload expiry now "aud" = (payload.get? "aud").or (some (.str aud)) := by
    unfold updated
    rw [haud]
    rfl
  rw [hupdated]
  cases payload.get? "aud" with
  | none => exact iff_of_true (beq_self_eq_true aud) nofun
  | some v => exact ⟨fun h _ heq => Option.some.inj heq ▸ h, fun h => h v rfl⟩

theorem listsAudience_iff {aud : String} {v : Json} : listsAudience aud v = true ↔
    v.isStr aud = true ∨ ∃ l, v = .list l ∧ l.any (·.isStr aud) = true := by
  cases v with
  | list l =>
    refine ⟨fun h => .inr ⟨l, rfl, h⟩, ?_⟩
    rintro (h | ⟨l', heq, h⟩)
    · cases h
    · cases heq
      exact h
  | _ => exact (or_iff_left (by rintro ⟨l, heq, -⟩; cases heq)).symm

theorem agrees_iff : auth.Agrees payload ↔
    auth.checkIssuer (auth.claims payload expiry now) = .ok () ∧
      auth.checkAudience (auth.claims payload expiry now) = .ok () := by
  rw [checkIssuer_claims, checkAudience_claims]
  simp only [listsAudience_iff]
  exact ⟨fun h => ⟨h.issuer, h.audience⟩, fun h => ⟨h.1, h.2⟩⟩

theorem checkExpiry_claims (hlater : later ≤ now + expiry.getD auth.expirySeconds) :
    checkExpiry (auth.claims payload expiry now) later = .ok () := by
  rw [checkExpiry_eq_ok, get?_claims]
  exact .inr (congrArg Except.ok (decide_eq_false (Int.not_lt.mpr hlater)))

theorem identify_encoded (hs256 : auth.algorithm = .hs256)
    (hjti : ∀ v, payload.get? "jti" = some v → ∃ s, v = .str s) {text : String}
    (hloads : prims.loads (utf8 text) = .ok (.dict (auth.claims payload expiry now))) :
    ∃ k, auth.identify prims (auth.hs256Token prims text) =
      .ok (auth.claims payload expiry now, some k) := by
  have hget : (auth.claims payload expiry now).get? "jti" = payload.get? "jti" := get?_claims "jti"
  have hkey : ∃ k, (jtiOf (auth.claims payload expiry now) (auth.hs256Token prims text)).hashKey =
      .ok (some k) := by
    unfold jtiOf
    rw [hget]
    cases hvalue : payload.get? "jti" with
    | none => exact ⟨_, rfl⟩
    | some v =>
      obtain ⟨s, rfl⟩ := hjti v hvalue
      exact ⟨_, rfl⟩
  obtain ⟨k, hk⟩ := hkey
  refine ⟨k, ?_⟩
  unfold identify
  rw [verifyToken_hs256Token hs256, hloads]
  dsimp only
  rw [hk]
  rfl

/-- On an instance that has revoked nothing, `decode` of an own token that has not expired is the
check of its issuer and its audience. -/
theorem decode_encoded (hs256 : auth.algorithm = .hs256) (hfresh : auth.blacklist = ∅)
    (hjti : ∀ v, payload.get? "jti" = some v → ∃ s, v = .str s) {text : String}
    (hloads : prims.loads (utf8 text) = .ok (.dict (auth.claims payload expiry now))) :
    auth.decode prims (auth.hs256Token prims text) later =
      auth.checkClaims (auth.claims payload expiry now) later := by
  obtain ⟨k, hid⟩ := identify_encoded hs256 hjti hloads
  rw [decode_eq hid, if_neg]
  rw [isBlacklisted_some, hfresh]
  exact Finset.notMem_empty k

theorem exists_decode_iff (hs256 : auth.algorithm = .hs256) (hfresh : auth.blacklist = ∅)
    (hjti : ∀ v, payload.get? "jti" = some v → ∃ s, v = .str s) {text : String}
    (hloads : prims.loads (utf8 text) = .ok (.dict (auth.claims payload expiry now)))
    (hlater : later ≤ now + expiry.getD auth.expirySeconds) :
    (∃ d, auth.decode prims (auth.hs256Token prims text) later = .ok d) ↔ auth.Agrees payload := by
  have hagrees : auth.Agrees payload ↔ auth.checkIssuer (auth.claims payload expiry now) = .ok () ∧
      auth.checkAudience (auth.claims payload expiry now) = .ok () := agrees_iff
  rw [decode_encoded hs256 hfresh hjti hloads, hagrees]
  constructor
  · rintro ⟨d, hd⟩
    obtain rfl := checkClaims_ok hd
    exact (checkClaims_eq_ok.mp hd).2
  · exact fun h => ⟨_, checkClaims_eq_ok.mpr ⟨checkExpiry_claims hlater, h⟩⟩

/-- Until it expires, a token of this instance is accepted by it exactly if its payload agrees with
the instance, and it then has the payload with the claims of `encode`. -/
theorem decode_encode_iff (prims : Primitives) (auth : JWTAuth) (hs256 : auth.algorithm = .hs256)
    (hfresh : auth.blacklist = ∅) (payload : Dict) (expiry : Option Int) (now later : Int)
    (hjti : ∀ v, payload.get? "jti" = some v → ∃ s, v = .str s)
    (hround : prims.RoundTrips (auth.claims payload expiry now))
    (hlater : later ≤ now + expiry.getD auth.expirySeconds) :
    ∃ token, auth.encode prims payload expiry now = .ok token ∧
      ((∃ d, auth.decode prims token later = .ok d) ↔ auth.Agrees payload) ∧
      ∀ d, auth.decode prims token later = .ok d →
        ∀ key, d.get? key = auth.updated payload expiry now key := by
  obtain ⟨text, hdumps, hloads⟩ := hround
  refine ⟨_, encode_hs256 hs256 hdumps, exists_decode_iff hs256 hfresh hjti hloads hlater, ?_⟩
  intro d hd key
  rw [decode_encoded hs256 hfresh hjti hloads] at hd
  rw [checkClaims_ok hd]
  exact get?_claims key

end JWTAuth

namespace TokenPair

theorem sampleToken_round_trip :
    ∃ token, sampleAuth.encode samplePrims [("sub", .str "1")] none 1700000000 = .ok token ∧
      ((∃ d, sampleAuth.decode samplePrims token 1700003600 = .ok d) ↔
        sampleAuth.Agrees [("sub", .str "1")]) ∧
      ∀ d, sampleAuth.decode samplePrims token 1700003600 = .ok d →
        ∀ key, d.get? key = sampleAuth.updated [("sub", .str "1")] none 1700000000 key := by
  refine JWTAuth.decode_encode_iff samplePrims sampleAuth rfl rfl _ _ _ _ nofun ?_ (by decide)
  refine ⟨userJson "1", rfl, ?_⟩
  change Except.ok (Json.dict (userClaims (if _ = _ then "1" else "2"))) = _
  rw [if_pos rfl]
  rfl

end TokenPair

/-! ## A payload with an issuer of its own -/

def foreignJson : String := "\x7b\"iss\":\"other\",\"iat\":1700000000,\"exp\":1700003600\x7d"

def foreignClaims : Dict := [("iss", .str "other"), ("iat", .int 1700000000), ("exp", .int 1700003600)]

/-- HMAC-SHA256 under the key `secret`, `json.dumps` and `json.loads` on this one token. -/
def foreignPrims : Primitives where
  hmacSha256 := fun _ _ =>
    [116, 226, 136, 175, 57, 52, 122, 82, 238, 63, 28, 18, 156, 196, 19, 219,
      233, 169, 51, 192, 186, 136, 213, 217, 27, 15, 56, 203, 159, 212, 200, 216]
  dumps := fun _ => .ok foreignJson
  loads := fun _ => .ok (.dict foreignClaims)
  sign := fun _ _ => .error (jwtError "no private key")
  verify := fun _ _ => .error (jwtError "no public key")

def myApp : JWTAuth :=
  { secret := "secret", algorithm := .hs256, expirySeconds := 3600, issuer := some "my-app",
    audience := none, blacklist := ∅ }

theorem foreign_issuer_rejected :
    ¬ ∀ (prims : Primitives) (auth : JWTAuth) (payload : Dict) (expiry : Option Int) (now later : Int),
      auth.algorithm = .hs256 → auth.blacklist = ∅ →
      (∀ v, payload.get? "jti" = some v → ∃ s, v = .str s) →
      prims.RoundTrips (auth.claims payload expiry now) → now ≤ later →
      later ≤ now + expiry.getD auth.expirySeconds →
      ∃ token d, auth.encode prims payload expiry now = .ok token ∧
        auth.decode prims token later = .ok d := by
  intro h
  have hjti : ∀ v, Dict.get? [("iss", .str "other")] "jti" = some v → ∃ s, v = .str s := nofun
  have hloads : foreignPrims.loads (utf8 foreignJson) =
      .ok (.dict (myApp.claims [("iss", .str "other")] none 1700000000)) := rfl
  obtain ⟨token, d, hencode, hdecode⟩ := h foreignPrims myApp [("iss", .str "other")] none 1700000000
    1700000000 rfl rfl hjti ⟨foreignJson, rfl, hloads⟩ (by decide) (by decide)
  rw [JWTAuth.encode_hs256 rfl rfl] at hencode
  obtain rfl := Except.ok.inj hencode
  have hagrees := (JWTAuth.exists_decode_iff rfl rfl hjti hloads (by decide)).mp ⟨d, hdecode⟩
  have hissuer := hagrees.issuer "my-app" rfl _ rfl
  cases hissuer

end Hypern.Auth
