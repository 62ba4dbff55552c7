import Hypern.Auth.Jwt

/-! What revoking one token does to another. Two runs of the same calls are compared, one
with an additional `revoke`; the instances differ in the blacklist only. -/

namespace Hypern.Auth

open Lib Python

inductive Call
  | encode (payload : Dict) (expiry : Option Int) (now : Int)
  | decode (token : String) (now : Int)
  | revoke (token : String) (now : Int)
  | refresh (token : String) (expiry : Option Int) (now later : Int)

inductive Outcome
  | token (r : Except PyExc String)
  | payload (r : Except PyExc Dict)
  | done (r : Except PyExc Unit)

namespace JWTAuth

variable (prims : Primitives) (auth : JWTAuth)

def perform : Call → Outcome × JWTAuth
  | .encode payload expiry now => (.token (auth.encode prims payload expiry now), auth)
  | .decode token now => (.payload (auth.decode prims token now), auth)
  | .revoke token now =>
    let r := auth.revoke prims token now
    (.done r.1, r.2)
  | .refresh token expiry now later => (.token (auth.refresh prims token expiry now later), auth)

def run (calls : List Call) : JWTAuth := calls.foldl (fun a c => (a.perform prims c).2) auth

def revocationKey (token : String) (now : Int) : Option HashKey :=
  match auth.decode prims token now with
  | .ok payload => (jtiOf payload token).hashKey.toOption.join
  | .error e => if e.isInstance "JWTError" then some (.str (tokenPrefix token)) else none

/-- One of the calls is a `revoke` that puts the first 32 characters of its token on the
blacklist, and they are `k`. -/
def PrefixRevoked : JWTAuth → List Call → HashKey → Prop
  | _, [], _ => False
  | auth, c :: cs, k =>
    (∃ t now, c = .revoke t now ∧ k = .str (tokenPrefix t) ∧ auth.revocationKey prims t now = some k) ∨
      PrefixRevoked (auth.perform prims c).2 cs k

def Produced (t : String) : Prop :=
  ∃ payload expiry now, auth.encode prims payload expiry now = .ok t

def jti? (t : String) : Option Json :=
  match auth.verifyToken prims t with
  | .ok (.dict payload) => Dict.get? payload "jti"
  | _ => none

/-- Both tokens carry a `jti`, and the two are equal as members of a set. -/
def SameJti (t t' : String) : Prop :=
  ∃ j j' k, auth.jti? prims t = some j ∧ auth.jti? prims t' = some j' ∧
    j.hashKey = .ok (some k) ∧ j'.hashKey = .ok (some k)

variable {prims auth}

/-! ## One call -/

theorem revoke_state (t : String) (now : Int) :
    (auth.revoke prims t now).2 = auth.blacklistAdd (auth.revocationKey prims t now) := by
  unfold revoke revocationKey
  cases auth.decode prims t now with
  | ok payload =>
    dsimp only
    cases (jtiOf payload t).hashKey <;> rfl
  | error e =>
    dsimp only
    split_ifs <;> rfl

theorem mem_revoke (t : String) (now : Int) (k : HashKey) :
    k ∈ (auth.revoke prims t now).2.blacklist ↔
      k ∈ auth.blacklist ∨ auth.revocationKey prims t now = some k := by
  rw [revoke_state]
  cases auth.revocationKey prims t now with
  | none => simp [blacklistAdd]
  | some k' => simp [blacklistAdd, or_comm, eq_comm]

theorem mem_revoke_of_key {t : String} {now : Int} {k : HashKey}
    (h : auth.revocationKey prims t now = some k) : k ∈ (auth.revoke prims t now).2.blacklist :=
  (mem_revoke t now k).mpr (.inr h)

/-- The two instances differ only in that `a` has more keys on its blacklist. -/
structure Covers (a b : JWTAuth) : Prop where
  rest : a = { b with blacklist := a.blacklist }
  blacklist : b.blacklist ⊆ a.blacklist

theorem blacklistAdd_covers (auth : JWTAuth) (key : Option HashKey) :
    Covers (auth.blacklistAdd key) auth := by
  cases key with
  | none => exact ⟨rfl, Finset.Subset.refl _⟩
  | some k => exact ⟨rfl, Finset.subset_insert k _⟩

theorem revoke_covers (t : String) (now : Int) : Covers (auth.revoke prims t now).2 auth := by
  rw [revoke_state]
  exact blacklistAdd_covers auth _

theorem revoke_adds {t : String} {now : Int} {k : HashKey}
    (h : auth.revocationKey prims t now = some k) :
    ∃ a, (auth.revoke prims t now).2 = a ∧ Covers a auth ∧ k ∈ a.blacklist :=
  ⟨_, rfl, revoke_covers t now, mem_revoke_of_key h⟩

theorem perform_covers (c : Call) : Covers (auth.perform prims c).2 auth := by
  cases c with
  | revoke t now => exact revoke_covers t now
  | encode | decode | refresh => exact ⟨rfl, Finset.Subset.refl _⟩

theorem Covers.trans {a b c : JWTAuth} (h : Covers a b) (h' : Covers b c) : Covers a c := by
  refine ⟨?_, h'.blacklist.trans h.blacklist⟩
  rw [h.rest, h'.rest]

theorem run_covers (calls : List Call) : Covers (auth.run prims calls) auth := by
  induction calls generalizing auth with
  | nil => exact ⟨rfl, Finset.Subset.refl _⟩
  | cons c cs ih => exact ih.trans (perform_covers c)

theorem identify_hashKey {t : String} {payload : Dict} {key : Option HashKey}
    (h : auth.identify prims t = .ok (payload, key)) : (jtiOf payload t).hashKey = .ok key := by
  unfold identify at h
  split at h
  · cases h
  next d _ =>
    cases hk : (jtiOf d t).hashKey with
    | error e => simp [hk, Except.map] at h
    | ok key' =>
      simp only [hk, Except.map, Except.ok.injEq, Prod.mk.injEq] at h
      obtain ⟨rfl, rfl⟩ := h
      exact hk
  · cases h

theorem decode_eq {t : String} {now : Int} {payload : Dict} {key : Option HashKey}
    (h : auth.identify prims t = .ok (payload, key)) :
    auth.decode prims t now =
      if auth.isBlacklisted key then .error (jwtError "Token has been revoked")
      else auth.checkClaims payload now := by
  simp [decode, h]

theorem Covers.identify {a b : JWTAuth} (h : Covers a b) (t : String) :
    a.identify prims t = b.identify prims t := by
  rw [h.rest]
  rfl

theorem Covers.checkClaims {a b : JWTAuth} (h : Covers a b) (payload : Dict) (now : Int) :
    a.checkClaims payload now = b.checkClaims payload now := by
  rw [h.rest]
  rfl

theorem Covers.isBlacklisted {a b : JWTAuth} (h : Covers a b) {key : Option HashKey}
    (hb : b.isBlacklisted key = true) : a.isBlacklisted key = true := by
  cases key with
  | none => cases hb
  | some k => simpa [JWTAuth.isBlacklisted] using h.blacklist (by simpa [JWTAuth.isBlacklisted] using hb)

theorem revocationKey_of_revoked {t : String} {payload : Dict} {key : Option HashKey}
    (h : auth.identify prims t = .ok (payload, key)) (hbl : auth.isBlacklisted key = true) (now : Int) :
    auth.revocationKey prims t now = some (.str (tokenPrefix t)) := by
  simp only [revocationKey, decode_eq h, hbl, if_true]
  rfl

theorem revocationKey_of_decoded {t : String} {now : Int} {payload : Dict} {key : Option HashKey}
    (h : auth.identify prims t = .ok (payload, key)) (hd : auth.decode prims t now = .ok payload) :
    auth.revocationKey prims t now = key := by
  simp only [revocationKey, hd, identify_hashKey h]
  rfl

theorem checkClaims_ok {payload p : Dict} {now : Int} (h : auth.checkClaims payload now = .ok p) :
    p = payload := by
  unfold checkClaims at h
  split at h <;> simp_all

theorem revocationKey_cases {t : String} {now : Int} {payload : Dict} {key : Option HashKey}
    (h : auth.identify prims t = .ok (payload, key)) {k : HashKey}
    (hk : auth.revocationKey prims t now = some k) : key = some k ∨ k = .str (tokenPrefix t) := by
  -- a revocation that decoding does not stop takes the key that decoding looked up
  unfold revocationKey at hk
  split at hk
  next p hp =>
    rw [decode_eq h] at hp
    split_ifs at hp
    obtain rfl := checkClaims_ok hp
    rw [identify_hashKey h] at hk
    exact .inl (by simpa [Except.toOption] using hk)
  next e _ =>
    split_ifs at hk
    exact .inr (Option.some.inj hk).symm

theorem Covers.revocationKey {a b : JWTAuth} (h : Covers a b) (t : String) (now : Int) :
    (∀ k, b.revocationKey prims t now = some k →
      k ∈ a.blacklist ∨ a.revocationKey prims t now = some k) ∧
    (∀ k, a.revocationKey prims t now = some k →
      b.revocationKey prims t now = some k ∨ k = .str (tokenPrefix t)) := by
  -- where decoding does not meet the blacklist both revoke the same key; where it meets it in
  -- the larger one only, that one falls back to the prefix
  have hsame : a.decode prims t now = b.decode prims t now →
      a.revocationKey prims t now = b.revocationKey prims t now := by
    intro hdec
    simp only [JWTAuth.revocationKey, hdec]
  cases hid : b.identify prims t with
  | error e =>
    have heq := hsame (by simp only [JWTAuth.decode, h.identify, hid])
    exact ⟨fun k hk => .inr (heq.trans hk), fun k hk => .inl (heq.symm.trans hk)⟩
  | ok r =>
    obtain ⟨payload, key⟩ := r
    have hida : a.identify prims t = .ok (payload, key) := (h.identify t).trans hid
    cases ha : a.isBlacklisted key with
    | false =>
      have hb : b.isBlacklisted key = false := by
        by_contra hb
        simp [h.isBlacklisted (Bool.eq_true_of_not_eq_false hb)] at ha
      have heq := hsame (by rw [decode_eq hida, decode_eq hid, ha, hb, h.checkClaims])
      exact ⟨fun k hk => .inr (heq.trans hk), fun k hk => .inl (heq.symm.trans hk)⟩
    | true =>
      have hkey := revocationKey_of_revoked hida ha now
      refine ⟨fun k hk => ?_, fun k hk => .inr ?_⟩
      · obtain rfl | rfl := revocationKey_cases hid hk
        · exact .inl (by simpa [JWTAuth.isBlacklisted] using ha)
        · exact .inr hkey
      · exact Option.some.inj (hk.symm.trans hkey)

/-! ## The two runs -/

theorem Covers.perform {a b : JWTAuth} (h : Covers a b) (c : Call) :
    Covers (a.perform prims c).2 (b.perform prims c).2 := by
  have ha : Covers (a.perform prims c).2 a := perform_covers c
  have hb : Covers (b.perform prims c).2 b := perform_covers c
  refine ⟨by rw [ha.rest, hb.rest, h.rest], ?_⟩
  cases c with
  | revoke t now =>
    intro k hk
    refine (mem_revoke t now k).mpr ?_
    obtain hk | hk := (mem_revoke t now k).mp hk
    · exact .inl (h.blacklist hk)
    · exact (h.revocationKey t now).1 k hk
  | encode | decode | refresh => exact h.blacklist

theorem Covers.run {a b : JWTAuth} (h : Covers a b) (calls : List Call) :
    Covers (a.run prims calls) (b.run prims calls) := by
  induction calls generalizing a b with
  | nil => exact h
  | cons c cs ih => exact ih (h.perform c)

theorem mem_run_of_prefixRevoked {calls : List Call} {k : HashKey}
    (h : auth.PrefixRevoked prims calls k) : k ∈ (auth.run prims calls).blacklist := by
  induction calls generalizing auth with
  | nil => exact h.elim
  | cons c cs ih =>
    obtain ⟨t, now, rfl, -, hk⟩ | h := h
    · exact (run_covers cs).blacklist (mem_revoke_of_key hk)
    · exact ih h

theorem Covers.mem_run {a b : JWTAuth} (h : Covers a b) (calls : List Call) {k : HashKey}
    (hk : k ∈ (a.run prims calls).blacklist) :
    k ∈ a.blacklist ∨ k ∈ (b.run prims calls).blacklist ∨ a.PrefixRevoked prims calls k := by
  -- the induction is on the calls; a key that only `a` gains is the prefix of a revoked token
  induction calls generalizing a b with
  | nil => exact .inl hk
  | cons c cs ih =>
    obtain hk | hk | hk := ih (h.perform c) hk
    · cases c with
      | revoke t now =>
        obtain hk | hk := (mem_revoke t now k).mp hk
        · exact .inl hk
        · obtain hb | hpre := (h.revocationKey t now).2 k hk
          · exact .inr (.inl ((run_covers cs).blacklist (mem_revoke_of_key hb)))
          · exact .inr (.inr (.inl ⟨t, now, rfl, hpre, hk⟩))
      | encode | decode | refresh => exact .inl hk
    · exact .inr (.inl hk)
    · exact .inr (.inr (.inr hk))

theorem isBlacklisted_some (k : HashKey) : auth.isBlacklisted (some k) = true ↔ k ∈ auth.blacklist := by
  simp [isBlacklisted]

def revokedError : PyExc := jwtError "Token has been revoked"

theorem ltInt_error {n : Int} {v : Json} {e : PyExc} (h : v.ltInt n = .error e) :
    ∃ message, e = typeError message := by
  cases v with
  | float f => cases f <;> cases h
  | bool | int => cases h
  | null | str | list | dict => exact ⟨_, (Except.error.inj h).symm⟩

theorem checkExpiry_ne (payload : Dict) (now : Int) : checkExpiry payload now ≠ .error revokedError := by
  intro h
  unfold checkExpiry at h
  split at h
  · cases h
  · split at h
    next e he =>
      obtain ⟨message, rfl⟩ := ltInt_error he
      have hmro := congrArg PyExc.mro (Except.error.inj h)
      exact absurd hmro (by simp [typeError, builtinError, revokedError, jwtError])
    next => exact absurd (Except.error.inj h) (by decide)
    next => cases h

theorem checkClaims_ne (auth : JWTAuth) (payload : Dict) (now : Int) :
    auth.checkClaims payload now ≠ .error revokedError := by
  have hissuer : auth.checkIssuer payload ≠ .error revokedError := by
    intro h
    unfold checkIssuer at h
    split at h
    · split_ifs at h
      exact absurd (Except.error.inj h) (by decide)
    · cases h
  have haudience : auth.checkAudience payload ≠ .error revokedError := by
    intro h
    unfold checkAudience at h
    split at h
    · dsimp only at h
      split_ifs at h
      exact absurd (Except.error.inj h) (by decide)
    · cases h
  intro h
  unfold checkClaims at h
  cases hexpiry : checkExpiry payload now with
  | error e =>
    simp only [hexpiry, Except.error.injEq] at h
    exact checkExpiry_ne payload now (hexpiry.trans (congrArg _ h))
  | ok _ =>
    cases hi : auth.checkIssuer payload with
    | error e =>
      simp only [hexpiry, hi, Except.error.injEq] at h
      exact hissuer (hi.trans (congrArg _ h))
    | ok _ =>
      cases ha : auth.checkAudience payload with
      | error e =>
        simp only [hexpiry, hi, ha, Except.error.injEq] at h
        exact haudience (ha.trans (congrArg _ h))
      | ok _ => simp [hexpiry, hi, ha] at h

theorem Covers.decode_eq_iff {a b : JWTAuth} (h : Covers a b) (t : String) (now : Int) :
    a.decode prims t now = b.decode prims t now ↔
      ∀ payload k, b.identify prims t = .ok (payload, some k) → k ∈ a.blacklist → k ∈ b.blacklist := by
  -- the two instances agree on everything but the blacklist
  cases hid : b.identify prims t with
  | error e => simp [decode, h.identify, hid]
  | ok r =>
    obtain ⟨payload, key⟩ := r
    have hida : a.identify prims t = .ok (payload, key) := (h.identify t).trans hid
    rw [decode_eq hida, decode_eq hid, h.checkClaims]
    cases key with
    | none => simp [JWTAuth.isBlacklisted]
    | some k =>
      by_cases hb : k ∈ b.blacklist
      · have ha := h.blacklist hb
        simp [(isBlacklisted_some k).mpr ha, (isBlacklisted_some k).mpr hb, hb]
      · by_cases ha : k ∈ a.blacklist
        · have hne := (checkClaims_ne b payload now).symm
          simp only [revokedError] at hne
          simp [JWTAuth.isBlacklisted, ha, hb, hne]
        · simp [JWTAuth.isBlacklisted, ha, hb]

end JWTAuth

/-- Two tokens that one HS256 instance made, without a `jti` in common. -/
structure TokenPair (prims : Primitives) where
  auth : JWTAuth
  hs256 : auth.algorithm = .hs256
  t1 : String
  t2 : String
  distinct : t1 ≠ t2
  produced1 : auth.Produced prims t1
  produced2 : auth.Produced prims t2
  otherJti : ¬ auth.SameJti prims t1 t2

namespace TokenPair

variable {prims : Primitives} (p : TokenPair prims) (before after : List Call) (revokedAt now : Int)

def withRevoke : JWTAuth := p.auth.run prims (before ++ .revoke p.t1 revokedAt :: after)

def without : JWTAuth := p.auth.run prims (before ++ after)

def Unaffected : Prop :=
  (p.withRevoke before after revokedAt).decode prims p.t2 now =
    (p.without before after).decode prims p.t2 now

/-- The key that decoding looks `t2` up under is blacklisted anyway, or neither `revoke(t1)` nor
a later call revokes it as the first 32 characters of a token. -/
def PrefixFree : Prop :=
  ∀ payload k, p.auth.identify prims p.t2 = .ok (payload, some k) →
    k ∈ (p.without before after).blacklist ∨
      ¬ (p.auth.run prims before).PrefixRevoked prims (.revoke p.t1 revokedAt :: after) k

theorem tokenPrefix_produced {auth : JWTAuth} (hs256 : auth.algorithm = .hs256) {t : String}
    (h : auth.Produced prims t) : tokenPrefix t = "eyJhbGciOiJIUzI1NiIsInR5cCI6IkpX" := by
  obtain ⟨payload, expiry, now, h⟩ := h
  have hheader : b64urlEncode (utf8 (headerJson "HS256")) = "eyJhbGciOiJIUzI1NiIsInR5cCI6IkpXVCJ9" := by
    decide
  unfold JWTAuth.encode at h
  simp only [hs256, Algorithm.name, hheader] at h
  cases hd : prims.dumps (auth.claims payload expiry now) with
  | error e => simp [hd] at h
  | ok payloadJson =>
    simp only [hd, Except.ok.injEq] at h
    subst h
    simp only [tokenPrefix, String.toList_append, List.append_assoc]
    rw [List.take_append_of_le_length (by decide)]
    decide

theorem run_withRevoke : p.withRevoke before after revokedAt =
    ((p.auth.run prims before).revoke prims p.t1 revokedAt).2.run prims after := by
  simp [withRevoke, JWTAuth.run, JWTAuth.perform]

theorem run_without : p.without before after = (p.auth.run prims before).run prims after := by
  simp [without, JWTAuth.run]

theorem jti?_of_identify {auth : JWTAuth} {t : String} {payload : Dict} {key : Option HashKey}
    (h : auth.identify prims t = .ok (payload, key)) : auth.jti? prims t = payload.get? "jti" := by
  unfold JWTAuth.identify at h
  unfold JWTAuth.jti?
  split at h
  · cases h
  next d hd =>
    cases hk : (JWTAuth.jtiOf d t).hashKey with
    | error e => simp [hk, Except.map] at h
    | ok key' =>
      simp only [hk, Except.map, Except.ok.injEq, Prod.mk.injEq] at h
      rw [hd, h.1]
  · cases h

theorem key_cases {auth : JWTAuth} {t : String} {payload : Dict} {k : HashKey}
    (h : auth.identify prims t = .ok (payload, some k)) :
    (∃ j, auth.jti? prims t = some j ∧ j.hashKey = .ok (some k)) ∨ k = .str (tokenPrefix t) := by
  have hkey := JWTAuth.identify_hashKey h
  have hjti := jti?_of_identify h
  unfold JWTAuth.jtiOf at hkey
  cases hg : payload.get? "jti" with
  | some j =>
    rw [hg, Option.getD_some] at hkey
    exact .inl ⟨j, hjti.trans hg, hkey⟩
  | none =>
    rw [hg, Option.getD_none] at hkey
    exact .inr (Option.some.inj (Except.ok.inj hkey)).symm

theorem prefix_of_revocationKey {payload : Dict} {k : HashKey}
    (hid : p.auth.identify prims p.t2 = .ok (payload, some k))
    (hk : (p.auth.run prims before).revocationKey prims p.t1 revokedAt = some k) :
    k = .str (tokenPrefix p.t1) := by
  -- both headers are the same, so the prefixes of the two tokens are
  have hcovers : JWTAuth.Covers (p.auth.run prims before) p.auth := JWTAuth.run_covers before
  have hsame : tokenPrefix p.t1 = tokenPrefix p.t2 := by
    rw [tokenPrefix_produced p.hs256 p.produced1, tokenPrefix_produced p.hs256 p.produced2]
  cases hid1 : (p.auth.run prims before).identify prims p.t1 with
  | error e =>
    simp only [JWTAuth.revocationKey, JWTAuth.decode, hid1] at hk
    split_ifs at hk
    exact (Option.some.inj hk).symm
  | ok r =>
    obtain ⟨payload1, key1⟩ := r
    obtain rfl | hpre := JWTAuth.revocationKey_cases hid1 hk
    · rw [hcovers.identify] at hid1
      obtain ⟨j1, hj1, hkey1⟩ | hpre := key_cases hid1
      · obtain ⟨j2, hj2, hkey2⟩ | hpre := key_cases hid
        · exact absurd ⟨j1, j2, k, hj1, hj2, hkey1, hkey2⟩ p.otherJti
        · rw [hpre, hsame]
      · exact hpre
    · exact hpre

theorem unaffected_iff_prefixFree :
    p.Unaffected before after revokedAt now ↔ p.PrefixFree before after revokedAt := by
  have hcovers : JWTAuth.Covers (p.without before after) p.auth := JWTAuth.run_covers _
  have hrevoke : JWTAuth.Covers ((p.auth.run prims before).revoke prims p.t1 revokedAt).2
      (p.auth.run prims before) := JWTAuth.revoke_covers p.t1 revokedAt
  have hruns : JWTAuth.Covers (p.withRevoke before after revokedAt) (p.without before after) := by
    rw [run_withRevoke, run_without]
    exact hrevoke.run after
  unfold Unaffected PrefixFree
  rw [hruns.decode_eq_iff, hcovers.identify]
  constructor
  · intro h payload k hid
    by_cases hk : k ∈ (p.without before after).blacklist
    · exact .inl hk
    · refine .inr fun hpre => hk (h payload k hid ?_)
      have hrun := JWTAuth.mem_run_of_prefixRevoked hpre
      rw [run_withRevoke]
      exact hrun
  · intro h payload k hid hk
    obtain hk' | hpre := h payload k hid
    · exact hk'
    · rw [run_withRevoke] at hk
      rw [run_without]
      obtain hk | hk | hk := hrevoke.mem_run after hk
      · obtain hk | hk := (JWTAuth.mem_revoke _ _ k).mp hk
        · exact (JWTAuth.run_covers after).blacklist hk
        · exact absurd (.inl ⟨_, _, rfl, p.prefix_of_revocationKey before revokedAt hid hk, hk⟩) hpre
      · exact hk
      · exact absurd (.inr hk) hpre

/-! ## Two tokens without a `jti` -/

def userJson (sub : String) : String :=
  "\x7b\"sub\":\"" ++ sub ++ "\",\"iat\":1700000000,\"exp\":1700003600\x7d"

def userClaims (sub : String) : Dict :=
  [("sub", .str sub), ("iat", .int 1700000000), ("exp", .int 1700003600)]

/-- HMAC-SHA256 under the key `secret`, `json.dumps` and `json.loads` on the two tokens below. -/
def samplePrims : Primitives where
  hmacSha256 := fun _ message =>
    if message = utf8 (JWTAuth.hs256SigningInput (userJson "1")) then
      [205, 227, 234, 226, 46, 187, 95, 25, 77, 109, 70, 41, 17, 139, 105, 180,
        246, 31, 38, 169, 145, 211, 186, 139, 39, 35, 90, 139, 240, 94, 45, 143]
    else
      [93, 242, 240, 37, 80, 131, 170, 251, 14, 230, 39, 225, 9, 144, 159, 203,
        190, 120, 193, 14, 140, 100, 132, 228, 217, 65, 31, 220, 39, 10, 163, 110]
  dumps := fun d =>
    match d.get? "sub" with
    | some (.str sub) => .ok (userJson sub)
    | _ => .error (typeError "Object is not JSON serializable")
  loads := fun bytes => .ok (.dict (userClaims (if bytes = utf8 (userJson "1") then "1" else "2")))
  sign := fun _ _ => .error (jwtError "no private key")
  verify := fun _ _ => .error (jwtError "no public key")

def sampleAuth : JWTAuth :=
  { secret := "secret", algorithm := .hs256, expirySeconds := 3600, issuer := none,
    audience := none, blacklist := ∅ }

theorem sampleAuth_hs256 : sampleAuth.algorithm = .hs256 := rfl

def sampleToken (sub : String) : String := sampleAuth.hs256Token samplePrims (userJson sub)

theorem sampleToken_produced (sub : String) : sampleAuth.Produced samplePrims (sampleToken sub) := by
  refine ⟨[("sub", .str sub)], none, 1700000000, JWTAuth.encode_hs256 rfl ?_⟩
  rfl

theorem sampleToken_verified {sub : String} (h : sub = "1" ∨ sub = "2") :
    sampleAuth.verifyToken samplePrims (sampleToken sub) = .ok (.dict (userClaims sub)) := by
  have hother : utf8 (userJson "2") ≠ utf8 (userJson "1") := by decide
  rw [sampleToken, JWTAuth.verifyToken_hs256Token rfl]
  obtain rfl | rfl := h
  · simp [samplePrims]
  · simp [samplePrims, hother]

theorem sampleToken_identified {sub : String} (h : sub = "1" ∨ sub = "2") :
    sampleAuth.identify samplePrims (sampleToken sub) =
      .ok (userClaims sub, some (.str "eyJhbGciOiJIUzI1NiIsInR5cCI6IkpX")) := by
  have hkey : JWTAuth.jtiOf (userClaims sub) (sampleToken sub) = .str (tokenPrefix (sampleToken sub)) :=
    rfl
  rw [JWTAuth.identify, sampleToken_verified h]
  simp only [hkey, tokenPrefix_produced sampleAuth_hs256 (sampleToken_produced sub)]
  rfl

theorem sampleToken_ne : sampleToken "1" ≠ sampleToken "2" := by
  intro h
  have hverified := sampleToken_verified (.inl rfl)
  rw [h, sampleToken_verified (.inr rfl)] at hverified
  simp [userClaims] at hverified

theorem sampleToken_jti {sub : String} (h : sub = "1" ∨ sub = "2") :
    sampleAuth.jti? samplePrims (sampleToken sub) = none := by
  rw [JWTAuth.jti?, sampleToken_verified h]
  rfl

theorem sampleToken_otherJti : ¬ sampleAuth.SameJti samplePrims (sampleToken "1") (sampleToken "2") := by
  rintro ⟨j, _, _, hj, -⟩
  rw [sampleToken_jti (.inl rfl)] at hj
  cases hj

def samplePair : TokenPair samplePrims where
  auth := sampleAuth
  hs256 := rfl
  t1 := sampleToken "1"
  t2 := sampleToken "2"
  distinct := sampleToken_ne
  produced1 := sampleToken_produced "1"
  produced2 := sampleToken_produced "2"
  otherJti := sampleToken_otherJti

theorem sampleToken_decoded {sub : String} (h : sub = "1" ∨ sub = "2") :
    sampleAuth.decode samplePrims (sampleToken sub) 1700000000 = .ok (userClaims sub) := by
  rw [JWTAuth.decode_eq (sampleToken_identified h)]
  rfl

theorem sampleToken_rejected {auth : JWTAuth} (hcovers : JWTAuth.Covers auth sampleAuth)
    (hmem : .str "eyJhbGciOiJIUzI1NiIsInR5cCI6IkpX" ∈ auth.blacklist) (now : Int) :
    auth.decode samplePrims (sampleToken "2") now = .error (jwtError "Token has been revoked") := by
  have hidentify := (hcovers.identify (sampleToken "2")).trans (sampleToken_identified (.inr rfl))
  rw [JWTAuth.decode_eq hidentify, if_pos ((JWTAuth.isBlacklisted_some _).mpr hmem)]

theorem sampleToken_revocationKey :
    sampleAuth.revocationKey samplePrims (sampleToken "1") 1700000000 =
      some (.str "eyJhbGciOiJIUzI1NiIsInR5cCI6IkpX") :=
  JWTAuth.revocationKey_of_decoded (sampleToken_identified (.inl rfl)) (sampleToken_decoded (.inl rfl))

theorem revokes_other_token :
    ¬ ∀ (prims : Primitives) (p : TokenPair prims) (before after : List Call) (revokedAt now : Int),
      p.Unaffected before after revokedAt now := by
  intro h
  have hsample := h samplePrims samplePair [] [] 1700000000 1700000000
  have hauth : samplePair.auth = sampleAuth := rfl
  have ht1 : samplePair.t1 = sampleToken "1" := rfl
  have ht2 : samplePair.t2 = sampleToken "2" := rfl
  have hrun (a : JWTAuth) : a.run samplePrims [] = a := rfl
  rw [Unaffected, run_withRevoke, run_without, hauth, ht1, ht2, hrun, hrun, hrun,
    sampleToken_decoded (.inr rfl)] at hsample
  obtain ⟨auth, hauth', hcovers, hmem⟩ := JWTAuth.revoke_adds sampleToken_revocationKey
  rw [hauth', sampleToken_rejected hcovers hmem] at hsample
  cases hsample

end TokenPair

end Hypern.Auth
