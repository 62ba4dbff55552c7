import Hypern.Auth.Revocation
import Mathlib.Algebra.Order.Ring.Cast
import Mathlib.Algebra.Order.Ring.Rat

/-! A revoked token stays revoked. A token that a later `decode` would accept was, when it was
revoked, either on the blacklist or accepted as well, and then `revoke` has put on the blacklist
the very key that `decode` looks up. -/

namespace Hypern.Auth

open Lib Python

theorem hashKey_ne_none {v : Json} : v.hashKey ≠ .ok none := by
  intro h
  cases v with
  | float f => cases f <;> cases h
  | _ => cases h

theorem ltInt_mono {v : Json} {earlier later : Int} (hle : earlier ≤ later)
    (h : v.ltInt later = .ok false) : v.ltInt earlier = .ok false := by
  cases v with
  | bool b =>
    have hlater := of_decide_eq_false (Except.ok.inj h)
    exact congrArg _ (decide_eq_false fun hlt => hlater (lt_of_lt_of_le hlt hle))
  | int m =>
    have hlater := of_decide_eq_false (Except.ok.inj h)
    exact congrArg _ (decide_eq_false fun hlt => hlater (lt_of_lt_of_le hlt hle))
  | float f =>
    cases f with
    | finite q =>
      have hlater := of_decide_eq_false (Except.ok.inj h)
      have hcast : (earlier : ℚ) ≤ later := Int.cast_le.mpr hle
      exact congrArg _ (decide_eq_false fun hlt => hlater (lt_of_lt_of_le hlt hcast))
    | inf negative => exact h
    | nan => rfl
  | _ => cases h

namespace JWTAuth

variable {prims : Primitives} {auth : JWTAuth} {payload : Dict}

theorem checkExpiry_eq_ok {now : Int} : checkExpiry payload now = .ok () ↔
    (payload.get? "exp").getD .null = .null ∨
      ((payload.get? "exp").getD .null).ltInt now = .ok false := by
  unfold checkExpiry
  split
  · rename_i hexp
    exact iff_of_true rfl (.inl hexp)
  · rename_i exp hnull
    rw [or_iff_right hnull]
    split
    · rename_i hlt
      rw [hlt]
      exact iff_of_false nofun nofun
    · rename_i hlt
      rw [hlt]
      exact iff_of_false nofun nofun
    · rename_i hlt
      exact iff_of_true rfl hlt

theorem checkExpiry_mono {earlier later : Int} (hle : earlier ≤ later)
    (h : checkExpiry payload later = .ok ()) : checkExpiry payload earlier = .ok () :=
  checkExpiry_eq_ok.mpr ((checkExpiry_eq_ok.mp h).imp_right (ltInt_mono hle))

/-- Of the three checks only the one of the expiry looks at the clock. -/
theorem checkClaims_eq_ok {now : Int} : auth.checkClaims payload now = .ok payload ↔
    checkExpiry payload now = .ok () ∧ auth.checkIssuer payload = .ok () ∧
      auth.checkAudience payload = .ok () := by
  unfold checkClaims
  cases checkExpiry payload now with
  | error e => exact iff_of_false nofun nofun
  | ok _ =>
    cases auth.checkIssuer payload with
    | error e => exact iff_of_false nofun nofun
    | ok _ =>
      cases auth.checkAudience payload with
      | error e => exact iff_of_false nofun nofun
      | ok _ => exact iff_of_true rfl ⟨rfl, rfl, rfl⟩

theorem checkClaims_mono {earlier later : Int} (hle : earlier ≤ later)
    (h : auth.checkClaims payload later = .ok payload) :
    auth.checkClaims payload earlier = .ok payload := by
  obtain ⟨hexpiry, hrest⟩ := checkClaims_eq_ok.mp h
  exact checkClaims_eq_ok.mpr ⟨checkExpiry_mono hle hexpiry, hrest⟩

/-- What `decode` accepts: a token with a payload whose key is not blacklisted and whose claims
are in order. -/
theorem decode_eq_ok {t : String} {now : Int} :
    auth.decode prims t now = .ok payload ↔ ∃ k, auth.identify prims t = .ok (payload, some k) ∧
      k ∉ auth.blacklist ∧ auth.checkClaims payload now = .ok payload := by
  constructor
  · intro h
    cases hid : auth.identify prims t with
    | error e =>
      unfold decode at h
      rw [hid] at h
      cases h
    | ok r =>
      obtain ⟨payload', key⟩ := r
      rw [decode_eq hid] at h
      split_ifs at h with hblack
      obtain rfl := checkClaims_ok h
      cases key with
      | none => exact absurd (identify_hashKey hid) hashKey_ne_none
      | some k => exact ⟨k, rfl, fun hk => hblack ((isBlacklisted_some k).mpr hk), h⟩
  · rintro ⟨k, hid, hk, hclaims⟩
    rw [decode_eq hid, if_neg fun hblack => hk ((isBlacklisted_some k).mp hblack)]
    exact hclaims

/-- The key of a token that would still be accepted later is blacklisted by its revocation. -/
theorem blacklisted_of_revoke {t : String} {revokedAt now : Int} {k : HashKey}
    (hid : auth.identify prims t = .ok (payload, some k)) (hle : revokedAt ≤ now)
    (hclaims : auth.checkClaims payload now = .ok payload) :
    k ∈ (auth.revoke prims t revokedAt).2.blacklist := by
  by_cases hblack : k ∈ auth.blacklist
  · exact (revoke_covers t revokedAt).blacklist hblack
  · have hdecode : auth.decode prims t revokedAt = .ok payload :=
      decode_eq_ok.mpr ⟨k, hid, hblack, checkClaims_mono hle hclaims⟩
    exact mem_revoke_of_key (revocationKey_of_decoded hid hdecode)

/-- Whatever was called before `revoke`, whatever it met there and whatever is called after it. -/
theorem revoked_never_decodes (prims : Primitives) (auth : JWTAuth) (before after : List Call)
    (t : String) (revokedAt now : Int) (hclock : revokedAt ≤ now) (payload : Dict) :
    (auth.run prims (before ++ .revoke t revokedAt :: after)).decode prims t now ≠ .ok payload := by
  intro h
  have hrun : auth.run prims (before ++ .revoke t revokedAt :: after) =
      ((auth.run prims before).revoke prims t revokedAt).2.run prims after := by
    simp only [run, List.foldl_append, List.foldl_cons]
    rfl
  rw [hrun] at h
  obtain ⟨k, hid, hk, hclaims⟩ := decode_eq_ok.mp h
  have hfirst : Covers ((auth.run prims before).revoke prims t revokedAt).2
      (auth.run prims before) := revoke_covers t revokedAt
  have hlater : Covers (((auth.run prims before).revoke prims t revokedAt).2.run prims after)
      ((auth.run prims before).revoke prims t revokedAt).2 := run_covers after
  have hrevoke := hlater.trans hfirst
  rw [hrevoke.identify] at hid
  rw [hrevoke.checkClaims] at hclaims
  exact hk (hlater.blacklist (blacklisted_of_revoke hid hclock hclaims))

/-- A token that is decoded, revoked and decoded again. -/
theorem sampleToken_stays_revoked :
    TokenPair.sampleAuth.decode TokenPair.samplePrims (TokenPair.sampleToken "1") 1700000000 =
        .ok (TokenPair.userClaims "1") ∧
      (TokenPair.sampleAuth.run TokenPair.samplePrims
          [.revoke (TokenPair.sampleToken "1") 1700000000]).decode TokenPair.samplePrims
        (TokenPair.sampleToken "1") 1700000001 ≠ .ok (TokenPair.userClaims "1") :=
  ⟨TokenPair.sampleToken_decoded (.inl rfl),
    revoked_never_decodes _ _ [] [] _ 1700000000 1700000001 (by decide) _⟩

end JWTAuth

end Hypern.Auth
