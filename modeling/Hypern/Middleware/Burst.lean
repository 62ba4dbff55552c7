import Hypern.Middleware.TokenBucket

/-! Bursts: how many requests of a rested client the token bucket lets through at once. -/

namespace Hypern.Middleware

open Http Lib RateLimitConfig RateLimitMiddleware

/-! ## The next requests of a client -/

namespace RateLimitMiddleware

variable (c : Crates) (mw : RateLimitMiddleware) (key : String)

/-- The middleware after some requests. -/
def run (rs : List RateLimitRequest) : RateLimitMiddleware := rs.foldl (·.step c ·) mw

/-- The next requests of the client, up to a number, are let through. -/
def LetsThrough (number : Nat) (rs : List RateLimitRequest) : Prop :=
  ∀ before r after, rs = before ++ r :: after → mw.counts c key r = true →
    before.countP (mw.counts c key) < number →
      ((mw.run c before).execute c r.ctx r.created r.now).1 = .next

variable {c mw key}

theorem run_cons (r : RateLimitRequest) (rs : List RateLimitRequest) :
    mw.run c (r :: rs) = (mw.step c r).run c rs := rfl

theorem letsThrough_cons {r : RateLimitRequest} {rs : List RateLimitRequest} {number : Nat} :
    mw.LetsThrough c key number (r :: rs) ↔
      (mw.counts c key r = true → 0 < number → (mw.execute c r.ctx r.created r.now).1 = .next) ∧
        (mw.step c r).LetsThrough c key (number - if mw.counts c key r = true then 1 else 0) rs := by
  unfold LetsThrough
  rw [counts_step]
  constructor
  · intro h
    refine ⟨fun hcounts hpos => h [] r rs rfl hcounts hpos, fun before s after hrs hcounts hlt => ?_⟩
    refine h (r :: before) s after (by rw [hrs]; rfl) hcounts ?_
    rw [List.countP_cons]
    exact Nat.add_lt_of_lt_sub hlt
  · rintro ⟨hfirst, hrest⟩ before s after hrs hcounts hlt
    cases before with
    | nil =>
      obtain ⟨rfl, rfl⟩ := List.cons.inj hrs
      exact hfirst hcounts (Nat.zero_lt_of_lt hlt)
    | cons r' before =>
      obtain ⟨rfl, hrest'⟩ := List.cons.inj hrs
      rw [List.countP_cons] at hlt
      exact hrest before s after hrest' hcounts (Nat.lt_sub_of_add_lt hlt)

/-- A request is let through exactly when its check in the log of the client allows it. -/
theorem letsThrough_iff {rs : List RateLimitRequest} {number : Nat} :
    mw.LetsThrough c key number rs ↔
      ∀ e ∈ (clientLog c key mw rs).take number, e.verdict.allowed = true := by
  induction rs generalizing mw number with
  | nil =>
    refine iff_of_true (fun before r after h => ?_) fun e he => ?_
    · exact absurd h.symm (by simp)
    · rw [clientLog, List.take_nil] at he
      cases he
  | cons r rs ih =>
    rw [letsThrough_cons, clientLog]
    by_cases hcounts : mw.counts c key r = true
    · rw [if_pos hcounts, if_pos hcounts, ih, execute_next_iff hcounts]
      cases number with
      | zero => simp
      | succ number => simp [hcounts]
    · rw [if_neg hcounts, if_neg hcounts, ih]
      simp [hcounts]

theorem run_config (rs : List RateLimitRequest) : (mw.run c rs).config = mw.config := by
  induction rs generalizing mw with
  | nil => rfl
  | cons r rs ih => rw [run_cons, ih, step_config]

theorem counts_run (rs : List RateLimitRequest) : (mw.run c rs).counts c key = mw.counts c key := by
  unfold counts getClientKey
  rw [run_config]

/-- The requests of a client from one of them on are checked one after the other. -/
theorem clientLog_cons {r : RateLimitRequest} (hcounts : mw.counts c key r = true)
    (later : List RateLimitRequest) :
    clientLog c key mw (r :: later) =
      serve mw.config.check (mw.client key r.created)
        (r.now :: (later.filter (mw.counts c key)).map (·.now)) := by
  have hnext := @lookup_step c mw key r
  rw [if_pos hcounts] at hnext
  rw [clientLog, if_pos hcounts, clientLog_of_lookup hnext, counts_step, step_config]
  rfl

end RateLimitMiddleware

/-! ## Draws from one bucket -/

variable {bucketSize : Nat} {refillRate : WithTop ℚ} {state : RateLimitState} {now : Nat}

/-- What the client has left and what was refilled since come to the size of the bucket, in `f64`. An
infinite rate fills it at once. -/
def Fills (bucketSize : Nat) (refillRate : WithTop ℚ) (state : RateLimitState) (now : Nat) : Prop :=
  ∀ rate : ℚ, refillRate = rate →
    (bucketSize : ℚ) ≤ Binary64.round (state.tokens +
      Binary64.round (asSecsF64 Binary64.round (now - state.lastRefill) * rate))

theorem asSecsF64_nonneg (d : Nat) : 0 ≤ asSecsF64 Binary64.round d := by
  have hseconds := Binary64.round_nonneg (Nat.cast_nonneg (α := ℚ) (d / 10 ^ 9))
  have hnanos := Binary64.round_nonneg (x := ((d % 10 ^ 9 : Nat) : ℚ) / 10 ^ 9) (by positivity)
  exact Binary64.round_nonneg (add_nonneg hseconds hnanos)

theorem asSecsF64_zero : asSecsF64 Binary64.round 0 = 0 := by decide +kernel

theorem refilled_le : refilled Binary64.round now state bucketSize refillRate ≤ bucketSize := by
  cases refillRate with
  | top => exact le_refl _
  | coe rate => exact min_le_right _ _

theorem fills_iff :
    Fills bucketSize refillRate state now ↔
      (bucketSize : ℚ) ≤ refilled Binary64.round now state bucketSize refillRate := by
  unfold Fills
  cases refillRate with
  | top => exact iff_of_true (fun _ h => absurd h (WithTop.top_ne_coe)) (le_refl _)
  | coe rate =>
    have hcap : (bucketSize : ℚ) ≤ refilled Binary64.round now state bucketSize rate ↔ _ :=
      le_min_iff.trans (and_iff_left (le_refl _))
    rw [hcap]
    refine ⟨fun h => h rate rfl, fun h _ hrate => ?_⟩
    rwa [← WithTop.coe_inj.mp hrate]

theorem representable_refilled (hsize : bucketSize ≤ 2 ^ 53) :
    Binary64.Representable (refilled Binary64.round now state bucketSize refillRate) := by
  have hbucket := Binary64.representable_natCast hsize
  cases refillRate with
  | top => exact hbucket
  | coe rate =>
    exact min_rec (fun _ => Binary64.representable_round _) fun _ => hbucket

/-- Whole tokens are not lost by rounding when more are refilled. -/
theorem le_refilled {n : Nat} (hrate : 0 ≤ refillRate) (hn : n ≤ bucketSize)
    (hsize : bucketSize ≤ 2 ^ 53) (h : (n : ℚ) ≤ state.tokens) :
    (n : ℚ) ≤ refilled Binary64.round now state bucketSize refillRate := by
  have hcast : (n : ℚ) ≤ bucketSize := by exact_mod_cast hn
  cases refillRate with
  | top => exact hcast
  | coe rate =>
    have hmore := Binary64.round_nonneg
      (mul_nonneg (asSecsF64_nonneg (now - state.lastRefill)) (WithTop.coe_nonneg.mp hrate))
    have hsum := le_add_of_le_of_nonneg h hmore
    exact le_min (Binary64.le_round (Binary64.representable_natCast (hn.trans hsize))
      ((Nat.cast_nonneg n).trans hsum) hsum) hcast

/-- At the time of the last refill nothing is refilled. -/
theorem refilled_of_lastRefill {rate : ℚ} (hlast : state.lastRefill = now)
    (htokens : Binary64.Representable state.tokens) (hsize : state.tokens ≤ bucketSize) :
    refilled Binary64.round now state bucketSize rate = state.tokens := by
  unfold refilled
  dsimp only
  rw [hlast, Nat.sub_self, asSecsF64_zero, zero_mul, Binary64.round_zero, add_zero,
    Binary64.round_of_representable htokens, min_eq_left hsize]

/-- A check allows a request that finds a token, and takes one. -/
theorem checkTokenBucketF64_of_le
    (h : 1 ≤ refilled Binary64.round now state bucketSize refillRate) (hsize : bucketSize ≤ 2 ^ 53) :
    let check := checkTokenBucketF64 Binary64.round now state bucketSize refillRate
    check.1.allowed = true ∧ check.2.lastRefill = now ∧
      check.2.tokens = refilled Binary64.round now state bucketSize refillRate - 1 := by
  have hcast : (bucketSize : ℚ) ≤ 2 ^ 53 := by exact_mod_cast hsize
  have hexact := (representable_refilled hsize).sub_one h (refilled_le.trans hcast)
  unfold checkTokenBucketF64
  dsimp only
  rw [if_pos h]
  exact ⟨rfl, rfl, Binary64.round_of_representable hexact⟩

theorem checkTokenBucketF64_allowed :
    (checkTokenBucketF64 Binary64.round now state bucketSize refillRate).1.allowed = true ↔
      1 ≤ refilled Binary64.round now state bucketSize refillRate := by
  unfold checkTokenBucketF64
  dsimp only
  split_ifs with h
  · exact iff_of_true rfl h
  · exact iff_of_false (by simp) h

/-- As many requests as the first of them finds tokens are allowed, whenever the others come. -/
theorem serve_allowed (hrate : 0 ≤ refillRate) (hsize : bucketSize ≤ 2 ^ 53) {n : Nat}
    {later : List Nat} (h : (n : ℚ) ≤ refilled Binary64.round now state bucketSize refillRate) :
    ∀ e ∈ (serve (checkTokenBucketF64 Binary64.round · · bucketSize refillRate) state
      (now :: later)).take n, e.verdict.allowed = true := by
  induction later generalizing n now state with
  | nil =>
    cases n with
    | zero => simp
    | succ n =>
      have hfirst : 1 ≤ refilled Binary64.round now state bucketSize refillRate := by
        push_cast at h
        linarith
      simp [serve, checkTokenBucketF64_allowed.mpr hfirst]
  | cons next later ih =>
    cases n with
    | zero => simp
    | succ n =>
      push_cast at h
      have hfirst : 1 ≤ refilled Binary64.round now state bucketSize refillRate := by linarith
      obtain ⟨hallowed, -, htokens⟩ := checkTokenBucketF64_of_le hfirst hsize
      have hleft : (n : ℚ) ≤
          (checkTokenBucketF64 Binary64.round now state bucketSize refillRate).2.tokens := by
        rw [htokens]
        linarith
      have hn : n ≤ bucketSize := by
        exact_mod_cast (le_add_of_nonneg_right zero_le_one).trans (h.trans refilled_le)
      rw [serve, List.take_succ_cons]
      exact List.forall_mem_cons.mpr ⟨hallowed, ih (le_refilled hrate hn hsize hleft)⟩

/-- Requests at one time find no more tokens than the first of them. -/
theorem le_of_serve_allowed {rate : ℚ} (hsize : bucketSize ≤ 2 ^ 53) {n : Nat}
    (h : ∀ e ∈ serve (checkTokenBucketF64 Binary64.round · · bucketSize rate) state
      (List.replicate (n + 1) now), e.verdict.allowed = true) :
    ((n + 1 : Nat) : ℚ) ≤ refilled Binary64.round now state bucketSize rate := by
  induction n generalizing state with
  | zero =>
    obtain ⟨hallowed, -⟩ := List.forall_mem_cons.mp h
    rw [zero_add, Nat.cast_one]
    exact checkTokenBucketF64_allowed.mp hallowed
  | succ n ih =>
    rw [List.replicate_succ, serve] at h
    obtain ⟨hallowed, hlater⟩ := List.forall_mem_cons.mp h
    have hfirst := checkTokenBucketF64_allowed.mp hallowed
    obtain ⟨-, hlast, htokens⟩ := checkTokenBucketF64_of_le hfirst hsize
    have hcast : (bucketSize : ℚ) ≤ 2 ^ 53 := by exact_mod_cast hsize
    have hexact := (representable_refilled hsize).sub_one hfirst (refilled_le.trans hcast)
    have hnext := ih hlater
    rw [refilled_of_lastRefill hlast (htokens ▸ hexact), htokens] at hnext
    · push_cast at hnext ⊢
      linarith
    · rw [htokens]
      linarith [@refilled_le bucketSize rate state now]

/-! ## Clients in a run -/

namespace RateLimitMiddleware

variable {c : Crates} {key : String} {config : RateLimitConfig} {earlier : List RateLimitRequest}

/-- Since a client made its last request, its bucket has had the time to fill; so it has for a client
that made none. -/
def Rested (c : Crates) (key : String) (config : RateLimitConfig) (bucketSize : Nat)
    (refillRate : WithTop ℚ) (earlier : List RateLimitRequest) (now : Nat) : Prop :=
  ∀ s ∈ earlier, (new config).counts c key s = true → ∀ rate : ℚ, refillRate = rate →
    bucketSize ≤ asSecs (now - s.now) * rate

/-- The next requests of a client, as many as the bucket holds, are all let through whenever they
come, exactly if the bucket is full when the first of them comes. -/
theorem burst_iff (halg : config.algorithm = .tokenBucket bucketSize refillRate)
    (hsize : bucketSize < 2 ^ 32) (hrate : 0 ≤ refillRate) {r : RateLimitRequest}
    (hcounts : (new config).counts c key r = true) :
    (∀ later, (((r :: later).filter ((new config).counts c key)).map (·.now)).Pairwise (· ≤ ·) →
      ((new config).run c earlier).LetsThrough c key bucketSize (r :: later)) ↔
        bucketSize = 0 ∨
          Fills bucketSize refillRate (((new config).run c earlier).client key r.created) r.now := by
  have hexact : bucketSize ≤ 2 ^ 53 := hsize.le.trans (by norm_num)
  have hconfig : ((new config).run c earlier).config = config := run_config earlier
  have hcheck : config.check = (checkTokenBucketF64 Binary64.round · · bucketSize refillRate) := by
    funext now state
    rw [check, halg]
  have hlog : ∀ later, clientLog c key ((new config).run c earlier) (r :: later) =
      serve (checkTokenBucketF64 Binary64.round · · bucketSize refillRate)
        (((new config).run c earlier).client key r.created)
        (r.now :: (later.filter ((new config).counts c key)).map (·.now)) := fun later => by
    rw [clientLog_cons (by rwa [counts_run]), counts_run, hconfig, hcheck]
  constructor
  · intro h
    cases bucketSize with
    | zero => exact .inl rfl
    | succ number =>
      refine .inr fun rate hfinite => ?_
      subst hfinite
      have hsame : (List.replicate number r).filter ((new config).counts c key) =
          List.replicate number r := by simp [hcounts]
      -- all of them at the time of the first
      have hall := letsThrough_iff.mp (h (List.replicate number r) (by
        rw [List.filter_cons_of_pos hcounts, hsame, ← List.replicate_succ, List.map_replicate]
        exact List.pairwise_replicate.mpr (.inr (le_refl _))))
      rw [hlog, hsame, List.map_replicate, ← List.replicate_succ, List.take_of_length_le (by
        rw [length_serve, List.length_replicate])] at hall
      exact fills_iff.mpr (le_of_serve_allowed hexact hall) rate rfl
  · intro h later _
    rw [letsThrough_iff, hlog]
    rcases h with rfl | hfull
    · simp
    · exact serve_allowed hrate hexact (fills_iff.mp hfull)

/-- Bursts of two, and a token a second. -/
def burstConfig : RateLimitConfig := ⟨100, 60 * 10 ^ 9, .tokenBucket 2 (1 : ℚ), none, []⟩

/-- A request without header fields, at some seconds. -/
def plainRequest (created now : Nat) : RateLimitRequest :=
  ⟨created * 10 ^ 9, now * 10 ^ 9, .new "/" .get ∅ "" none ""⟩

theorem counts_plainRequest (created now : Nat) :
    (new burstConfig).counts asciiCase "unknown" (plainRequest created now) = true := rfl

/-- A client that made a request five seconds ago. -/
theorem rested_client_bursts :
    ((new burstConfig).run asciiCase [plainRequest 0 0]).LetsThrough asciiCase "unknown" 2
      [plainRequest 5 5, plainRequest 5 5] :=
  (burst_iff rfl (by decide) (by decide) (counts_plainRequest 5 5)).mpr
    (.inr fun rate hrate => by
      rw [← WithTop.coe_inj.mp hrate]
      decide +kernel) [plainRequest 5 5] (by decide +kernel)

/-- The first request of a new client is refused. -/
theorem new_client_refused :
    ¬ ∀ (config : RateLimitConfig) (bucketSize : Nat) (refillRate : WithTop ℚ) (key : String)
      (earlier later : List RateLimitRequest) (r : RateLimitRequest),
      config.algorithm = .tokenBucket bucketSize refillRate → bucketSize < 2 ^ 32 →
      0 ≤ refillRate → (new config).counts asciiCase key r = true →
      Rested asciiCase key config bucketSize refillRate earlier r.now →
      (((r :: later).filter ((new config).counts asciiCase key)).map (·.now)).Pairwise (· ≤ ·) →
        ((new config).run asciiCase earlier).LetsThrough asciiCase key bucketSize (r :: later) := by
  intro h
  have hall := h burstConfig 2 (1 : ℚ) "unknown" [] [] (plainRequest 0 0) rfl (by decide)
    (by decide) (counts_plainRequest 0 0) (fun s hs => absurd hs List.not_mem_nil) (by decide +kernel)
  have hnext := hall [] (plainRequest 0 0) [] rfl (counts_plainRequest 0 0) (by decide)
  have hallowed := (@execute_next_iff asciiCase (new burstConfig) "unknown" _
    (counts_plainRequest 0 0)).mp hnext
  exact absurd hallowed (by decide +kernel)

end RateLimitMiddleware

end Hypern.Middleware
