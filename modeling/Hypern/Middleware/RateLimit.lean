import Hypern.Http.Multipart
import Hypern.Lib.Binary64
import Hypern.Middleware.Context
import Mathlib.Algebra.Order.Floor.Semiring
import Mathlib.Data.Rat.Floor

/-! `RateLimitMiddleware` of `builtin.rs`. Times are in nanoseconds. What the source computes in `f64`
is rounded after each operation; the checks are also there without rounding. -/

namespace Hypern.Middleware

open Http Lib

inductive RateLimitAlgorithm
  | fixedWindow
  | slidingWindow
  /-- The rate is an `f64`, finite or infinite. -/
  | tokenBucket (bucketSize : Nat) (refillRate : WithTop ℚ)

structure RateLimitConfig where
  maxRequests : Nat
  window : Nat
  algorithm : RateLimitAlgorithm
  keyHeader : Option String
  skipPaths : List String

structure RateLimitState where
  count : Nat
  windowStart : Nat
  tokens : ℚ
  lastRefill : Nat

def RateLimitState.new (now : Nat) : RateLimitState := ⟨0, now, 0, now⟩

def asSecs (d : Nat) : ℚ := d / 10 ^ 9

/-- `Duration::as_secs_f64`: the whole seconds and the nanoseconds after them. -/
def asSecsF64 (round : ℚ → ℚ) (d : Nat) : ℚ :=
  round (round ((d / 10 ^ 9 : Nat) : ℚ) + round (((d % 10 ^ 9 : Nat) : ℚ) / 10 ^ 9))

/-- `a - b` of two `u64`, as it wraps where overflow is not checked. -/
def subU64 (a b : Nat) : Nat := if b ≤ a then a - b else 2 ^ 64 + a - b

/-- The pair that a check returns, and whether it underflowed, where a build that checks for
overflow panics. -/
structure Verdict where
  allowed : Bool
  remaining : Nat
  underflow : Bool
  deriving DecidableEq

namespace RateLimitConfig

variable (config : RateLimitConfig) (round : ℚ → ℚ) (now : Nat) (state : RateLimitState)

/-- The window is over. A clock that went back counts as no time. -/
def expired : Bool := decide (config.window ≤ now - state.windowStart)

def reset : Verdict × RateLimitState :=
  (⟨true, subU64 config.maxRequests 1, decide (config.maxRequests < 1)⟩,
    { state with windowStart := now, count := 1 })

def checkFixedWindow : Verdict × RateLimitState :=
  if config.expired now state then config.reset now state
  else
    let count := state.count + 1
    (⟨decide (count ≤ config.maxRequests), config.maxRequests - count, false⟩,
      { state with count })

/-- The conversion to `u64` takes the whole part, and zero of a negative number. -/
def weightedCount : Nat :=
  let windowRatio := asSecs (now - state.windowStart) / asSecs config.window
  ⌊(state.count : ℚ) * (1 - windowRatio)⌋₊

def checkSlidingWindow : Verdict × RateLimitState :=
  if config.expired now state then config.reset now state
  else
    let newCount := config.weightedCount now state + 1
    (⟨decide (newCount ≤ config.maxRequests), config.maxRequests - newCount, false⟩,
      { state with count := newCount })

/-- The weighted count in `f64`. -/
def weightedCountF64 : Nat :=
  let elapsed := asSecsF64 round (now - state.windowStart)
  let windowRatio := round (elapsed / asSecsF64 round config.window)
  ⌊round (round state.count * round (1 - windowRatio))⌋₊

def checkSlidingWindowF64 : Verdict × RateLimitState :=
  if config.expired now state then config.reset now state
  else
    let newCount := config.weightedCountF64 round now state + 1
    (⟨decide (newCount ≤ config.maxRequests), config.maxRequests - newCount, false⟩,
      { state with count := newCount })

def checkTokenBucket (bucketSize : Nat) (refillRate : ℚ) : Verdict × RateLimitState :=
  let elapsed := asSecs (now - state.lastRefill)
  let tokens := min (state.tokens + elapsed * refillRate) bucketSize
  if 1 ≤ tokens then
    (⟨true, ⌊tokens - 1⌋₊, false⟩, { state with tokens := tokens - 1, lastRefill := now })
  else (⟨false, 0, false⟩, { state with tokens, lastRefill := now })

/-- The tokens before one is consumed. An infinite rate gives an infinite sum, or none if no time went
by (zero times infinity is not a number): `f64::min` takes the size of the bucket for both. -/
def refilled (bucketSize : Nat) (refillRate : WithTop ℚ) : ℚ :=
  match refillRate with
  | ⊤ => bucketSize
  | (rate : ℚ) =>
    let elapsed := asSecsF64 round (now - state.lastRefill)
    min (round (state.tokens + round (elapsed * rate))) bucketSize

/-- The token bucket in `f64`. -/
def checkTokenBucketF64 (bucketSize : Nat) (refillRate : WithTop ℚ) : Verdict × RateLimitState :=
  let tokens := refilled round now state bucketSize refillRate
  if 1 ≤ tokens then
    (⟨true, ⌊round (tokens - 1)⌋₊, false⟩,
      { state with tokens := round (tokens - 1), lastRefill := now })
  else (⟨false, 0, false⟩, { state with tokens, lastRefill := now })

def check : Verdict × RateLimitState :=
  match config.algorithm with
  | .fixedWindow => config.checkFixedWindow now state
  | .slidingWindow => config.checkSlidingWindowF64 Binary64.round now state
  | .tokenBucket bucketSize refillRate =>
    checkTokenBucketF64 Binary64.round now state bucketSize refillRate

def skips (path : String) : Bool := config.skipPaths.any fun p => p.toList.isPrefixOf path.toList

/-! ### Without rounding -/

theorem asSecsF64_id (d : Nat) : asSecsF64 id d = asSecs d := by
  have hsplit : (d : ℚ) = (10 ^ 9 * (d / 10 ^ 9) + d % 10 ^ 9 : Nat) :=
    congrArg Nat.cast (Nat.div_add_mod d (10 ^ 9)).symm
  unfold asSecsF64 asSecs
  rw [id_eq, id_eq, id_eq, hsplit]
  push_cast
  ring

variable {config now state}

theorem weightedCountF64_id :
    config.weightedCountF64 id now state = config.weightedCount now state := by
  unfold weightedCountF64 weightedCount
  rw [asSecsF64_id, asSecsF64_id]
  rfl

theorem checkSlidingWindowF64_id :
    config.checkSlidingWindowF64 id now state = config.checkSlidingWindow now state := by
  unfold checkSlidingWindowF64 checkSlidingWindow
  rw [weightedCountF64_id]

theorem checkTokenBucketF64_id {bucketSize : Nat} {refillRate : ℚ} :
    checkTokenBucketF64 id now state bucketSize refillRate =
      checkTokenBucket now state bucketSize refillRate := by
  unfold checkTokenBucketF64 checkTokenBucket refilled
  dsimp only
  rw [asSecsF64_id]
  rfl

end RateLimitConfig

structure RateLimitMiddleware where
  config : RateLimitConfig
  clients : Table String RateLimitState

def MiddlewareResponse.tooManyRequests (message : String) : MiddlewareResponse :=
  withTextBody ⟨429, [], []⟩ message

namespace RateLimitMiddleware

def new (config : RateLimitConfig) : RateLimitMiddleware := ⟨config, ∅⟩

variable (c : Crates) (mw : RateLimitMiddleware) (ctx : MiddlewareContext)

/-- The text before the first comma, trimmed. -/
def firstAddress (forwardedFor : String) : String :=
  String.ofList (trim (forwardedFor.toList.takeWhile (· ≠ ',')))

def getClientKey : String :=
  match mw.config.keyHeader.bind (ctx.getHeader c) with
  | some value => value
  | none =>
    match ctx.getHeader c "x-forwarded-for" with
    | some xff => firstAddress xff
    | none => (ctx.getHeader c "x-real-ip").getD "unknown"

/-- The state of a client; a client without one gets a new one at the time `created`. -/
def client (key : String) (created : Nat) : RateLimitState :=
  (mw.clients.lookup key).getD (.new created)

def addHeaders (verdict : Verdict) : MiddlewareContext :=
  ((ctx.addResponseHeader "X-RateLimit-Limit" (toString mw.config.maxRequests)).addResponseHeader
    "X-RateLimit-Remaining" (toString verdict.remaining)).addResponseHeader
    "X-RateLimit-Reset" (toString (mw.config.window / 10 ^ 9))

/-- The clock is read when a state is created and when the request is checked. -/
def execute (created now : Nat) : MiddlewareResult × MiddlewareContext × RateLimitMiddleware :=
  if mw.config.skips ctx.path then (.next, ctx, mw)
  else
    let key := mw.getClientKey c ctx
    let r := mw.config.check now (mw.client key created)
    let mw' := { mw with clients := mw.clients.insert key r.2 }
    let ctx := mw.addHeaders ctx r.1
    if !r.1.allowed then
      let seconds := toString (mw.config.window / 10 ^ 9)
      (.response ((MiddlewareResponse.tooManyRequests "Rate limit exceeded").withHeader
        "Retry-After" seconds), ctx.addResponseHeader "Retry-After" seconds, mw')
    else (.next, ctx, mw')

end RateLimitMiddleware

/-! ## The requests of one client -/

/-- A request that was checked: the state it found and the state it left. -/
structure Served where
  time : Nat
  before : RateLimitState
  verdict : Verdict
  after : RateLimitState

/-- The requests at the given times, checked one after the other. -/
def serve (check : Nat → RateLimitState → Verdict × RateLimitState) :
    RateLimitState → List Nat → List Served
  | _, [] => []
  | state, now :: later =>
    ⟨now, state, (check now state).1, (check now state).2⟩ :: serve check (check now state).2 later

theorem length_serve (check : Nat → RateLimitState → Verdict × RateLimitState)
    (state : RateLimitState) (times : List Nat) :
    (serve check state times).length = times.length := by
  induction times generalizing state with
  | nil => rfl
  | cons now later ih => rw [serve, List.length_cons, List.length_cons, ih]

structure RateLimitRequest where
  created : Nat
  now : Nat
  ctx : MiddlewareContext

namespace RateLimitMiddleware

variable (c : Crates) (mw : RateLimitMiddleware) (key : String)

def step (r : RateLimitRequest) : RateLimitMiddleware := (mw.execute c r.ctx r.created r.now).2.2

/-- The request is counted for the client. -/
def counts (r : RateLimitRequest) : Bool :=
  !mw.config.skips r.ctx.path && decide (mw.getClientKey c r.ctx = key)

/-- The requests of a client among all requests. -/
def clientLog : RateLimitMiddleware → List RateLimitRequest → List Served
  | _, [] => []
  | mw, r :: rs =>
    if mw.counts c key r then
      let state := mw.client key r.created
      ⟨r.now, state, (mw.config.check r.now state).1, (mw.config.check r.now state).2⟩ ::
        clientLog (mw.step c r) rs
    else clientLog (mw.step c r) rs

variable {c mw key} {r : RateLimitRequest}

theorem step_of_skips (h : mw.config.skips r.ctx.path = true) : mw.step c r = mw := by
  unfold step execute
  rw [if_pos h]

theorem step_of_not_skips (h : mw.config.skips r.ctx.path = false) :
    mw.step c r =
      let key := mw.getClientKey c r.ctx
      ⟨mw.config, mw.clients.insert key (mw.config.check r.now (mw.client key r.created)).2⟩ := by
  unfold step execute
  rw [if_neg (by simp [h])]
  dsimp only
  split_ifs <;> rfl

theorem step_config (r : RateLimitRequest) : (mw.step c r).config = mw.config := by
  cases h : mw.config.skips r.ctx.path with
  | true => rw [step_of_skips h]
  | false => rw [step_of_not_skips h]

/-- A request changes the state of its own client only. -/
theorem lookup_step (r : RateLimitRequest) :
    (mw.step c r).clients.lookup key =
      if mw.counts c key r then some (mw.config.check r.now (mw.client key r.created)).2
      else mw.clients.lookup key := by
  unfold counts
  cases h : mw.config.skips r.ctx.path with
  | true =>
    rw [step_of_skips h]
    rfl
  | false =>
    rw [step_of_not_skips h]
    refine (Table.lookup_insert_eq _ _ key _).trans ?_
    by_cases hkey : key = mw.getClientKey c r.ctx
    · subst hkey
      simp
    · simp [hkey, Ne.symm hkey]

theorem counts_step (r : RateLimitRequest) : (mw.step c r).counts c key = mw.counts c key := by
  unfold counts getClientKey
  rw [step_config]

/-- A client that is known goes on from its state. -/
theorem clientLog_of_lookup {state : RateLimitState} (h : mw.clients.lookup key = some state)
    (rs : List RateLimitRequest) :
    clientLog c key mw rs =
      serve mw.config.check state ((rs.filter (mw.counts c key)).map (·.now)) := by
  induction rs generalizing mw state with
  | nil => rfl
  | cons r rs ih =>
    have hstate : mw.client key r.created = state := by
      unfold client
      rw [h, Option.getD_some]
    have hnext := @lookup_step c mw key r
    rw [clientLog]
    by_cases hcounts : mw.counts c key r = true
    · rw [if_pos hcounts] at hnext ⊢
      rw [ih hnext, counts_step, step_config, List.filter_cons_of_pos hcounts, hstate]
      rfl
    · rw [if_neg hcounts] at hnext ⊢
      rw [ih (hnext.trans h), counts_step, step_config, List.filter_cons_of_neg hcounts]

/-- Whatever the other clients do, the requests of a new client are checked one after the other,
from the state that the first of them finds new. -/
theorem clientLog_of_lookup_none (h : mw.clients.lookup key = none) (rs : List RateLimitRequest) :
    clientLog c key mw rs =
      match rs.filter (mw.counts c key) with
      | [] => []
      | r :: later => serve mw.config.check (.new r.created) (r.now :: later.map (·.now)) := by
  induction rs generalizing mw with
  | nil => rfl
  | cons r rs ih =>
    have hstate : mw.client key r.created = .new r.created := by
      unfold client
      rw [h, Option.getD_none]
    have hnext := @lookup_step c mw key r
    rw [clientLog]
    by_cases hcounts : mw.counts c key r = true
    · rw [if_pos hcounts] at hnext ⊢
      rw [clientLog_of_lookup hnext, counts_step, step_config, List.filter_cons_of_pos hcounts,
        hstate]
      rfl
    · rw [if_neg hcounts] at hnext ⊢
      rw [ih (hnext.trans h), counts_step, step_config, List.filter_cons_of_neg hcounts]

/-- A request is let through exactly when its check allows it. -/
theorem execute_next_iff (h : mw.counts c key r = true) :
    (mw.execute c r.ctx r.created r.now).1 = .next ↔
      (mw.config.check r.now (mw.client key r.created)).1.allowed = true := by
  unfold counts at h
  obtain ⟨hskips, rfl⟩ := by simpa using h
  unfold execute
  rw [if_neg (by simp [hskips])]
  dsimp only
  split_ifs with hdenied
  · simpa using hdenied
  · simpa using hdenied

end RateLimitMiddleware

end Hypern.Middleware
