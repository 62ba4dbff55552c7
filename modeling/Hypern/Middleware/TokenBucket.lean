import Hypern.Lib.Bucket
import Hypern.Middleware.RateLimit

/-! The token bucket of a client is a bucket that is drawn from. -/

namespace Hypern.Middleware

open Lib RateLimitConfig

def RateLimitState.bucket (state : RateLimitState) : Bucket ℚ :=
  ⟨state.tokens, asSecs state.lastRefill⟩

theorem asSecs_mono {a b : Nat} (h : a ≤ b) : asSecs a ≤ asSecs b := by
  unfold asSecs
  gcongr

theorem asSecs_sub {a b : Nat} (h : a ≤ b) : asSecs (b - a) = asSecs b - asSecs a := by
  unfold asSecs
  rw [Nat.cast_sub h, sub_div]

variable {bucketSize : Nat} {refillRate : ℚ} {state : RateLimitState} {now : Nat}

theorem checkTokenBucket_draw (h : state.lastRefill ≤ now) :
    ((checkTokenBucket now state bucketSize refillRate).1.allowed,
      (checkTokenBucket now state bucketSize refillRate).2.bucket) =
        state.bucket.draw (bucketSize : ℚ) refillRate (asSecs now) := by
  unfold checkTokenBucket Bucket.draw Bucket.refill RateLimitState.bucket
  rw [asSecs_sub h]
  dsimp only
  split_ifs <;> rfl

theorem checkTokenBucket_lastRefill (now : Nat) (state : RateLimitState) :
    (checkTokenBucket now state bucketSize refillRate).2.lastRefill = now := by
  unfold checkTokenBucket
  dsimp only
  split_ifs <;> rfl

/-- The requests that are allowed are those that draw a token. -/
theorem serve_drawn {times : List Nat}
    (hsorted : (state.lastRefill :: times).Pairwise (· ≤ ·)) :
    ((serve (checkTokenBucket · · bucketSize refillRate) state times).filter
      (·.verdict.allowed)).map (asSecs ·.time) =
        state.bucket.drawn (bucketSize : ℚ) refillRate (times.map asSecs) := by
  induction times generalizing state with
  | nil => rfl
  | cons now later ih =>
    obtain ⟨hlast, hlater⟩ := List.pairwise_cons.mp hsorted
    have hdraw := @checkTokenBucket_draw bucketSize refillRate _ _ (hlast now List.mem_cons_self)
    have hrest := @ih (checkTokenBucket now state bucketSize refillRate).2
      (by rwa [checkTokenBucket_lastRefill])
    rw [List.map_cons, Bucket.drawn, ← hdraw, ← hrest, serve]
    cases hallowed : (checkTokenBucket now state bucketSize refillRate).1.allowed with
    | true => simp [hallowed]
    | false => simp [hallowed]

theorem checkTokenBucket_inRange (hrate : 0 ≤ refillRate) (hnow : state.lastRefill ≤ now)
    (h : state.bucket.InRange (bucketSize : ℚ)) :
    (checkTokenBucket now state bucketSize refillRate).2.bucket.InRange (bucketSize : ℚ) := by
  have hdraw := congrArg Prod.snd (@checkTokenBucket_draw bucketSize refillRate _ _ hnow)
  refine (congrArg (Bucket.InRange (bucketSize : ℚ)) hdraw).mpr ?_
  exact h.draw (Nat.cast_nonneg bucketSize) hrate (asSecs_mono hnow)

theorem serve_inRange (hrate : 0 ≤ refillRate) {times : List Nat}
    (hsorted : (state.lastRefill :: times).Pairwise (· ≤ ·))
    (hstate : state.bucket.InRange (bucketSize : ℚ)) :
    ∀ e ∈ serve (checkTokenBucket · · bucketSize refillRate) state times,
      e.after.bucket.InRange (bucketSize : ℚ) := by
  induction times generalizing state with
  | nil => exact nofun
  | cons now later ih =>
    obtain ⟨hlast, hlater⟩ := List.pairwise_cons.mp hsorted
    have hnext := checkTokenBucket_inRange hrate (hlast now List.mem_cons_self) hstate
    exact List.forall_mem_cons.mpr ⟨hnext, ih (by rwa [checkTokenBucket_lastRefill]) hnext⟩

theorem inRange_new (start : Nat) : (RateLimitState.new start).bucket.InRange (bucketSize : ℚ) :=
  ⟨le_refl 0, Nat.cast_nonneg bucketSize⟩

/-- The allowed requests of the log between two times. -/
def allowedBetween (s t : ℚ) (log : List Served) : Nat :=
  log.countP fun e => e.verdict.allowed && (decide (s ≤ asSecs e.time) && decide (asSecs e.time ≤ t))

/-- The tokens of a client stay between zero and the size of the bucket, and in no span of time
does it get more than the bucket holds and what is refilled meanwhile. -/
theorem token_bucket_bound (hrate : 0 ≤ refillRate) {start : Nat} {times : List Nat}
    (hsorted : (start :: times).Pairwise (· ≤ ·)) :
    let log := serve (checkTokenBucket · · bucketSize refillRate) (.new start) times
    (∀ e ∈ log, 0 ≤ e.after.tokens ∧ e.after.tokens ≤ bucketSize) ∧
      ∀ s t : ℚ, s ≤ t → (allowedBetween s t log : ℚ) ≤ bucketSize + refillRate * (t - s) := by
  have hnew : (RateLimitState.new start).bucket.InRange (bucketSize : ℚ) := inRange_new start
  refine ⟨fun e he => ?_, fun s t hst => ?_⟩
  · have hrange := serve_inRange hrate hsorted hnew e he
    exact ⟨hrange.nonneg, hrange.le_size⟩
  · have hsecs : ((RateLimitState.new start).bucket.last :: times.map asSecs).Pairwise (· ≤ ·) :=
      List.pairwise_map.mpr (hsorted.imp asSecs_mono)
    have hbound := Bucket.drawn_between (Nat.cast_nonneg bucketSize) hrate hnew hsecs hst
    rw [← serve_drawn hsorted, List.countP_map, List.countP_filter] at hbound
    rw [mul_comm refillRate]
    refine le_trans (le_of_eq ?_) hbound
    exact congrArg Nat.cast (List.countP_congr fun e _ => by simp [and_comm])

theorem burst_of_two_bounded :
    (allowedBetween 1 1 (serve (checkTokenBucket · · 2 1) (.new 0)
      [10 ^ 9, 10 ^ 9, 3 * 10 ^ 9]) : ℚ) ≤ (2 : Nat) + 1 * (1 - 1) :=
  (@token_bucket_bound 2 1 (by norm_num) 0 [10 ^ 9, 10 ^ 9, 3 * 10 ^ 9] (by decide)).2 1 1 (le_refl 1)

end Hypern.Middleware
