import Hypern.Middleware.RateLimit

/-! The requests of one window, and what the check with fixed windows allows of them. -/

namespace Hypern.Middleware

open RateLimitConfig

/-! ## Windows -/

variable (config : RateLimitConfig)

/-- The window starts anew with the request. -/
def Served.resets (e : Served) : Bool := config.expired e.time e.before

/-- Successive requests of one window: the first of them is the one that started it, or the
first of all. -/
def Between (log span : List Served) : Prop :=
  ∃ earlier later, log = earlier ++ span ++ later ∧
    (earlier = [] ∨ ∀ e ∈ span.head?, e.resets config = true) ∧
    ∀ e ∈ span.tail, e.resets config = false

/-- What the check returns for the `n`-th request of a window. -/
def fixedVerdict (n : Nat) : Verdict :=
  ⟨decide (n ≤ config.maxRequests), config.maxRequests - n, false⟩

/-- In every window the first requests are allowed, up to the limit, and the remaining number
is what the limit leaves. -/
def LimitsWindows (log : List Served) : Prop :=
  ∀ span, Between config log span →
    span.map (·.verdict) = (List.range' 1 span.length).map (fixedVerdict config)

variable {config} {check : Nat → RateLimitState → Verdict × RateLimitState}
  {state : RateLimitState} {times : List Nat} {log span : List Served}

theorem verdict_of_mem {e : Served} (h : e ∈ serve check state times) :
    e.verdict = (check e.time e.before).1 := by
  induction times generalizing state with
  | nil => cases h
  | cons now later ih =>
    rcases List.mem_cons.mp h with rfl | h
    · rfl
    · exact ih h

/-- A part of a log is a log itself. -/
theorem serve_eq_append {a b : List Served} (h : serve check state times = a ++ b) :
    ∃ before after state', times = before ++ after ∧ a = serve check state before ∧
      b = serve check state' after ∧ (a = [] → state' = state) := by
  induction a generalizing state times with
  | nil => exact ⟨[], times, state, rfl, rfl, h.symm, fun _ => rfl⟩
  | cons e a ih =>
    cases times with
    | nil => cases h
    | cons now later =>
      obtain ⟨hhead, htail⟩ := List.cons.inj h
      obtain ⟨before, after, state', rfl, ha, hb, -⟩ := ih htail
      refine ⟨now :: before, after, state', rfl, ?_, hb, nofun⟩
      rw [serve, ← ha, ← hhead]

/-- The requests of a window are checked one after the other, from the state that the first of
them found. -/
theorem Between.eq_serve (h : Between config (serve check state times) span) :
    ∃ state' times', span = serve check state' times' ∧
      (state' = state ∨ ∀ e ∈ span.head?, e.resets config = true) := by
  obtain ⟨earlier, later, hlog, hstart, -⟩ := h
  rw [List.append_assoc] at hlog
  obtain ⟨-, rest, state', -, -, hrest, hfirst⟩ := serve_eq_append hlog
  obtain ⟨times', -, -, -, hspan, -, -⟩ := serve_eq_append hrest.symm
  exact ⟨state', times', hspan, hstart.imp_left hfirst⟩

/-- The check moves the start of the window only when the window is over. -/
def KeepsStart (config : RateLimitConfig)
    (check : Nat → RateLimitState → Verdict × RateLimitState) : Prop :=
  ∀ now state, config.expired now state = false →
    (check now state).2.windowStart = state.windowStart

theorem serve_resets_none_iff (hkeep : KeepsStart config check) :
    (∀ e ∈ serve check state times, e.resets config = false) ↔
      ∀ t ∈ times, t - state.windowStart < config.window := by
  induction times generalizing state with
  | nil => exact iff_of_true nofun nofun
  | cons now later ih =>
    have hfirst : config.expired now state = false ↔ now - state.windowStart < config.window := by
      rw [expired, decide_eq_false_iff_not, not_le]
    rw [serve, List.forall_mem_cons, List.forall_mem_cons, ← hfirst]
    refine and_congr_right fun hnow => ?_
    rw [ih, hkeep now state hnow]

/-! ## The fixed window -/

theorem checkFixedWindow_keepsStart : KeepsStart config config.checkFixedWindow := by
  intro now state h
  unfold checkFixedWindow
  rw [if_neg (by simp [h])]

theorem checkFixedWindow_of_expired {now : Nat} (h : config.expired now state = true) :
    config.checkFixedWindow now state = config.reset now state := if_pos h

theorem checkFixedWindow_counts {now : Nat} (h : config.expired now state = false) :
    (config.checkFixedWindow now state).1 = fixedVerdict config (state.count + 1) ∧
      (config.checkFixedWindow now state).2.count = state.count + 1 := by
  unfold checkFixedWindow
  rw [if_neg (by simp [h])]
  exact ⟨rfl, rfl⟩

theorem reset_verdict (h : 1 ≤ config.maxRequests) (now : Nat) (state : RateLimitState) :
    (config.reset now state).1 = fixedVerdict config 1 := by
  unfold reset fixedVerdict subU64
  rw [if_pos h, decide_eq_true h, decide_eq_false (Nat.not_lt.mpr h)]

/-- Within a window every request is counted. -/
theorem serve_fixed_counts
    (h : ∀ e ∈ serve config.checkFixedWindow state times, e.resets config = false) :
    (serve config.checkFixedWindow state times).map (·.verdict) =
      (List.range' (state.count + 1) times.length).map (fixedVerdict config) := by
  induction times generalizing state with
  | nil => rfl
  | cons now later ih =>
    obtain ⟨hnow, hlater⟩ := List.forall_mem_cons.mp h
    obtain ⟨hverdict, hcount⟩ := checkFixedWindow_counts hnow
    rw [serve, List.map_cons, ih hlater, hcount, List.length_cons, List.range'_succ, List.map_cons,
      hverdict]

/-- The request that starts a window is a span by itself. -/
theorem between_of_resets {config : RateLimitConfig} {log : List Served} {e : Served}
    (he : e ∈ log) (hresets : e.resets config = true) : Between config log [e] := by
  obtain ⟨earlier, later, hlog⟩ := List.append_of_mem he
  exact ⟨earlier, later, by simp [hlog], Or.inr (by simpa using hresets), nofun⟩

/-- The check follows the limit as long as the limit is not zero or the first window lasts. -/
theorem fixed_window_iff (config : RateLimitConfig) (start : Nat) (times : List Nat) :
    LimitsWindows config (serve config.checkFixedWindow (.new start) times) ↔
      1 ≤ config.maxRequests ∨ ∀ t ∈ times, t - start < config.window := by
  have hnone := @serve_resets_none_iff config _ (.new start) times checkFixedWindow_keepsStart
  constructor
  · intro h
    by_contra hboth
    obtain ⟨hzero, hlong⟩ := not_or.mp hboth
    -- the window ends, and the subtraction in the reset underflows
    have hreset : ∃ e ∈ serve config.checkFixedWindow (.new start) times,
        e.resets config = true := by
      by_contra hno
      exact hlong (hnone.mp fun e he => Bool.eq_false_iff.mpr fun hresets => hno ⟨e, he, hresets⟩)
    obtain ⟨e, he, hresets⟩ := hreset
    have hverdict : e.verdict = fixedVerdict config 1 :=
      (List.cons.inj (h [e] (between_of_resets he hresets))).1
    rw [verdict_of_mem he, checkFixedWindow_of_expired hresets] at hverdict
    have hunderflow := congrArg Verdict.underflow hverdict
    exact hzero (Nat.not_lt.mp (of_decide_eq_false hunderflow))
  · intro hlimit span hspan
    obtain ⟨state', times', rfl, hstart⟩ := hspan.eq_serve
    obtain ⟨earlier, later, hlog, -, htail⟩ := hspan
    rw [length_serve]
    cases times' with
    | nil => rfl
    | cons now rest =>
      rw [serve, List.map_cons, List.length_cons, List.range'_succ, List.map_cons]
      cases hresets : config.expired now state' with
      | true =>
        -- it has ended by this request, so the limit is not zero
        have hpositive : 1 ≤ config.maxRequests := by
          refine hlimit.resolve_right fun hshort => ?_
          have hno := hnone.mpr hshort
          rw [hlog] at hno
          have hfirst := hno ⟨now, state', _, _⟩ (List.mem_append_left _ (List.mem_append_right _
            List.mem_cons_self))
          exact Bool.false_ne_true (hfirst.symm.trans hresets)
        have hcheck := checkFixedWindow_of_expired hresets
        rw [serve_fixed_counts htail, hcheck, reset_verdict hpositive]
        rfl
      | false =>
        obtain ⟨hverdict, hcount⟩ := checkFixedWindow_counts hresets
        obtain rfl : state' = .new start := by
          refine hstart.resolve_right fun hhead => ?_
          exact absurd (hhead _ rfl) (ne_true_of_eq_false hresets)
        rw [serve_fixed_counts htail, hverdict, hcount]
        rfl

/-- With a limit of zero the request that starts a new window is allowed. -/
theorem zero_limit_allows :
    ¬ ∀ (config : RateLimitConfig) (start : Nat) (times : List Nat),
      (start :: times).Pairwise (· ≤ ·) →
        LimitsWindows config (serve config.checkFixedWindow (.new start) times) := by
  intro h
  have hspan : Between ⟨0, 10, .fixedWindow, none, []⟩
      (serve (checkFixedWindow ⟨0, 10, .fixedWindow, none, []⟩) (.new 0) [0, 10])
      [⟨10, ⟨1, 0, 0, 0⟩, ⟨true, 2 ^ 64 - 1, true⟩, ⟨1, 10, 0, 0⟩⟩] := by
    refine ⟨[⟨0, .new 0, ⟨false, 0, false⟩, ⟨1, 0, 0, 0⟩⟩], [], rfl, Or.inr ?_, nofun⟩
    simp [Served.resets, expired]
  exact absurd (h _ 0 [0, 10] (by decide) _ hspan) (by decide)

end Hypern.Middleware
