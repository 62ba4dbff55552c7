import Hypern.Middleware.Windows
import Mathlib.Data.List.Infix
import Mathlib.Tactic.FieldSimp
import Mathlib.Tactic.Linarith

/-! The check with a sliding window, and which request times keep it to its limit. -/

namespace Hypern.Middleware

open RateLimitConfig

/-! ## The windows of the request times -/

/-- The requests of each window, by the time since it started: those of the window that is
running, and the later windows. A request after the end of a window starts the next one. -/
def windowsFrom (window : Nat) : Nat → List Nat → List Nat × List (List Nat)
  | _, [] => ([], [])
  | start, time :: times =>
    if window ≤ time - start then
      let r := windowsFrom window time times
      ([], (0 :: r.1) :: r.2)
    else
      let r := windowsFrom window start times
      ((time - start) :: r.1, r.2)

def windows (window start : Nat) (times : List Nat) : List (List Nat) :=
  (windowsFrom window start times).1 :: (windowsFrom window start times).2

/-- Requests of a window in which the earlier ones have `weight`: at each of them the rest of the
window still leaves the limit of this weight. -/
def Crowded (limit window : Nat) : Nat → List Nat → Prop
  | _, [] => True
  | weight, elapsed :: later =>
    limit * window ≤ weight * (window - elapsed) ∧
      Crowded limit window (weight * (window - elapsed) / window + 1) later

/-- No more requests than the limit; or one more than the limit at the instant at which the window
starts, and crowded ones after them. -/
def StaysFull (limit window : Nat) (elapsed : List Nat) : Prop :=
  elapsed.length ≤ limit ∨
    (∀ e ∈ elapsed.take (limit + 1), e = 0) ∧
      Crowded limit window (limit + 1) (elapsed.drop (limit + 1))

/-- Crowded ones after `spare` others. -/
def CrowdedAfter (limit window : Nat) : Nat → Nat → List Nat → Prop
  | 0, weight, elapsed => Crowded limit window weight elapsed
  | _ + 1, _, [] => True
  | spare + 1, weight, elapsed :: later =>
    CrowdedAfter limit window spare (weight * (window - elapsed) / window + 1) later

/-! ## One request -/

variable {config : RateLimitConfig} {state : RateLimitState} {times : List Nat}
  {log span : List Served}

theorem checkSlidingWindow_of_expired {now : Nat} (h : config.expired now state = true) :
    config.checkSlidingWindow now state = config.reset now state := if_pos h

theorem checkSlidingWindow_of_not_expired {now : Nat} (h : config.expired now state = false) :
    (config.checkSlidingWindow now state).1.allowed =
        decide (config.weightedCount now state + 1 ≤ config.maxRequests) ∧
      (config.checkSlidingWindow now state).2.count = config.weightedCount now state + 1 := by
  unfold checkSlidingWindow
  rw [if_neg (by simp [h])]
  exact ⟨rfl, rfl⟩

theorem checkSlidingWindow_keepsStart : KeepsStart config config.checkSlidingWindow := by
  intro now state h
  unfold checkSlidingWindow
  rw [if_neg (by simp [h])]

theorem weightedCount_le (now : Nat) (state : RateLimitState) :
    config.weightedCount now state ≤ state.count := by
  unfold weightedCount
  refine Nat.floor_le_of_le (mul_le_of_le_one_right (Nat.cast_nonneg _) ?_)
  have hratio : 0 ≤ asSecs (now - state.windowStart) / asSecs config.window := by
    unfold asSecs
    positivity
  linarith

/-- The rest of the window, in nanoseconds, scales the count. -/
theorem le_weightedCount_iff {now : Nat} (h : config.expired now state = false) (n : Nat) :
    n ≤ config.weightedCount now state ↔
      n * config.window ≤ state.count * (config.window - (now - state.windowStart)) := by
  have hlt : now - state.windowStart < config.window := Nat.not_le.mp (of_decide_eq_false h)
  unfold weightedCount
  generalize now - state.windowStart = elapsed at hlt
  have hwindow : (0 : ℚ) < config.window := Nat.cast_pos.mpr (Nat.zero_lt_of_lt hlt)
  have hratio : (state.count : ℚ) * (1 - asSecs elapsed / asSecs config.window) =
      (state.count * (config.window - elapsed : Nat) : Nat) / config.window := by
    unfold asSecs
    push_cast [Nat.cast_sub hlt.le]
    field_simp
  dsimp only
  rw [hratio, Nat.le_floor_iff (by positivity), le_div_iff₀ hwindow]
  exact_mod_cast Iff.rfl

/-- The request is turned away when what is left of the count has reached the limit. -/
def OverLimit (config : RateLimitConfig) (e : Served) : Prop :=
  config.maxRequests * config.window ≤
    e.before.count * (config.window - (e.time - e.before.windowStart))

theorem not_allowed_iff_overLimit {e : Served}
    (he : e ∈ serve config.checkSlidingWindow state times) (h : e.resets config = false) :
    e.verdict.allowed = false ↔ OverLimit config e := by
  rw [verdict_of_mem he, (checkSlidingWindow_of_not_expired h).1, OverLimit,
    ← le_weightedCount_iff h, decide_eq_false_iff_not, Nat.not_le, Nat.lt_succ_iff]

/-- The count grows by one at most, so the first requests find it below the limit. -/
theorem serve_sliding_allows {n : Nat} (hn : state.count + n ≤ config.maxRequests)
    (h : ∀ e ∈ serve config.checkSlidingWindow state times, e.resets config = false) :
    ∀ e ∈ (serve config.checkSlidingWindow state times).take n, e.verdict.allowed = true := by
  induction n generalizing state times with
  | zero => exact nofun
  | succ n ih =>
    cases times with
    | nil => exact nofun
    | cons now later =>
      obtain ⟨hnow, hlater⟩ := List.forall_mem_cons.mp h
      have hnow : config.expired now state = false := hnow
      obtain ⟨hallowed, hcount⟩ := checkSlidingWindow_of_not_expired hnow
      have hle := @weightedCount_le config now state
      have hbelow : config.weightedCount now state + 1 + n ≤ config.maxRequests := by omega
      rw [serve, List.take_succ_cons]
      refine List.forall_mem_cons.mpr ⟨?_, ih (hcount ▸ hbelow) hlater⟩
      exact hallowed.trans (decide_eq_true (Nat.le_of_add_right_le hbelow))

/-- The first requests of a window are successive requests of it too. -/
theorem Between.of_append {a b : List Served} (h : Between config log (a ++ b)) :
    Between config log a := by
  obtain ⟨earlier, later, hlog, hstart, htail⟩ := h
  refine ⟨earlier, b ++ later, ?_, hstart.imp_right fun hhead e he => ?_, fun e he => ?_⟩
  · rw [hlog]
    simp only [List.append_assoc]
  · exact hhead e (List.head?_append_of_ne_nil _ (List.ne_nil_of_mem (List.mem_of_mem_head? he)) ▸ he)
  · cases a with
    | nil => cases he
    | cons first rest => exact htail e (List.mem_append_left _ he)

theorem Between.not_resets {n : Nat} (hn : 1 ≤ n) (h : Between config log span) :
    ∀ e ∈ span.drop n, e.resets config = false := by
  obtain ⟨-, -, -, -, htail⟩ := h
  intro e he
  obtain ⟨k, rfl⟩ := Nat.exists_eq_add_of_le' hn
  rw [← List.drop_tail] at he
  exact htail e (List.mem_of_mem_drop he)

theorem Between.mem {e : Served} (h : Between config log span) (he : e ∈ span) : e ∈ log := by
  obtain ⟨earlier, later, rfl, -⟩ := h
  exact List.mem_append_left _ (List.mem_append_right _ he)

theorem Between.allows {start : Nat} (hmax : 1 ≤ config.maxRequests)
    (h : Between config (serve config.checkSlidingWindow (.new start) times) span) :
    ∀ e ∈ span.take config.maxRequests, e.verdict.allowed = true := by
  obtain ⟨state', times', rfl, hstart⟩ := h.eq_serve
  obtain ⟨-, -, -, -, htail⟩ := h
  cases times' with
  | nil => exact fun e he => absurd he (by simp [serve])
  | cons now rest =>
    cases hresets : config.expired now state' with
    | true =>
      obtain ⟨n, hn⟩ := Nat.exists_eq_add_of_le' hmax
      have hcheck := checkSlidingWindow_of_expired hresets
      rw [serve, hn, List.take_succ_cons, hcheck]
      rw [serve, hcheck] at htail
      refine List.forall_mem_cons.mpr ⟨rfl, serve_sliding_allows ?_ htail⟩
      change 1 + n ≤ config.maxRequests
      omega
    | false =>
      obtain rfl : state' = .new start := by
        refine hstart.resolve_right fun hhead => ?_
        exact absurd (hhead _ rfl) (ne_true_of_eq_false hresets)
      refine serve_sliding_allows (Nat.zero_add _).le ?_
      exact List.forall_mem_cons.mpr ⟨hresets, htail⟩

/-- The limit of a window is kept when the requests after the first ones find the count, scaled by
the rest of the window, at the limit. -/
theorem limited_iff_overLimit (hmax : 1 ≤ config.maxRequests) (start : Nat) (times : List Nat) :
    (∀ span, Between config (serve config.checkSlidingWindow (.new start) times) span →
      span.countP (·.verdict.allowed) ≤ config.maxRequests) ↔
        ∀ span, Between config (serve config.checkSlidingWindow (.new start) times) span →
          ∀ e ∈ span.drop config.maxRequests, OverLimit config e := by
  constructor
  · intro h span hspan e he
    have hresets := hspan.not_resets hmax e he
    have hlog := hspan.mem (List.mem_of_mem_drop he)
    refine (not_allowed_iff_overLimit hlog hresets).mp (Bool.eq_false_iff.mpr fun hallowed => ?_)
    -- the requests up to an allowed one past the limit are one too many
    obtain ⟨a, b, hdrop⟩ := List.append_of_mem he
    have hsplit : span = (span.take config.maxRequests ++ a ++ [e]) ++ b := by
      rw [List.append_assoc, List.append_assoc, List.singleton_append, ← hdrop,
        List.take_append_drop]
    have hfirst : (span.take config.maxRequests).countP (·.verdict.allowed) =
        config.maxRequests := by
      rw [List.countP_eq_length.mpr (hspan.allows hmax), List.length_take]
      refine Nat.min_eq_left (Nat.le_of_lt ?_)
      exact Nat.lt_of_not_le fun hlen => by simp [List.drop_eq_nil_of_le hlen] at he
    have hcount := h _ (hsplit ▸ hspan).of_append
    rw [List.countP_append, List.countP_append, hfirst, List.countP_singleton,
      if_pos hallowed] at hcount
    omega
  · intro h span hspan
    have hlate : (span.drop config.maxRequests).countP (·.verdict.allowed) = 0 := by
      refine List.countP_eq_zero.mpr fun e he => ?_
      have hresets := hspan.not_resets hmax e he
      have hlog := hspan.mem (List.mem_of_mem_drop he)
      rw [(not_allowed_iff_overLimit hlog hresets).mpr (h span hspan e he)]
      exact Bool.false_ne_true
    rw [← List.take_append_drop config.maxRequests span, List.countP_append, hlate]
    exact List.countP_le_length.trans (List.length_take_le _ _)

/-! ## The windows of a log are those of its times -/

/-- Successive requests of one window, from the one that starts it. -/
def Started (config : RateLimitConfig) (log span : List Served) : Prop :=
  ∃ earlier later, log = earlier ++ span ++ later ∧
    (∀ e ∈ span.head?, e.resets config = true) ∧ ∀ e ∈ span.tail, e.resets config = false

theorem between_iff : Between config log span ↔
    Started config log span ∨ span <+: log ∧ ∀ e ∈ span, e.resets config = false := by
  constructor
  · rintro ⟨earlier, later, hlog, rfl | hhead, htail⟩
    · cases span with
      | nil => exact .inr ⟨List.nil_prefix, nofun⟩
      | cons e rest =>
        cases he : e.resets config with
        | true => exact .inl ⟨[], later, hlog, by simpa using he, htail⟩
        | false => exact .inr ⟨⟨later, hlog.symm⟩, List.forall_mem_cons.mpr ⟨he, htail⟩⟩
    · exact .inl ⟨earlier, later, hlog, hhead, htail⟩
  · rintro (⟨earlier, later, hlog, hhead, htail⟩ | ⟨⟨later, hlog⟩, hnone⟩)
    · exact ⟨earlier, later, hlog, .inr hhead, htail⟩
    · exact ⟨[], later, hlog.symm, .inl rfl, fun e he => hnone e (List.mem_of_mem_tail he)⟩

/-- Only a request that resets starts a window, and the others of it come right after. -/
theorem started_cons {e : Served} : Started config (e :: log) span ↔
    Started config log span ∨ e.resets config = true ∧
      ∃ rest, span = e :: rest ∧ rest <+: log ∧ ∀ e ∈ rest, e.resets config = false := by
  constructor
  · rintro ⟨earlier, later, hlog, hhead, htail⟩
    cases earlier with
    | nil =>
      cases span with
      | nil => exact .inl ⟨[], log, rfl, nofun, nofun⟩
      | cons first rest =>
        obtain ⟨rfl, hrest⟩ := List.cons.inj hlog
        exact .inr ⟨hhead e rfl, rest, rfl, ⟨later, hrest.symm⟩, htail⟩
    | cons first earlier => exact .inl ⟨earlier, later, (List.cons.inj hlog).2, hhead, htail⟩
  · rintro (⟨earlier, later, hlog, hhead, htail⟩ | ⟨he, rest, rfl, ⟨later, hlog⟩, hrest⟩)
    · exact ⟨e :: earlier, later, congrArg (e :: ·) hlog, hhead, htail⟩
    · exact ⟨[], later, congrArg (e :: ·) hlog.symm, by simpa using he, hrest⟩

/-- Of the requests before the next reset, those after the first `n` are over the limit. -/
def RestOver (config : RateLimitConfig) (n : Nat) (log : List Served) : Prop :=
  ∀ span, span <+: log → (∀ e ∈ span, e.resets config = false) → ∀ e ∈ span.drop n, OverLimit config e

theorem restOver_nil (n : Nat) : RestOver config n [] := by
  intro span hspan _ e he
  rw [List.prefix_nil.mp hspan, List.drop_nil] at he
  cases he

theorem restOver_of_resets {e : Served} (he : e.resets config = true) (n : Nat) :
    RestOver config n (e :: log) := by
  intro span hspan hnone e' he'
  cases span with
  | nil =>
    rw [List.drop_nil] at he'
    cases he'
  | cons first rest =>
    obtain ⟨rfl, -⟩ := List.cons_prefix_cons.mp hspan
    exact absurd he (by simp [hnone first List.mem_cons_self])

theorem restOver_zero_cons {e : Served} (he : e.resets config = false) :
    RestOver config 0 (e :: log) ↔ OverLimit config e ∧ RestOver config 0 log := by
  constructor
  · intro h
    constructor
    · exact h [e] (List.cons_prefix_cons.mpr ⟨rfl, List.nil_prefix⟩) (by simpa using he) e (by simp)
    · intro span hspan hnone e' he'
      exact h (e :: span) (List.cons_prefix_cons.mpr ⟨rfl, hspan⟩)
        (List.forall_mem_cons.mpr ⟨he, hnone⟩) e' (List.mem_cons_of_mem e he')
  · rintro ⟨hover, hrest⟩ span hspan hnone
    cases span with
    | nil => exact nofun
    | cons first rest =>
      obtain ⟨rfl, hleading⟩ := List.cons_prefix_cons.mp hspan
      have hlater := hrest rest hleading fun e he => hnone e (List.mem_cons_of_mem _ he)
      exact List.forall_mem_cons.mpr ⟨hover, hlater⟩

theorem restOver_succ_cons {e : Served} (he : e.resets config = false) (n : Nat) :
    RestOver config (n + 1) (e :: log) ↔ RestOver config n log := by
  constructor
  · intro h span hspan hnone
    exact h (e :: span) (List.cons_prefix_cons.mpr ⟨rfl, hspan⟩)
      (List.forall_mem_cons.mpr ⟨he, hnone⟩)
  · intro h span hspan hnone
    cases span with
    | nil => exact nofun
    | cons first rest =>
      obtain ⟨-, hleading⟩ := List.cons_prefix_cons.mp hspan
      exact h rest hleading fun e he => hnone e (List.mem_cons_of_mem _ he)

/-- Of the requests of every window that starts, those after the first `n` are over the limit. -/
def StartedOver (config : RateLimitConfig) (n : Nat) (log : List Served) : Prop :=
  ∀ span, Started config log span → ∀ e ∈ span.drop n, OverLimit config e

theorem startedOver_cons_of_resets {e : Served} (he : e.resets config = true) (n : Nat) :
    StartedOver config (n + 1) (e :: log) ↔ RestOver config n log ∧ StartedOver config (n + 1) log := by
  constructor
  · intro h
    constructor
    · intro span hspan hnone
      exact h (e :: span) (started_cons.mpr (.inr ⟨he, span, rfl, hspan, hnone⟩))
    · exact fun span hspan => h span (started_cons.mpr (.inl hspan))
  · rintro ⟨hrest, hlater⟩ span hspan
    rcases started_cons.mp hspan with hspan | ⟨-, rest, rfl, hleading, hnone⟩
    · exact hlater span hspan
    · exact hrest rest hleading hnone

theorem startedOver_cons {e : Served} (he : e.resets config = false) (n : Nat) :
    StartedOver config n (e :: log) ↔ StartedOver config n log := by
  refine forall_congr' fun span => ?_
  rw [started_cons, or_iff_left fun h => Bool.false_ne_true (he.symm.trans h.1)]

theorem between_over_iff (n : Nat) :
    (∀ span, Between config log span → ∀ e ∈ span.drop n, OverLimit config e) ↔
      RestOver config n log ∧ StartedOver config n log := by
  constructor
  · intro h
    exact ⟨fun span hspan hnone => h span (between_iff.mpr (.inr ⟨hspan, hnone⟩)),
      fun span hspan => h span (between_iff.mpr (.inl hspan))⟩
  · rintro ⟨hrest, hstarted⟩ span hspan
    rcases between_iff.mp hspan with hspan | ⟨hleading, hnone⟩
    · exact hstarted span hspan
    · exact hrest span hleading hnone

theorem weightedCount_eq {now : Nat} (h : config.expired now state = false) :
    config.weightedCount now state =
      state.count * (config.window - (now - state.windowStart)) / config.window := by
  have hwindow : 0 < config.window := Nat.zero_lt_of_lt (Nat.not_le.mp (of_decide_eq_false h))
  refine eq_of_forall_le_iff fun n => ?_
  rw [le_weightedCount_iff h, Nat.le_div_iff_mul_le hwindow]

theorem startedOver_nil (n : Nat) : StartedOver config n [] := by
  rintro span ⟨earlier, later, hlog, -, -⟩ e he
  obtain ⟨-, rfl, -⟩ : earlier = [] ∧ span = [] ∧ later = [] := by simpa using hlog.symm
  rw [List.drop_nil] at he
  cases he

@[simp] theorem crowdedAfter_nil (limit window spare weight : Nat) :
    CrowdedAfter limit window spare weight [] := by
  cases spare <;> exact trivial

theorem crowdedAfter_zero_cons {limit window weight elapsed : Nat} {later : List Nat} :
    CrowdedAfter limit window 0 weight (elapsed :: later) ↔
      limit * window ≤ weight * (window - elapsed) ∧
        CrowdedAfter limit window 0 (weight * (window - elapsed) / window + 1) later := Iff.rfl

/-- The requests over the limit, said of the times alone. -/
theorem over_iff_crowdedAfter {limit : Nat} (hmax : config.maxRequests = limit + 1) (spare : Nat)
    (state : RateLimitState) (times : List Nat) :
    RestOver config spare (serve config.checkSlidingWindow state times) ∧
        StartedOver config config.maxRequests (serve config.checkSlidingWindow state times) ↔
      CrowdedAfter config.maxRequests config.window spare state.count
          (windowsFrom config.window state.windowStart times).1 ∧
        ∀ elapsed ∈ (windowsFrom config.window state.windowStart times).2,
          CrowdedAfter config.maxRequests config.window config.maxRequests 0 elapsed := by
  induction times generalizing spare state with
  | nil => exact iff_of_true ⟨restOver_nil _, startedOver_nil _⟩ ⟨crowdedAfter_nil _ _ _ _, nofun⟩
  | cons now later ih =>
    let request : Served := ⟨now, state, (config.checkSlidingWindow now state).1,
      (config.checkSlidingWindow now state).2⟩
    change RestOver config spare (request :: serve config.checkSlidingWindow request.after later) ∧
      StartedOver config config.maxRequests
        (request :: serve config.checkSlidingWindow request.after later) ↔ _
    cases hexpired : config.expired now state with
    | true =>
      have hresets : request.resets config = true := hexpired
      have hafter : request.after = (config.reset now state).2 :=
        congrArg Prod.snd (checkSlidingWindow_of_expired hexpired)
      have hwindow : config.window ≤ now - state.windowStart := of_decide_eq_true hexpired
      -- the request that resets is the first of the free ones of its window
      have hnext := ih limit request.after
      rw [windowsFrom, if_pos hwindow, hmax, startedOver_cons_of_resets hresets, List.forall_mem_cons,
        and_iff_right (restOver_of_resets hresets spare), and_iff_right (crowdedAfter_nil _ _ _ _),
        CrowdedAfter, Nat.zero_mul, Nat.zero_div]
      rw [hmax, hafter] at hnext
      rw [hafter]
      exact hnext
    | false =>
      have hresets : request.resets config = false := hexpired
      have hstart : request.after.windowStart = state.windowStart :=
        checkSlidingWindow_keepsStart now state hexpired
      have hcount : request.after.count = _ := (checkSlidingWindow_of_not_expired hexpired).2
      rw [weightedCount_eq hexpired] at hcount
      have hwindow : ¬ config.window ≤ now - state.windowStart := of_decide_eq_false hexpired
      rw [windowsFrom, if_neg hwindow, startedOver_cons hresets]
      cases spare with
      | zero =>
        have hnext := ih 0 request.after
        rw [hstart, hcount] at hnext
        rw [restOver_zero_cons hresets, and_assoc, hnext, crowdedAfter_zero_cons, and_assoc]
        rfl
      | succ spare =>
        have hnext := ih spare request.after
        rw [hstart, hcount] at hnext
        rw [restOver_succ_cons hresets, hnext]
        rfl

/-! ## The condition on the times -/

section

variable {limit window : Nat}

theorem limit_le_iff {weight elapsed : Nat} (hlimit : 1 ≤ limit) (hweight : weight ≤ limit)
    (helapsed : elapsed < window) :
    limit * window ≤ weight * (window - elapsed) ↔ weight = limit ∧ elapsed = 0 := by
  constructor
  · intro h
    have hall : limit * window ≤ weight * window :=
      h.trans (Nat.mul_le_mul_left _ (Nat.sub_le _ _))
    obtain rfl : weight = limit :=
      hweight.antisymm (Nat.le_of_mul_le_mul_right hall (Nat.zero_lt_of_lt helapsed))
    have hrest := Nat.le_of_mul_le_mul_left h hlimit
    omega
  · rintro ⟨rfl, rfl⟩
    exact le_rfl

/-- The weight never gains more than one, so all of the free requests have to come at once. -/
theorem crowdedAfter_iff (hlimit : 1 ≤ limit) {spare weight : Nat} (hweight : weight + spare ≤ limit)
    {elapsed : List Nat} (hsorted : elapsed.Pairwise (· ≤ ·)) (hlt : ∀ e ∈ elapsed, e < window) :
    CrowdedAfter limit window spare weight elapsed ↔
      elapsed.length ≤ spare ∨ weight + spare = limit ∧
        (∀ e ∈ elapsed.take (spare + 1), e = 0) ∧
          Crowded limit window (limit + 1) (elapsed.drop (spare + 1)) := by
  induction spare generalizing weight elapsed with
  | zero =>
    cases elapsed with
    | nil => exact iff_of_true trivial (.inl le_rfl)
    | cons e later =>
      rw [Nat.add_zero] at hweight ⊢
      have hfull := limit_le_iff hlimit hweight (hlt e List.mem_cons_self)
      rw [crowdedAfter_zero_cons, hfull, List.length_cons, or_iff_right (Nat.not_succ_le_zero _),
        and_assoc]
      refine and_congr_right fun hlast => ?_
      simp only [Nat.zero_add, List.take_succ_cons, List.take_zero, List.mem_singleton, forall_eq]
      refine and_congr_right fun hzero => ?_
      rw [hlast, hzero, Nat.sub_zero, Nat.mul_div_cancel _ (Nat.zero_lt_of_lt (hlt e List.mem_cons_self))]
      rfl
  | succ spare ih =>
    cases elapsed with
    | nil => exact iff_of_true trivial (.inl (Nat.zero_le _))
    | cons e later =>
      have hwindow : 0 < window := Nat.zero_lt_of_lt (hlt e List.mem_cons_self)
      have hgain : weight * (window - e) / window ≤ weight :=
        Nat.div_le_of_le_mul (Nat.mul_comm window weight ▸ Nat.mul_le_mul_left _ (Nat.sub_le _ _))
      obtain ⟨hfirst, hsorted⟩ := List.pairwise_cons.mp hsorted
      obtain ⟨helapsed, hlt⟩ := List.forall_mem_cons.mp hlt
      rw [CrowdedAfter, ih (by omega) hsorted hlt, List.length_cons, Nat.succ_le_succ_iff]
      refine or_congr_right' fun hmore => ?_
      rw [List.take_succ_cons, List.forall_mem_cons, List.drop_succ_cons]
      -- the next request is not earlier than this one
      have hzero : (∀ e' ∈ later.take (spare + 1), e' = 0) → e = 0 := by
        intro hnext
        cases later with
        | nil => exact absurd (Nat.zero_le _) hmore
        | cons next rest =>
          have hle := hfirst next List.mem_cons_self
          rw [hnext next (by simp)] at hle
          exact Nat.le_zero.mp hle
      constructor
      · rintro ⟨hlast, hnext, hcrowded⟩
        obtain rfl := hzero hnext
        exact ⟨by omega, ⟨rfl, hnext⟩, hcrowded⟩
      · rintro ⟨hlast, ⟨rfl, hnext⟩, hcrowded⟩
        rw [Nat.sub_zero, Nat.mul_div_cancel _ hwindow]
        exact ⟨by omega, hnext, hcrowded⟩

theorem mem_windowsFrom {start elapsed : Nat} {times : List Nat}
    (h : elapsed ∈ (windowsFrom window start times).1) : ∃ time ∈ times, elapsed = time - start := by
  induction times with
  | nil => cases h
  | cons time times ih =>
    rw [windowsFrom] at h
    split_ifs at h
    · cases h
    · rcases List.mem_cons.mp h with rfl | h
      · exact ⟨time, List.mem_cons_self, rfl⟩
      · obtain ⟨time', hmem, helapsed⟩ := ih h
        exact ⟨time', List.mem_cons_of_mem _ hmem, helapsed⟩

/-- In order, and all of them before the window is over. -/
def Within (window : Nat) (elapsed : List Nat) : Prop :=
  elapsed.Pairwise (· ≤ ·) ∧ ∀ e ∈ elapsed, e < window

theorem Within.cons {first : Nat} {elapsed : List Nat} (h : Within window elapsed)
    (hfirst : first < window) (hle : ∀ e ∈ elapsed, first ≤ e) : Within window (first :: elapsed) :=
  ⟨List.pairwise_cons.mpr ⟨hle, h.1⟩, List.forall_mem_cons.mpr ⟨hfirst, h.2⟩⟩

theorem windows_within (hwindow : 0 < window) {start : Nat} {times : List Nat}
    (hsorted : (start :: times).Pairwise (· ≤ ·)) :
    ∀ elapsed ∈ windows window start times, Within window elapsed := by
  refine List.forall_mem_cons.mpr ?_
  induction times generalizing start with
  | nil => exact ⟨⟨.nil, nofun⟩, nofun⟩
  | cons time times ih =>
    obtain ⟨hstart, htimes⟩ := List.pairwise_cons.mp hsorted
    rw [windowsFrom]
    split_ifs with hover
    · obtain ⟨hnow, hlater⟩ := ih htimes
      exact ⟨⟨.nil, nofun⟩, List.forall_mem_cons.mpr
        ⟨hnow.cons hwindow fun e _ => Nat.zero_le e, hlater⟩⟩
    · obtain ⟨htime, htimes⟩ := List.pairwise_cons.mp htimes
      obtain ⟨hnow, hlater⟩ := ih (List.pairwise_cons.mpr
        ⟨fun t ht => hstart t (List.mem_cons_of_mem _ ht), htimes⟩)
      refine ⟨hnow.cons (Nat.not_le.mp hover) fun e he => ?_, hlater⟩
      obtain ⟨t, ht, rfl⟩ := mem_windowsFrom he
      exact Nat.sub_le_sub_right (htime t ht) start

/-- It is enough that all of the later requests come early in the window. -/
theorem crowded_of_early (hwindow : 0 < window) {weight : Nat} (hweight : limit < weight)
    {elapsed : List Nat}
    (h : ∀ e ∈ elapsed, e * (limit + 1) ≤ window) : Crowded limit window weight elapsed := by
  induction elapsed generalizing weight with
  | nil => trivial
  | cons e later ih =>
    obtain ⟨hearly, hlater⟩ := List.forall_mem_cons.mp h
    have hfull : limit * window ≤ weight * (window - e) := by
      calc
        limit * window = (limit + 1) * window - window := by rw [Nat.succ_mul, Nat.add_sub_cancel]
        _ ≤ (limit + 1) * window - e * (limit + 1) := Nat.sub_le_sub_left hearly _
        _ = (limit + 1) * (window - e) := by rw [Nat.mul_sub, Nat.mul_comm e]
        _ ≤ weight * (window - e) := Nat.mul_le_mul_right _ hweight
    exact ⟨hfull, ih (Nat.lt_succ_of_le ((Nat.le_div_iff_mul_le hwindow).mpr hfull)) hlater⟩

end

/-- A window keeps to the limit if and only if no more requests come in it, or one more than the
limit at the instant it starts, and all others while the rest of the window leaves the limit of
their weight. -/
theorem sliding_window_iff {config : RateLimitConfig} (hmax : 1 ≤ config.maxRequests)
    (hwindow : 0 < config.window) (start : Nat) (times : List Nat)
    (hsorted : (start :: times).Pairwise (· ≤ ·)) :
    (∀ span, Between config (serve config.checkSlidingWindow (.new start) times) span →
      span.countP (·.verdict.allowed) ≤ config.maxRequests) ↔
        ∀ elapsed ∈ windows config.window start times,
          StaysFull config.maxRequests config.window elapsed := by
  obtain ⟨limit, hlimit⟩ := Nat.exists_eq_add_of_le' hmax
  rw [limited_iff_overLimit hmax start times, between_over_iff, over_iff_crowdedAfter hlimit]
  have hwindows := windows_within hwindow hsorted
  rw [windows, List.forall_mem_cons] at hwindows ⊢
  have hfull : ∀ elapsed, Within config.window elapsed →
      (CrowdedAfter config.maxRequests config.window config.maxRequests 0 elapsed ↔
        StaysFull config.maxRequests config.window elapsed) := by
    rintro elapsed ⟨horder, hlt⟩
    rw [crowdedAfter_iff hmax (Nat.zero_add _).le horder hlt, StaysFull, Nat.zero_add,
      and_iff_right rfl]
  exact and_congr (hfull _ hwindows.1)
    (forall₂_congr fun elapsed hmem => hfull elapsed (hwindows.2 elapsed hmem))

/-- Two requests at the start of the window, and a third one when half of it is over. -/
theorem decayed_count_over_limit :
    (∀ span, Between ⟨1, 10, .slidingWindow, none, []⟩
      (serve (checkSlidingWindow ⟨1, 10, .slidingWindow, none, []⟩) (.new 0) [0, 0, 5, 12]) span →
        span.countP (·.verdict.allowed) ≤ 1) ↔
      ∀ elapsed ∈ windows 10 0 [0, 0, 5, 12], StaysFull 1 10 elapsed :=
  @sliding_window_iff ⟨1, 10, .slidingWindow, none, []⟩ (le_refl 1) (by decide) 0 [0, 0, 5, 12]
    (by decide)

/-- With a limit of one, half a window after the first request a second one is allowed. -/
theorem sliding_window_exceeded :
    ¬ ∀ (config : RateLimitConfig) (start : Nat) (times : List Nat),
      1 ≤ config.maxRequests → 0 < config.window → (start :: times).Pairwise (· ≤ ·) →
        ∀ span, Between config (serve config.checkSlidingWindow (.new start) times) span →
          span.countP (·.verdict.allowed) ≤ config.maxRequests := by
  intro h
  let config : RateLimitConfig := ⟨1, 10, .slidingWindow, none, []⟩
  let log := serve config.checkSlidingWindow (.new 0) [0, 5]
  have hfirst : config.checkSlidingWindow 0 (.new 0) = (⟨true, 0, false⟩, ⟨1, 0, 0, 0⟩) := by
    have hnone := Nat.le_zero.mp (@weightedCount_le config 0 (.new 0))
    simp only [config, RateLimitState.new] at hnone
    simp [checkSlidingWindow, expired, config, RateLimitState.new, hnone]
  have hsecond : config.checkSlidingWindow 5 ⟨1, 0, 0, 0⟩ = (⟨true, 0, false⟩, ⟨1, 0, 0, 0⟩) := by
    have hnot := (@le_weightedCount_iff config ⟨1, 0, 0, 0⟩ 5 (by decide) 1).not.mpr (by decide)
    have hhalf := Nat.lt_one_iff.mp (Nat.not_le.mp hnot)
    simp only [config] at hhalf
    simp [checkSlidingWindow, expired, config, hhalf]
  have hlog : log = [⟨0, .new 0, ⟨true, 0, false⟩, ⟨1, 0, 0, 0⟩⟩,
      ⟨5, ⟨1, 0, 0, 0⟩, ⟨true, 0, false⟩, ⟨1, 0, 0, 0⟩⟩] := by
    simp only [log, serve, hfirst, hsecond]
  have hspan : Between config log log := by
    refine ⟨[], [], by simp, Or.inl rfl, ?_⟩
    rw [hlog]
    simp [config, Served.resets, expired]
  have hbound := h config 0 [0, 5] (le_refl 1) (by decide) (by decide) log hspan
  rw [hlog] at hbound
  exact absurd hbound (by decide)

end Hypern.Middleware
