import Hypern.Lib.Table
import Hypern.Scheduler.Loop

/-! What one execution adds up to: the calls it makes, the record it stores and the counters of
`TaskMetrics`, under hooks that may raise. -/

namespace Hypern.Scheduler

open Lib

variable {F V : Type}

/-! ## Metrics and hooks -/

structure TaskMetrics where
  totalSubmitted : Nat
  totalCompleted : Nat
  totalFailed : Nat
  totalRetried : Nat
  totalCancelled : Nat
  durations : List ℚ
  failureCounts : Table String Nat

namespace TaskMetrics

variable (m : TaskMetrics)

def zero : TaskMetrics := ⟨0, 0, 0, 0, 0, [], ∅⟩

/-- Only the last 1000 durations are kept. -/
def recordComplete (duration : ℚ) : TaskMetrics :=
  { m with
    totalCompleted := m.totalCompleted + 1
    durations := (m.durations ++ [duration]).drop (m.durations.length + 1 - 1000) }

def recordFailure (error : String) : TaskMetrics :=
  { m with
    totalFailed := m.totalFailed + 1
    failureCounts := m.failureCounts.insert error ((m.failureCounts.lookup error).getD 0 + 1) }

def recordRetry : TaskMetrics := { m with totalRetried := m.totalRetried + 1 }

end TaskMetrics

inductive HookOutcome
  | returned
  | raised (exc : Exc)
  | exited

/-- The loops of `_fire_before`, `_fire_after` and `_fire_error`, which pass over every `Exception`:
whether something else gets out. -/
def fireExits : List HookOutcome → Bool
  | [] => false
  | .returned :: hooks => fireExits hooks
  | .raised _ :: hooks => fireExits hooks
  | .exited :: _ => true

/-- One execution as its function and the hooks see it: the function returns a value or raises an
`Exception` at each attempt. -/
structure Surroundings (V : Type) where
  outcome : Nat → Except Exc V
  duration : Nat → ℚ
  hooksBefore : List HookOutcome
  hooksAfter : List HookOutcome
  hooksError : Nat → List HookOutcome

def Surroundings.environment (around : Surroundings V) : Environment V where
  outcome := fun attempt => match around.outcome attempt with
    | .ok v => .value v
    | .error exc => .exception exc
  beforeExits := fireExits around.hooksBefore
  afterExits := fireExits around.hooksAfter
  errorExits := fun attempt => fireExits (around.hooksError attempt)

/-- Every exception of the function has a text. -/
def Surroundings.Readable (around : Surroundings V) : Prop :=
  ∀ attempt exc, around.outcome attempt = .error exc → ∃ error, exc.text = some error

/-- The hooks raise nothing but `Exception`s. -/
structure Surroundings.Contained (around : Surroundings V) : Prop where
  before : .exited ∉ around.hooksBefore
  after : .exited ∉ around.hooksAfter
  error : ∀ attempt, .exited ∉ around.hooksError attempt

theorem fireExits_eq_false {hooks : List HookOutcome} (h : .exited ∉ hooks) :
    fireExits hooks = false := by
  induction hooks with
  | nil => rfl
  | cons hook hooks ih =>
    rw [List.mem_cons, not_or] at h
    cases hook with
    | returned => exact ih h.2
    | raised exc => exact ih h.2
    | exited => exact absurd rfl h.1

/-- `retry_on` is `None`, or the exception is an instance of one of its types. -/
def RetryPolicy.Covers (policy : RetryPolicy) (exc : Exc) : Prop :=
  ∀ isInstance, policy.retryOn = some isInstance → isInstance exc = true

theorem RetryPolicy.shouldRetry_iff (policy : RetryPolicy) (attempt : Nat) (exc : Exc) :
    policy.shouldRetry attempt exc = true ↔ attempt < policy.maxRetries ∧ policy.Covers exc := by
  unfold shouldRetry Covers
  by_cases hlt : attempt < policy.maxRetries
  · rw [if_neg (Nat.not_le.mpr hlt)]
    cases policy.retryOn <;> simp [hlt]
  · rw [if_pos (Nat.not_lt.mp hlt)]
    simp [hlt]

/-! ## The metrics of an execution -/

section

variable (job : Job F V) (around : Surroundings V)

/-- The outcome of the call: a callable that does not take the arguments raises. -/
def Surroundings.attempt (attempt : Nat) : Except Exc V :=
  match job.callable.apply job.args with
  | .ok _ => around.outcome attempt
  | .error exc => .error exc

/-- What the loop of `_execute_with_retry` records in the metrics, with `left` attempts to go. -/
def metricsAfter : (left attempt : Nat) → TaskMetrics → TaskMetrics
  | 0, _, m => m
  | left + 1, attempt, m =>
    match around.attempt job attempt with
    | .ok _ => m.recordComplete (around.duration attempt)
    | .error exc =>
      match exc.text with
      | none => m
      | some error =>
        if fireExits (around.hooksError attempt) then m
        else if job.policy.shouldRetry attempt exc then
          if sleepRaises (job.policy.getDelay attempt) then m.recordRetry
          else metricsAfter left (attempt + 1) m.recordRetry
        else m.recordFailure error

/-- The metrics after `_execute_with_retry`. -/
def executionMetrics (m : TaskMetrics) : TaskMetrics :=
  if fireExits around.hooksBefore then m
  else metricsAfter job around (job.policy.maxRetries + 1) 0 m

/-- Attempt `last` is the first that succeeds, or fails in a way that is not retried. -/
structure StopsAt (last : Nat) : Prop where
  le : last ≤ job.policy.maxRetries
  earlier : ∀ i < last, ∃ exc, around.attempt job i = .error exc ∧ job.policy.Covers exc
  now : ∀ exc, around.attempt job last = .error exc →
    last = job.policy.maxRetries ∨ ¬ job.policy.Covers exc

/-- The execution `ex` has taken the metrics from `m` to `m'`, and everything it leaves behind is
accounted for by its attempts. -/
structure Accounted (ex : Execution F V) (m m' : TaskMetrics) (last : Nat) : Prop
    extends StopsAt job around last where
  attempts : ex.result.attempts = last + 1
  calls : ∀ call, job.callable.apply job.args = .ok call → ex.calls = List.replicate (last + 1) call
  completes : ∀ v, around.attempt job last = .ok v →
    ex.result.state = .completed ∧ ex.result.result = some v ∧
      m'.totalCompleted = m.totalCompleted + 1 ∧ m'.totalFailed = m.totalFailed
  fails : ∀ exc, around.attempt job last = .error exc →
    ex.result.state = .failed ∧ ex.result.result = none ∧ ex.result.error = exc.text ∧
      m'.totalCompleted = m.totalCompleted ∧ m'.totalFailed = m.totalFailed + 1
  retried : m'.totalRetried = m.totalRetried + last
  ending : ex.ending = .returned

/-- After `i` attempts that are all retried. -/
structure Retried (ex : Execution F V) (m m' : TaskMetrics) (i : Nat) : Prop where
  earlier : ∀ j < i, ∃ exc, around.attempt job j = .error exc ∧ job.policy.Covers exc
  calls : ∀ call, job.callable.apply job.args = .ok call → ex.calls = List.replicate i call
  result : ex.result.result = none
  completed : m'.totalCompleted = m.totalCompleted
  failed : m'.totalFailed = m.totalFailed
  retried : m'.totalRetried = m.totalRetried + i
  ending : ex.ending = .returned

end

variable {job : Job F V} {around : Surroundings V} {ex : Execution F V} {m m' : TaskMetrics}
  {i : Nat}

theorem outcome_environment (attempt : Nat) :
    Execution.outcome job around.environment attempt =
      match around.attempt job attempt with
      | .ok v => .value v
      | .error exc => .exception exc := by
  unfold Execution.outcome Surroundings.attempt Surroundings.environment
  cases job.callable.apply job.args <;> rfl

/-- The `TypeError` of a callable that does not take the arguments has a text, too. -/
theorem Surroundings.Readable.attempt (h : around.Readable) {attempt : Nat} {exc : Exc}
    (hexc : around.attempt job attempt = .error exc) : ∃ error, exc.text = some error := by
  unfold Surroundings.attempt at hexc
  cases happly : job.callable.apply job.args with
  | ok call =>
    rw [happly] at hexc
    exact h attempt exc hexc
  | error given =>
    rw [happly] at hexc
    obtain rfl : given = exc := Except.error.inj hexc
    obtain ⟨n, rfl⟩ := Callable.apply_error happly
    exact ⟨_, rfl⟩

theorem Retried.initial : Retried job around (.initial job) m m 0 where
  earlier := fun j hj => absurd hj (Nat.not_lt_zero j)
  calls := fun _ _ => rfl
  result := rfl
  completed := rfl
  failed := rfl
  retried := rfl
  ending := rfl

namespace Retried

theorem calls_attempted (h : Retried job around ex m m' i) {call : Call F V}
    (hcall : job.callable.apply job.args = .ok call) :
    (ex.attempted job i).calls = List.replicate (i + 1) call := by
  unfold Execution.attempted
  simp only [hcall]
  rw [h.calls call hcall, List.replicate_succ']

theorem retry (h : Retried job around ex m m' i) {exc : Exc}
    (hexc : around.attempt job i = .error exc) (hcovers : job.policy.Covers exc) (error : String) :
    Retried job around ((ex.attempted job i).erred error).retries m m'.recordRetry (i + 1) where
  earlier := by
    intro j hj
    rcases Nat.lt_succ_iff_lt_or_eq.mp hj with hlt | rfl
    · exact h.earlier j hlt
    · exact ⟨exc, hexc, hcovers⟩
  calls := fun _ hcall => h.calls_attempted hcall
  result := h.result
  completed := h.completed
  failed := h.failed
  retried := congrArg (· + 1) h.retried
  ending := h.ending

theorem success (h : Retried job around ex m m' i) (hle : i ≤ job.policy.maxRetries) {v : V}
    (hv : around.attempt job i = .ok v) (duration : ℚ) :
    Accounted job around ((ex.attempted job i).succeeded v) m (m'.recordComplete duration) i where
  le := hle
  earlier := h.earlier
  now := fun exc hexc => by rw [hv] at hexc; cases hexc
  attempts := rfl
  calls := fun _ hcall => h.calls_attempted hcall
  completes := by
    intro v' hv'
    obtain rfl : v = v' := Except.ok.inj (hv.symm.trans hv')
    exact ⟨rfl, rfl, congrArg (· + 1) h.completed, h.failed⟩
  fails := fun exc hexc => by rw [hv] at hexc; cases hexc
  retried := h.retried
  ending := h.ending

theorem failure (h : Retried job around ex m m' i) (hle : i ≤ job.policy.maxRetries) {exc : Exc}
    (hexc : around.attempt job i = .error exc) (hstop : ¬ job.policy.shouldRetry i exc = true)
    {error : String} (herror : exc.text = some error) :
    Accounted job around ((ex.attempted job i).erred error).fails m (m'.recordFailure error) i where
  le := hle
  earlier := h.earlier
  now := by
    intro exc' hexc'
    obtain rfl : exc = exc' := Except.error.inj (hexc.symm.trans hexc')
    rw [RetryPolicy.shouldRetry_iff, not_and_or, Nat.not_lt] at hstop
    exact hstop.imp_left hle.antisymm
  attempts := rfl
  calls := fun _ hcall => h.calls_attempted hcall
  completes := fun v hv => by rw [hexc] at hv; cases hv
  fails := by
    intro exc' hexc'
    obtain rfl : exc = exc' := Except.error.inj (hexc.symm.trans hexc')
    exact ⟨rfl, h.result, herror.symm, h.completed, congrArg (· + 1) h.failed⟩
  retried := h.retried
  ending := h.ending

end Retried

/-! ## The loop -/

theorem attempts_ok (hcontained : around.Contained) {v : V} (hv : around.attempt job i = .ok v)
    (left : Nat) (ex : Execution F V) (m : TaskMetrics) :
    Execution.attempts job around.environment (left + 1) i ex =
        (ex.attempted job i).succeeded v ∧
      metricsAfter job around (left + 1) i m = m.recordComplete (around.duration i) := by
  have hafter : around.environment.afterExits = false := fireExits_eq_false hcontained.after
  constructor
  · rw [Execution.attempts, outcome_environment, hv]
    simp only [hafter, Bool.false_eq_true, if_false]
  · rw [metricsAfter, hv]

theorem attempts_error (hcontained : around.Contained) {exc : Exc}
    (hexc : around.attempt job i = .error exc) {error : String} (htext : exc.text = some error)
    (hdelay : i < job.policy.maxRetries → sleepRaises (job.policy.getDelay i) = false)
    (left : Nat) (ex : Execution F V) (m : TaskMetrics) :
    Execution.attempts job around.environment (left + 1) i ex =
        (if job.policy.shouldRetry i exc then
          Execution.attempts job around.environment left (i + 1)
            ((ex.attempted job i).erred error).retries
        else ((ex.attempted job i).erred error).fails) ∧
      metricsAfter job around (left + 1) i m =
        if job.policy.shouldRetry i exc then metricsAfter job around left (i + 1) m.recordRetry
        else m.recordFailure error := by
  have hhooks : fireExits (around.hooksError i) = false := fireExits_eq_false (hcontained.error i)
  have herror : around.environment.errorExits i = false := hhooks
  -- only before the last attempt is the delay waited for
  have hsleeps : job.policy.shouldRetry i exc = true → ¬ sleepRaises (job.policy.getDelay i) = true := by
    intro hretry
    rw [hdelay ((RetryPolicy.shouldRetry_iff _ _ _).mp hretry).1]
    exact Bool.false_ne_true
  constructor
  · rw [Execution.attempts, outcome_environment, hexc]
    simp only [htext, herror, Bool.false_eq_true, if_false]
    split_ifs with hretry hsleep
    · exact absurd hsleep (hsleeps hretry)
    · rfl
    · rfl
  · rw [metricsAfter, hexc]
    simp only [htext, hhooks, Bool.false_eq_true, if_false]
    split_ifs with hretry hsleep
    · exact absurd hsleep (hsleeps hretry)
    · rfl
    · rfl

/-- Each attempt is the last or leads to the next; the one after `max_retries` retries is the
last. -/
theorem Retried.accounted (hcontained : around.Contained) (hreadable : around.Readable)
    (hdelay : ∀ attempt < job.policy.maxRetries, sleepRaises (job.policy.getDelay attempt) = false)
    {left : Nat} (hleft : i + left = job.policy.maxRetries + 1) (hle : i ≤ job.policy.maxRetries)
    (h : Retried job around ex m m' i) :
    ∃ last, Accounted job around (Execution.attempts job around.environment left i ex) m
      (metricsAfter job around left i m') last := by
  induction left generalizing i ex m' with
  | zero => omega
  | succ left ih =>
    cases hattempt : around.attempt job i with
    | ok v =>
      obtain ⟨hex, hm⟩ := attempts_ok hcontained hattempt left ex m'
      rw [hex, hm]
      exact ⟨i, h.success hle hattempt _⟩
    | error exc =>
      obtain ⟨error, htext⟩ := hreadable.attempt hattempt
      obtain ⟨hex, hm⟩ := attempts_error hcontained hattempt htext (hdelay i) left ex m'
      rw [hex, hm]
      by_cases hretry : job.policy.shouldRetry i exc = true
      · obtain ⟨hlt, hcovers⟩ := (RetryPolicy.shouldRetry_iff _ _ _).mp hretry
        rw [if_pos hretry, if_pos hretry]
        exact ih (by omega) hlt (h.retry hattempt hcovers error)
      · rw [if_neg hretry, if_neg hretry]
        exact ⟨i, h.failure hle hattempt hretry htext⟩

/-- The result is stored under its own id. -/
theorem TaskScheduler.getResult_record (g : TaskScheduler F V) (place : Place F V)
    (env : Environment V) (h : (executeWithRetry job env).ending = .returned) :
    (g.record place (executeWithRetry job env)).getResult (taskId job.number) =
      some (executeWithRetry job env).result := by
  unfold TaskScheduler.record
  simp only [h, if_true]
  rw [getResult_store, taskId_executeWithRetry, if_pos rfl]

/-- Under hooks that raise nothing but `Exception`s, exceptions that have a text and delays that
`time.sleep` takes, an execution is accounted for, and its result is stored. -/
theorem executeWithRetry_accounted (job : Job F V) (around : Surroundings V)
    (hcontained : around.Contained) (hreadable : around.Readable)
    (hdelay : ∀ attempt < job.policy.maxRetries, sleepRaises (job.policy.getDelay attempt) = false)
    (m : TaskMetrics) (g : TaskScheduler F V) (place : Place F V) :
    (∃ last, Accounted job around (executeWithRetry job around.environment) m
        (executionMetrics job around m) last) ∧
      (g.record place (executeWithRetry job around.environment)).getResult (taskId job.number) =
        some (executeWithRetry job around.environment).result := by
  have hhooks : fireExits around.hooksBefore = false := fireExits_eq_false hcontained.before
  have hbefore : around.environment.beforeExits = false := hhooks
  have haccounted : ∃ last, Accounted job around (executeWithRetry job around.environment) m
      (executionMetrics job around m) last := by
    unfold executeWithRetry executionMetrics
    rw [hbefore, hhooks]
    exact Retried.initial.accounted hcontained hreadable hdelay (Nat.zero_add _) (Nat.zero_le _)
  obtain ⟨last, h⟩ := haccounted
  exact ⟨⟨last, h⟩, g.getResult_record place _ h.ending⟩

/-! ## Executions that lose their result -/

def transientError : Exc := ⟨"RuntimeError", some "transient"⟩

/-- Its `__str__` raises. -/
def unreadableError : Exc := ⟨"RuntimeError", none⟩

/-- Fails twice, under a hook that raises, and then returns. -/
def flaky : Surroundings Nat where
  outcome := fun attempt => if attempt < 2 then .error transientError else .ok 7
  duration := fun _ => 0
  hooksBefore := [.raised transientError, .returned]
  hooksAfter := [.raised transientError]
  hooksError := fun _ => []

theorem flaky_readable : flaky.Readable := by
  intro attempt exc h
  unfold flaky at h
  dsimp only at h
  split_ifs at h
  obtain rfl : transientError = exc := Except.error.inj h
  exact ⟨_, rfl⟩

def flakyJob (backoff : ℚ) : Job Unit Nat :=
  ⟨.plain (), [], ⟨3, backoff, 2, 60, none⟩, "flaky", 1⟩

theorem flaky_accounted :
    (∃ last, Accounted (flakyJob 1) flaky (executeWithRetry (flakyJob 1) flaky.environment) .zero
        (executionMetrics (flakyJob 1) flaky .zero) last) ∧
      ((System.start newYear).shared.record (.interval 0)
          (executeWithRetry (flakyJob 1) flaky.environment)).getResult (taskId 1) =
        some (executeWithRetry (flakyJob 1) flaky.environment).result :=
  executeWithRetry_accounted (flakyJob 1) flaky ⟨by simp [flaky], by simp [flaky], fun _ => by simp [flaky]⟩
    flaky_readable (by decide +kernel) .zero (System.start newYear).shared (.interval 0)

/-- Whatever the metrics were: an execution that does not return is not accounted for. -/
theorem not_accounted {job : Job F V} {around : Surroundings V} {ex : Execution F V}
    {m m' : TaskMetrics} (h : ex.ending ≠ .returned) : ¬ ∃ last, Accounted job around ex m m' last :=
  fun ⟨_, haccounted⟩ => h haccounted.ending

/-- A negative delay, a hook that exits, or an exception without a text ends an execution before its
result is stored. -/
theorem impatient_and_exiting_lose_result :
    ¬ (∃ last, Accounted (flakyJob (-1)) flaky (executeWithRetry (flakyJob (-1)) flaky.environment)
        .zero (executionMetrics (flakyJob (-1)) flaky .zero) last) ∧
      (¬ ∃ last, Accounted (flakyJob 1) { flaky with hooksAfter := [.exited] }
        (executeWithRetry (flakyJob 1)
          (Surroundings.environment { flaky with hooksAfter := [.exited] }))
        .zero (executionMetrics (flakyJob 1) { flaky with hooksAfter := [.exited] } .zero) last) ∧
      ¬ ∃ last, Accounted (flakyJob 1) { flaky with outcome := fun _ => .error unreadableError }
        (executeWithRetry (flakyJob 1)
          (Surroundings.environment { flaky with outcome := fun _ => .error unreadableError }))
        .zero
        (executionMetrics (flakyJob 1) { flaky with outcome := fun _ => .error unreadableError } .zero)
        last := by
  refine ⟨not_accounted ?_, not_accounted ?_, not_accounted ?_⟩
  · decide +kernel
  · decide +kernel
  · decide +kernel

end Hypern.Scheduler
