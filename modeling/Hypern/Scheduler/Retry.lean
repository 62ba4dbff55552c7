import Mathlib.Algebra.Order.Ring.Rat

/-! `RetryPolicy` and `_execute_with_retry` of the task scheduler. What happens outside of the
scheduler during one execution is an `Environment`. -/

namespace Hypern.Scheduler

/-- An instance of a subclass of `Exception`, with what `str()` makes of it: nothing where its
`__str__` raises an `Exception` itself. -/
structure Exc where
  typeName : String
  message : Option String

/-- The text that `_execute_with_retry` makes of an exception. -/
def Exc.text (exc : Exc) : Option String := exc.message.map (exc.typeName ++ ": " ++ ·)

/-- `exit` is an exception that is no `Exception`, such as `SystemExit`, from the call or from
`str()` of what it raises. -/
inductive Outcome (V : Type)
  | value (v : V)
  | exception (exc : Exc)
  | exit

/-- `retryOn` is `isinstance` with the types of `retry_on`. -/
structure RetryPolicy where
  maxRetries : Nat
  backoff : ℚ
  backoffFactor : ℚ
  maxDelay : ℚ
  retryOn : Option (Exc → Bool)

namespace RetryPolicy

/-- `RetryPolicy(max_retries=0)`. -/
def noRetries : RetryPolicy := ⟨0, 1, 2, 60, none⟩

def shouldRetry (policy : RetryPolicy) (attempt : Nat) (exc : Exc) : Bool :=
  if attempt ≥ policy.maxRetries then false
  else match policy.retryOn with
    | some isInstance => isInstance exc
    | none => true

def getDelay (policy : RetryPolicy) (attempt : Nat) : ℚ :=
  min (policy.backoff * policy.backoffFactor ^ attempt) policy.maxDelay

end RetryPolicy

/-- `time.sleep` refuses a negative delay, and one of `2 ^ 63` nanoseconds or more. -/
def sleepRaises (delay : ℚ) : Bool := delay < 0 || 2 ^ 63 ≤ delay * 10 ^ 9

inductive ScheduledTaskState
  | pending | running | completed | failed | retrying | cancelled
  deriving DecidableEq

structure ScheduledTaskResult (V : Type) where
  taskId : String
  taskName : String
  state : ScheduledTaskState
  result : Option V
  error : Option String
  attempts : Nat
  nextRun : Option ℤ

/-- A call `func(*args, **kwargs)`. -/
structure Call (F V : Type) where
  func : F
  args : List V
  kwargs : List (String × V)

/-- What the scheduler calls: a function, or the closure that `wrapper` makes of one. -/
inductive Callable (F V : Type)
  | plain (func : F)
  | runner (call : Call F V)

variable {F V : Type}

def runnerName : String :=
  "TaskScheduler.task.<locals>.decorator.<locals>.wrapper.<locals>.runner()"

def runnerTypeError (given : Nat) : Exc :=
  ⟨"TypeError", some (runnerName ++ " takes 0 positional arguments but " ++ toString given ++
    if given = 1 then " was given" else " were given")⟩

/-- `func(*args) if args else func()`: the call this comes to. -/
def Callable.apply : Callable F V → List V → Except Exc (Call F V)
  | .plain func, args => .ok ⟨func, args, []⟩
  | .runner call, [] => .ok call
  | .runner _, args => .error (runnerTypeError args.length)

/-- The outcome of each attempt, and whether a hook of the monitor raises something that is no
`Exception`. -/
structure Environment (V : Type) where
  outcome : Nat → Outcome V
  beforeExits : Bool
  afterExits : Bool
  errorExits : Nat → Bool

/-- The arguments of `_execute_with_retry`, with the number of its id. -/
structure Job (F V : Type) where
  callable : Callable F V
  args : List V
  policy : RetryPolicy
  taskName : String
  number : Nat

def taskId (number : Nat) : String := "sched-" ++ toString number

inductive Ending
  | returned | raised | exited
  deriving DecidableEq

/-- What one execution does: the calls it makes, the record it ends with, and what it adds to the
metrics. -/
structure Execution (F V : Type) where
  calls : List (Call F V)
  result : ScheduledTaskResult V
  completed : Nat
  failed : Nat
  retried : Nat
  ending : Ending

namespace Execution

def initial (job : Job F V) : Execution F V :=
  ⟨[], ⟨taskId job.number, job.taskName, .running, none, none, 0, none⟩, 0, 0, 0, .returned⟩

/-- What the attempt comes to: a callable that does not take the arguments is not called. -/
def outcome (job : Job F V) (env : Environment V) (attempt : Nat) : Outcome V :=
  match job.callable.apply job.args with
  | .ok _ => env.outcome attempt
  | .error exc => .exception exc

def attempted (ex : Execution F V) (job : Job F V) (attempt : Nat) : Execution F V :=
  { ex with
    calls := match job.callable.apply job.args with
      | .ok call => ex.calls ++ [call]
      | .error _ => ex.calls
    result := { ex.result with attempts := attempt + 1 } }

def succeeded (ex : Execution F V) (v : V) : Execution F V :=
  { ex with
    result := { ex.result with result := some v, state := .completed }
    completed := ex.completed + 1 }

def erred (ex : Execution F V) (error : String) : Execution F V :=
  { ex with result := { ex.result with error := some error } }

def retries (ex : Execution F V) : Execution F V :=
  { ex with
    result := { ex.result with state := .retrying }
    retried := ex.retried + 1 }

def fails (ex : Execution F V) : Execution F V :=
  { ex with
    result := { ex.result with state := .failed }
    failed := ex.failed + 1 }

/-- The loop `for attempt in range(policy.max_retries + 1)`, with `left` attempts to go. -/
def attempts (job : Job F V) (env : Environment V) :
    (left attempt : Nat) → Execution F V → Execution F V
  | 0, _, ex => ex
  | left + 1, attempt, ex =>
    match outcome job env attempt with
    | .exit => { ex.attempted job attempt with ending := .exited }
    | .value v =>
      if env.afterExits then { (ex.attempted job attempt).succeeded v with ending := .exited }
      else (ex.attempted job attempt).succeeded v
    | .exception exc =>
      match exc.text with
      -- `str()` raises inside of the handler, which is left before anything is recorded
      | none => { ex.attempted job attempt with ending := .raised }
      | some error =>
        if env.errorExits attempt then
          { (ex.attempted job attempt).erred error with ending := .exited }
        else if job.policy.shouldRetry attempt exc then
          if sleepRaises (job.policy.getDelay attempt) then
            { ((ex.attempted job attempt).erred error).retries with ending := .raised }
          else attempts job env left (attempt + 1) ((ex.attempted job attempt).erred error).retries
        else ((ex.attempted job attempt).erred error).fails

end Execution

def executeWithRetry (job : Job F V) (env : Environment V) : Execution F V :=
  if env.beforeExits then { Execution.initial job with ending := .exited }
  else Execution.attempts job env (job.policy.maxRetries + 1) 0 (.initial job)

theorem Callable.apply_error {callable : Callable F V} {args : List V} {exc : Exc}
    (h : callable.apply args = .error exc) : ∃ given, exc = runnerTypeError given := by
  cases callable with
  | plain func => cases h
  | runner call =>
    cases args with
    | nil => cases h
    | cons arg args =>
      cases h
      exact ⟨_, rfl⟩

theorem taskId_injective : Function.Injective taskId := by
  intro m n h
  have hrepr : m.repr = n.repr := (String.append_right_inj _).mp h
  have hdigits : Nat.toDigits 10 m = Nat.toDigits 10 n := by
    rw [← Nat.toList_repr, ← Nat.toList_repr, hrepr]
  rw [← @Nat.ofDigitChars_ten_toDigits m, hdigits, Nat.ofDigitChars_ten_toDigits]

theorem Execution.taskId_attempts (job : Job F V) (env : Environment V) (left attempt : Nat)
    (ex : Execution F V) : (attempts job env left attempt ex).result.taskId = ex.result.taskId := by
  induction left generalizing attempt ex with
  | zero => rfl
  | succ left ih =>
    unfold attempts
    split
    · rfl
    · split_ifs <;> rfl
    · split
      · rfl
      · split_ifs
        · rfl
        · rfl
        · exact ih _ _
        · rfl

theorem taskId_executeWithRetry (job : Job F V) (env : Environment V) :
    (executeWithRetry job env).result.taskId = taskId job.number := by
  unfold executeWithRetry
  split_ifs
  · rfl
  · exact Execution.taskId_attempts job env _ _ _

end Hypern.Scheduler
