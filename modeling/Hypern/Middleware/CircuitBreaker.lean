import Hypern.Lib.Table
import Hypern.Middleware.Context

/-! The circuit breaker: one circuit for each path, and what its state says about the calls
that were made for the path. Each call is one step for the circuit, since it holds the lock of
its state throughout. -/

namespace Hypern.Middleware

open Lib

inductive CircuitState
  | closed | opened | halfOpen
  deriving DecidableEq

/-- Times are in nanoseconds. -/
structure CircuitBreakerConfig where
  failureThreshold : Nat := 5
  successThreshold : Nat := 2
  timeout : Nat := 30 * 10 ^ 9
  paths : List String := []

namespace CircuitBreakerConfig

variable (config : CircuitBreakerConfig)

/-- `execute` applies to the path. -/
def covers (path : String) : Bool :=
  config.paths.isEmpty || config.paths.any fun p => p.toList.isPrefixOf path.toList

/-- A threshold of zero acts as one. -/
def failuresToOpen : Nat := max config.failureThreshold 1

def successesToClose : Nat := max config.successThreshold 1

end CircuitBreakerConfig

structure CircuitBreakerState where
  state : CircuitState := .closed
  failureCount : Nat := 0
  successCount : Nat := 0
  lastFailureAt : Option Nat := none

namespace CircuitBreakerState

variable (config : CircuitBreakerConfig) (now : Nat) (cb : CircuitBreakerState)

def recordSuccess : CircuitBreakerState :=
  match cb.state with
  | .halfOpen =>
    let sc := cb.successCount + 1
    if config.successThreshold ≤ sc then
      { cb with state := .closed, failureCount := 0, successCount := 0 }
    else { cb with successCount := sc }
  | .closed => { cb with failureCount := 0 }
  | .opened => cb

def recordFailure : CircuitBreakerState :=
  match cb.state with
  | .closed =>
    let fc := cb.failureCount + 1
    if config.failureThreshold ≤ fc then
      { cb with state := .opened, failureCount := fc, lastFailureAt := some now }
    else { cb with failureCount := fc }
  | .halfOpen => { cb with state := .opened, lastFailureAt := some now, successCount := 0 }
  | .opened => { cb with lastFailureAt := some now }

/-- `elapsed` is zero where the clock has gone back. -/
def shouldHalfOpen : Bool :=
  match cb.lastFailureAt with
  | some t => decide (config.timeout ≤ now - t)
  | none => false

end CircuitBreakerState

structure CircuitBreakerMiddleware where
  config : CircuitBreakerConfig
  circuits : Table String CircuitBreakerState

namespace MiddlewareResponse

def serviceUnavailable (message : String) : MiddlewareResponse :=
  withTextBody ⟨503, [], []⟩ message

end MiddlewareResponse

namespace CircuitBreakerMiddleware

def new (config : CircuitBreakerConfig) : CircuitBreakerMiddleware := ⟨config, ∅⟩

variable (mw : CircuitBreakerMiddleware)

/-- The circuit of the path; a path without one gets a new one. -/
def circuit (path : String) : CircuitBreakerState := (mw.circuits.lookup path).getD {}

def put (path : String) (cb : CircuitBreakerState) : CircuitBreakerMiddleware :=
  { mw with circuits := mw.circuits.insert path cb }

def recordSuccess (path : String) : CircuitBreakerMiddleware :=
  match mw.circuits.lookup path with
  | some cb => mw.put path (cb.recordSuccess mw.config)
  | none => mw

def recordFailure (now : Nat) (path : String) : CircuitBreakerMiddleware :=
  mw.put path ((mw.circuit path).recordFailure mw.config now)

def getState (path : String) : CircuitState := (mw.circuit path).state

def execute (now : Nat) (ctx : MiddlewareContext) :
    MiddlewareResult × MiddlewareContext × CircuitBreakerMiddleware :=
  if !mw.config.covers ctx.path then (.next, ctx, mw)
  else
    let cb := mw.circuit ctx.path
    match cb.state with
    | .opened =>
      if cb.shouldHalfOpen mw.config now then
        (.next, ctx.setState "circuit_breaker_state" (.string "half_open"),
          mw.put ctx.path { cb with state := .halfOpen, successCount := 0 })
      else
        (.response ((MiddlewareResponse.serviceUnavailable
            "Service temporarily unavailable (circuit open)").withHeader "Retry-After"
            (toString (mw.config.timeout / 10 ^ 9))), ctx, mw.put ctx.path cb)
    | .halfOpen =>
      (.next, ctx.setState "circuit_breaker_state" (.string "half_open"), mw.put ctx.path cb)
    | .closed =>
      (.next, ctx.setState "circuit_breaker_state" (.string "closed"), mw.put ctx.path cb)

end CircuitBreakerMiddleware

/-! ## Runs -/

inductive BreakerCall
  | execute (now : Nat) (ctx : MiddlewareContext)
  | recordSuccess (path : String)
  | recordFailure (now : Nat) (path : String)

namespace BreakerCall

def path : BreakerCall → String
  | .execute _ ctx => ctx.path
  | .recordSuccess path => path
  | .recordFailure _ path => path

def succeeds (path : String) : BreakerCall → Bool
  | .recordSuccess p => decide (p = path)
  | _ => false

/-- When the call records a failure for the path. -/
def failedAt (path : String) : BreakerCall → Option Nat
  | .recordFailure now p => if p = path then some now else none
  | _ => none

def fails (path : String) (call : BreakerCall) : Bool := (call.failedAt path).isSome

end BreakerCall

namespace CircuitBreakerMiddleware

def step (mw : CircuitBreakerMiddleware) : BreakerCall → CircuitBreakerMiddleware
  | .execute now ctx => (mw.execute now ctx).2.2
  | .recordSuccess path => mw.recordSuccess path
  | .recordFailure now path => mw.recordFailure now path

/-- A new breaker after the calls, the latest of which is the first in the list. -/
def after (config : CircuitBreakerConfig) : List BreakerCall → CircuitBreakerMiddleware
  | [] => new config
  | call :: earlier => (after config earlier).step call

end CircuitBreakerMiddleware

section History

open CircuitBreakerMiddleware

variable (config : CircuitBreakerConfig) (path : String)

/-- The calls, each with the state that it left the circuit of the path in. -/
def history : List BreakerCall → List (BreakerCall × CircuitState)
  | [] => []
  | call :: earlier => (call, (after config (call :: earlier)).getState path) :: history earlier

/-- The failures since the circuit last became closed, or since the last success if that is
later. -/
def failuresInARow (calls : List BreakerCall) : Nat :=
  ((history config path calls).takeWhile fun e => decide (e.2 = .closed) && !e.1.succeeds path).countP
    fun e => e.1.fails path

/-- The successes since the circuit last became half open. -/
def successesInHalfOpen (calls : List BreakerCall) : Nat :=
  ((history config path calls).takeWhile fun e => decide (e.2 = .halfOpen)).countP
    fun e => e.1.succeeds path

def lastFailure (calls : List BreakerCall) : Option Nat := calls.findSome? (·.failedAt path)

/-! ## What a call does to one circuit -/

/-- What `execute` leaves of the circuit of a covered path. -/
def CircuitBreakerState.letThrough (now : Nat) (cb : CircuitBreakerState) : CircuitBreakerState :=
  if cb.state = .opened ∧ cb.shouldHalfOpen config now = true then
    { cb with state := .halfOpen, successCount := 0 }
  else cb

/-- What a call for the path of the circuit leaves of it. -/
def BreakerCall.act : BreakerCall → CircuitBreakerState → CircuitBreakerState
  | .execute now ctx, cb => if config.covers ctx.path then cb.letThrough config now else cb
  | .recordSuccess _, cb => cb.recordSuccess config
  | .recordFailure now _, cb => cb.recordFailure config now

namespace CircuitBreakerMiddleware

variable {config path}

theorem lookup_put (mw : CircuitBreakerMiddleware) (other : String) (cb : CircuitBreakerState) :
    (mw.put path cb).circuits.lookup other =
      if other = path then some cb else mw.circuits.lookup other := Table.lookup_insert_eq ..

theorem circuit_put (mw : CircuitBreakerMiddleware) (cb : CircuitBreakerState) :
    (mw.put path cb).circuit path = cb := by
  unfold circuit
  rw [lookup_put, if_pos rfl]
  rfl

theorem execute_eq (mw : CircuitBreakerMiddleware) (now : Nat) (ctx : MiddlewareContext) :
    (mw.execute now ctx).2.2 = if mw.config.covers ctx.path then
      mw.put ctx.path ((mw.circuit ctx.path).letThrough mw.config now) else mw := by
  unfold execute CircuitBreakerState.letThrough
  cases hcovers : mw.config.covers ctx.path with
  | false => rfl
  | true =>
    cases hstate : (mw.circuit ctx.path).state with
    | opened =>
      cases hopen : (mw.circuit ctx.path).shouldHalfOpen mw.config now <;> simp [hstate, hopen]
    | closed => simp [hstate]
    | halfOpen => simp [hstate]

theorem step_config (mw : CircuitBreakerMiddleware) (call : BreakerCall) :
    (mw.step call).config = mw.config := by
  cases call with
  | execute now ctx =>
    unfold step
    dsimp only
    rw [execute_eq]
    split_ifs <;> rfl
  | recordSuccess path =>
    unfold step recordSuccess
    dsimp only
    cases mw.circuits.lookup path <;> rfl
  | recordFailure now path => rfl

/-- Calls for other paths leave the circuit of this one alone. -/
theorem lookup_step_of_ne (mw : CircuitBreakerMiddleware) {call : BreakerCall}
    (h : call.path ≠ path) : (mw.step call).circuits.lookup path = mw.circuits.lookup path := by
  cases call with
  | execute now ctx =>
    unfold step
    dsimp only
    rw [execute_eq]
    split_ifs
    · exact (lookup_put ..).trans (if_neg (Ne.symm h))
    · rfl
  | recordSuccess p =>
    unfold step recordSuccess
    dsimp only
    cases mw.circuits.lookup p with
    | none => rfl
    | some cb => exact (lookup_put ..).trans (if_neg (Ne.symm h))
  | recordFailure now p => exact (lookup_put ..).trans (if_neg (Ne.symm h))

theorem circuit_step (mw : CircuitBreakerMiddleware) (call : BreakerCall) :
    (mw.step call).circuit path =
      if call.path = path then call.act mw.config (mw.circuit path) else mw.circuit path := by
  split_ifs with h
  · subst h
    cases call with
    | execute now ctx =>
      unfold step BreakerCall.act
      dsimp only
      rw [execute_eq]
      unfold BreakerCall.path
      split_ifs
      · rw [circuit_put]
      · rfl
    | recordSuccess p =>
      unfold step recordSuccess BreakerCall.path
      dsimp only
      cases hp : mw.circuits.lookup p with
      | none =>
        have hnew : mw.circuit p = {} := by
          unfold circuit
          rw [hp]
          rfl
        rw [hnew]
        rfl
      | some cb =>
        have hold : mw.circuit p = cb := by
          unfold circuit
          rw [hp]
          rfl
        rw [hold, circuit_put]
        rfl
    | recordFailure now p => exact circuit_put ..
  · unfold circuit
    rw [lookup_step_of_ne mw h]

theorem after_config (calls : List BreakerCall) : (after config calls).config = config := by
  induction calls with
  | nil => rfl
  | cons call earlier ih => exact (step_config ..).trans ih

theorem circuit_after_cons (call : BreakerCall) (earlier : List BreakerCall) :
    (after config (call :: earlier)).circuit path =
      if call.path = path then call.act config ((after config earlier).circuit path)
      else (after config earlier).circuit path := by
  have hstep : ((after config earlier).step call).circuit path = _ := circuit_step _ call
  rwa [after_config] at hstep

/-! ## What the history says about the circuit -/

theorem getState_cons (call : BreakerCall) (earlier : List BreakerCall) :
    (after config (call :: earlier)).getState path =
      (if call.path = path then call.act config ((after config earlier).circuit path)
        else (after config earlier).circuit path).state :=
  congrArg CircuitBreakerState.state (circuit_after_cons call earlier)

theorem failuresInARow_cons (call : BreakerCall) (earlier : List BreakerCall) :
    failuresInARow config path (call :: earlier) =
      if (after config (call :: earlier)).getState path = .closed ∧ call.succeeds path = false then
        failuresInARow config path earlier + (if call.fails path then 1 else 0)
      else 0 := by
  unfold failuresInARow
  rw [history, List.takeWhile_cons]
  split_ifs <;> simp_all

theorem successesInHalfOpen_cons (call : BreakerCall) (earlier : List BreakerCall) :
    successesInHalfOpen config path (call :: earlier) =
      if (after config (call :: earlier)).getState path = .halfOpen then
        successesInHalfOpen config path earlier + (if call.succeeds path then 1 else 0)
      else 0 := by
  unfold successesInHalfOpen
  rw [history, List.takeWhile_cons]
  split_ifs <;> simp_all

theorem lastFailure_cons (call : BreakerCall) (earlier : List BreakerCall) :
    lastFailure path (call :: earlier) = (call.failedAt path).or (lastFailure path earlier) := by
  unfold lastFailure
  rw [List.findSome?_cons]
  cases call.failedAt path <;> rfl

/-- A call for another path is no success and no failure of this one. -/
theorem silent_of_ne {call : BreakerCall} (h : call.path ≠ path) :
    call.succeeds path = false ∧ call.failedAt path = none := by
  cases call with
  | execute now ctx => exact ⟨rfl, rfl⟩
  | recordSuccess p => exact ⟨decide_eq_false h, rfl⟩
  | recordFailure now p => exact ⟨rfl, if_neg h⟩

variable (config path) in
/-- The counters and the time of a circuit are those of the history, as far as its state makes
use of them. -/
structure Tracks (calls : List BreakerCall) (cb : CircuitBreakerState) : Prop where
  opened : cb.state = .opened →
    cb.lastFailureAt = lastFailure path calls ∧ (lastFailure path calls).isSome
  closed : cb.state = .closed →
    cb.failureCount = failuresInARow config path calls ∧ cb.failureCount < config.failuresToOpen
  halfOpen : cb.state = .halfOpen →
    cb.successCount = successesInHalfOpen config path calls ∧
      cb.successCount < config.successesToClose

variable {calls earlier : List BreakerCall} {cb : CircuitBreakerState} {call : BreakerCall}

theorem Tracks.of_opened (hstate : cb.state = .opened)
    (hlast : cb.lastFailureAt = lastFailure path calls) (hsome : (lastFailure path calls).isSome) :
    Tracks config path calls cb where
  opened _ := ⟨hlast, hsome⟩
  closed h := absurd (hstate.symm.trans h) nofun
  halfOpen h := absurd (hstate.symm.trans h) nofun

theorem Tracks.of_closed (hstate : cb.state = .closed)
    (hcount : cb.failureCount = failuresInARow config path calls)
    (hlt : cb.failureCount < config.failuresToOpen) : Tracks config path calls cb where
  opened h := absurd (hstate.symm.trans h) nofun
  closed _ := ⟨hcount, hlt⟩
  halfOpen h := absurd (hstate.symm.trans h) nofun

theorem Tracks.of_halfOpen (hstate : cb.state = .halfOpen)
    (hcount : cb.successCount = successesInHalfOpen config path calls)
    (hlt : cb.successCount < config.successesToClose) : Tracks config path calls cb where
  opened h := absurd (hstate.symm.trans h) nofun
  closed h := absurd (hstate.symm.trans h) nofun
  halfOpen _ := ⟨hcount, hlt⟩

theorem successesInHalfOpen_eq_zero (h : (after config calls).getState path ≠ .halfOpen) :
    successesInHalfOpen config path calls = 0 := by
  cases calls with
  | nil => rfl
  | cons call earlier => rw [successesInHalfOpen_cons, if_neg h]

/-- A call that records nothing and leaves the circuit alone. -/
theorem Tracks.quiet (h : Tracks config path earlier ((after config earlier).circuit path))
    (hsame : (after config (call :: earlier)).circuit path = (after config earlier).circuit path)
    (hsucceeds : call.succeeds path = false) (hfailed : call.failedAt path = none) :
    Tracks config path (call :: earlier) ((after config (call :: earlier)).circuit path) := by
  have hfails : call.fails path = false := by
    unfold BreakerCall.fails
    rw [hfailed]
    rfl
  have hlast : lastFailure path (call :: earlier) = lastFailure path earlier := by
    rw [lastFailure_cons, hfailed, Option.none_or]
  have hget : (after config (call :: earlier)).getState path =
      ((after config earlier).circuit path).state := congrArg CircuitBreakerState.state hsame
  rw [hsame]
  constructor
  · intro hstate
    rw [hlast]
    exact h.opened hstate
  · intro hstate
    rw [failuresInARow_cons, if_pos ⟨hget.trans hstate, hsucceeds⟩, hfails]
    exact h.closed hstate
  · intro hstate
    rw [successesInHalfOpen_cons, if_pos (hget.trans hstate), hsucceeds]
    exact h.halfOpen hstate

theorem tracks_execute (now : Nat) (ctx : MiddlewareContext)
    (h : Tracks config ctx.path earlier ((after config earlier).circuit ctx.path)) :
    Tracks config ctx.path (.execute now ctx :: earlier)
      ((after config (.execute now ctx :: earlier)).circuit ctx.path) := by
  set cb := (after config earlier).circuit ctx.path with hcb
  have hcircuit : (after config (.execute now ctx :: earlier)).circuit ctx.path =
      if config.covers ctx.path then cb.letThrough config now else cb :=
    (circuit_after_cons ..).trans (if_pos rfl)
  by_cases hhalfOpens : config.covers ctx.path = true ∧ cb.state = .opened ∧
      cb.shouldHalfOpen config now = true
  · have hnew : (after config (.execute now ctx :: earlier)).circuit ctx.path =
        { cb with state := .halfOpen, successCount := 0 } := by
      rw [hcircuit, if_pos hhalfOpens.1, CircuitBreakerState.letThrough, if_pos hhalfOpens.2]
    have hzero : successesInHalfOpen config ctx.path earlier = 0 := by
      refine successesInHalfOpen_eq_zero fun hhalf => ?_
      exact absurd (hhalfOpens.2.1.symm.trans hhalf) nofun
    rw [hnew]
    refine .of_halfOpen rfl ?_ (Nat.lt_of_lt_of_le Nat.zero_lt_one (Nat.le_max_right ..))
    have hget : (after config (.execute now ctx :: earlier)).getState ctx.path = .halfOpen :=
      congrArg CircuitBreakerState.state hnew
    rw [successesInHalfOpen_cons, if_pos hget, hzero]
    rfl
  · have hsame : (after config (.execute now ctx :: earlier)).circuit ctx.path = cb := by
      rw [hcircuit]
      split_ifs with hcovers
      · exact if_neg fun hopen => hhalfOpens ⟨hcovers, hopen⟩
      · rfl
    exact h.quiet hsame rfl rfl

theorem tracks_recordSuccess (h : Tracks config path earlier ((after config earlier).circuit path)) :
    Tracks config path (.recordSuccess path :: earlier)
      ((after config (.recordSuccess path :: earlier)).circuit path) := by
  set cb := (after config earlier).circuit path with hcb
  have hcircuit : (after config (.recordSuccess path :: earlier)).circuit path =
      cb.recordSuccess config := (circuit_after_cons ..).trans (if_pos rfl)
  have hsucceeds : (BreakerCall.recordSuccess path).succeeds path = true := decide_eq_true rfl
  have hinARow : failuresInARow config path (.recordSuccess path :: earlier) = 0 := by
    rw [failuresInARow_cons, if_neg fun hboth => by simp [hsucceeds] at hboth]
  have hpositive : 0 < config.failuresToOpen :=
    Nat.lt_of_lt_of_le Nat.zero_lt_one (Nat.le_max_right ..)
  unfold CircuitBreakerState.recordSuccess at hcircuit
  cases hstate : cb.state with
  | opened =>
    simp only [hstate] at hcircuit
    obtain ⟨hlast, hsome⟩ := h.opened hstate
    rw [hcircuit]
    exact .of_opened hstate hlast hsome
  | closed =>
    simp only [hstate] at hcircuit
    rw [hcircuit]
    exact .of_closed rfl hinARow.symm hpositive
  | halfOpen =>
    obtain ⟨hcount, -⟩ := h.halfOpen hstate
    simp only [hstate] at hcircuit
    split_ifs at hcircuit with hreached
    · rw [hcircuit]
      exact .of_closed rfl hinARow.symm hpositive
    · have hget : (after config (.recordSuccess path :: earlier)).getState path = .halfOpen :=
        congrArg CircuitBreakerState.state hcircuit
      rw [hcircuit]
      refine .of_halfOpen rfl ?_ (Nat.lt_of_lt_of_le (Nat.lt_of_not_le hreached)
        (Nat.le_max_left ..))
      rw [successesInHalfOpen_cons, if_pos hget, hsucceeds, if_pos rfl, ← hcount]

theorem tracks_recordFailure (now : Nat)
    (h : Tracks config path earlier ((after config earlier).circuit path)) :
    Tracks config path (.recordFailure now path :: earlier)
      ((after config (.recordFailure now path :: earlier)).circuit path) := by
  set cb := (after config earlier).circuit path with hcb
  have hcircuit : (after config (.recordFailure now path :: earlier)).circuit path =
      cb.recordFailure config now := (circuit_after_cons ..).trans (if_pos rfl)
  have hfailed : (BreakerCall.recordFailure now path).failedAt path = some now := if_pos rfl
  have hlast : lastFailure path (.recordFailure now path :: earlier) = some now := by
    rw [lastFailure_cons, hfailed, Option.some_or]
  have hsome : (lastFailure path (.recordFailure now path :: earlier)).isSome := by
    rw [hlast]
    rfl
  unfold CircuitBreakerState.recordFailure at hcircuit
  cases hstate : cb.state with
  | opened =>
    simp only [hstate] at hcircuit
    rw [hcircuit]
    exact .of_opened rfl hlast.symm hsome
  | closed =>
    obtain ⟨hcount, -⟩ := h.closed hstate
    simp only [hstate] at hcircuit
    split_ifs at hcircuit with hreached
    · rw [hcircuit]
      exact .of_opened rfl hlast.symm hsome
    · have hget : (after config (.recordFailure now path :: earlier)).getState path = .closed :=
        congrArg CircuitBreakerState.state hcircuit
      have hfails : (BreakerCall.recordFailure now path).fails path = true := by
        unfold BreakerCall.fails
        rw [hfailed]
        rfl
      rw [hcircuit]
      refine .of_closed rfl ?_ (Nat.lt_of_lt_of_le (Nat.lt_of_not_le hreached)
        (Nat.le_max_left ..))
      rw [failuresInARow_cons, if_pos ⟨hget, rfl⟩, hfails, if_pos rfl, ← hcount]
  | halfOpen =>
    simp only [hstate] at hcircuit
    rw [hcircuit]
    exact .of_opened rfl hlast.symm hsome

theorem tracks_after (calls : List BreakerCall) :
    Tracks config path calls ((after config calls).circuit path) := by
  induction calls with
  | nil => exact .of_closed rfl rfl (Nat.lt_of_lt_of_le Nat.zero_lt_one (Nat.le_max_right ..))
  | cons call earlier ih =>
    by_cases hpath : call.path = path
    · subst hpath
      cases call with
      | execute now ctx => exact tracks_execute now ctx ih
      | recordSuccess p => exact tracks_recordSuccess ih
      | recordFailure now p => exact tracks_recordFailure now ih
    · obtain ⟨hsucceeds, hfailed⟩ := silent_of_ne hpath
      exact ih.quiet ((circuit_after_cons ..).trans (if_neg hpath)) hsucceeds hfailed

/-- Of the calls only those for the path itself show in its state. -/
theorem getState_of_ne (hpath : call.path ≠ path) :
    (after config (call :: calls)).getState path = (after config calls).getState path ∧
      call.fails path = false ∧ call.succeeds path = false := by
  obtain ⟨hsucceeds, hfailed⟩ := silent_of_ne hpath
  refine ⟨(getState_cons ..).trans (by rw [if_neg hpath]; rfl), ?_, hsucceeds⟩
  unfold BreakerCall.fails
  rw [hfailed]
  rfl

/-- A closed circuit is left by the failure that reaches the threshold only. -/
theorem act_of_closed (hstate : cb.state = .closed) (call : BreakerCall) :
    (call.act config cb).state ≠ .closed ↔
      call.fails call.path = true ∧ config.failureThreshold ≤ cb.failureCount + 1 := by
  cases call with
  | execute now ctx =>
    simp [BreakerCall.act, CircuitBreakerState.letThrough, BreakerCall.fails, BreakerCall.failedAt, hstate]
  | recordSuccess p =>
    simp [BreakerCall.act, CircuitBreakerState.recordSuccess, BreakerCall.fails,
      BreakerCall.failedAt, hstate]
  | recordFailure now p =>
    simp only [BreakerCall.act, CircuitBreakerState.recordFailure, BreakerCall.fails,
      BreakerCall.failedAt, BreakerCall.path, hstate]
    split_ifs with hreached <;> simp [hreached]

theorem act_of_halfOpen (hstate : cb.state = .halfOpen) (call : BreakerCall) :
    ((call.act config cb).state = .opened ↔ call.fails call.path = true) ∧
    ((call.act config cb).state = .closed ↔
      call.succeeds call.path = true ∧ config.successThreshold ≤ cb.successCount + 1) := by
  cases call with
  | execute now ctx =>
    simp [BreakerCall.act, CircuitBreakerState.letThrough, BreakerCall.fails, BreakerCall.failedAt,
      BreakerCall.succeeds, hstate]
  | recordSuccess p =>
    simp only [BreakerCall.act, CircuitBreakerState.recordSuccess, BreakerCall.fails,
      BreakerCall.failedAt, BreakerCall.succeeds, BreakerCall.path, hstate]
    split_ifs with hreached <;> simp [hreached]
  | recordFailure now p =>
    simp [BreakerCall.act, CircuitBreakerState.recordFailure, BreakerCall.fails,
      BreakerCall.failedAt, BreakerCall.succeeds, BreakerCall.path, hstate]

theorem leaves_closed (hclosed : (after config calls).getState path = .closed)
    (call : BreakerCall) : (after config (call :: calls)).getState path ≠ .closed ↔
      call.fails path = true ∧ failuresInARow config path calls + 1 = config.failuresToOpen := by
  by_cases hpath : call.path = path
  · obtain ⟨hcount, hlt⟩ := (tracks_after calls).closed hclosed
    have hreached : config.failureThreshold ≤ ((after config calls).circuit path).failureCount + 1 ↔
        failuresInARow config path calls + 1 = config.failuresToOpen := by
      unfold CircuitBreakerConfig.failuresToOpen at hlt ⊢
      omega
    rw [getState_cons, if_pos hpath, act_of_closed hclosed, hreached, hpath]
  · obtain ⟨hsame, hfails, -⟩ := getState_of_ne hpath
    rw [hsame, hclosed, hfails]
    exact iff_of_false (not_not_intro rfl) fun hboth => absurd hboth.1 nofun

theorem leaves_halfOpen (hhalf : (after config calls).getState path = .halfOpen)
    (call : BreakerCall) :
    ((after config (call :: calls)).getState path = .opened ↔ call.fails path = true) ∧
    ((after config (call :: calls)).getState path = .closed ↔ call.succeeds path = true ∧
      successesInHalfOpen config path calls + 1 = config.successesToClose) := by
  by_cases hpath : call.path = path
  · obtain ⟨hcount, hlt⟩ := (tracks_after calls).halfOpen hhalf
    have hreached : config.successThreshold ≤ ((after config calls).circuit path).successCount + 1 ↔
        successesInHalfOpen config path calls + 1 = config.successesToClose := by
      unfold CircuitBreakerConfig.successesToClose at hlt ⊢
      omega
    have hact := @act_of_halfOpen config _ hhalf call
    rw [getState_cons, if_pos hpath]
    rwa [hreached, hpath] at hact
  · obtain ⟨hsame, hfails, hsucceeds⟩ := getState_of_ne hpath
    rw [hsame, hhalf, hfails, hsucceeds]
    exact ⟨by simp, by simp⟩

theorem execute_responds (now : Nat) (ctx : MiddlewareContext) :
    (∃ r, ((after config calls).execute now ctx).1 = .response r ∧ r.status = 503) ↔
      config.covers ctx.path = true ∧ (after config calls).getState ctx.path = .opened ∧
        ∃ failedAt, lastFailure ctx.path calls = some failedAt ∧ now - failedAt < config.timeout := by
  unfold execute getState
  rw [after_config]
  cases hcovers : config.covers ctx.path with
  | false => simp
  | true =>
    simp only [Bool.not_true, Bool.false_eq_true, if_false]
    cases hstate : ((after config calls).circuit ctx.path).state with
    | closed => simp
    | halfOpen => simp
    | opened =>
      obtain ⟨hlast, hsome⟩ := (tracks_after calls).opened hstate
      obtain ⟨failedAt, hfailed⟩ := Option.isSome_iff_exists.mp hsome
      have hhalf : ((after config calls).circuit ctx.path).shouldHalfOpen config now =
          decide (config.timeout ≤ now - failedAt) := by
        unfold CircuitBreakerState.shouldHalfOpen
        rw [hlast, hfailed]
      rw [hhalf, hfailed]
      by_cases helapsed : config.timeout ≤ now - failedAt
      · simp [helapsed]
      · have hlt : now - failedAt < config.timeout := Nat.lt_of_not_le helapsed
        simp [helapsed, hlt, MiddlewareResponse.serviceUnavailable,
          MiddlewareResponse.withTextBody, MiddlewareResponse.withHeader]

/-- No counter outgrows its `u32` threshold, so the `u64` additions do not wrap. -/
theorem counts_le (calls : List BreakerCall) :
    ((after config calls).circuit path).failureCount ≤ config.failuresToOpen ∧
      ((after config calls).circuit path).successCount ≤ config.successesToClose := by
  induction calls with
  | nil => exact ⟨Nat.zero_le _, Nat.zero_le _⟩
  | cons call earlier ih =>
    have htracks := @tracks_after config path earlier
    rw [circuit_after_cons]
    split_ifs
    · cases call with
      | execute now ctx =>
        unfold BreakerCall.act CircuitBreakerState.letThrough
        dsimp only
        split_ifs
        · exact ⟨ih.1, Nat.zero_le _⟩
        · exact ih
        · exact ih
      | recordSuccess p =>
        unfold BreakerCall.act CircuitBreakerState.recordSuccess
        dsimp only
        cases hstate : ((after config earlier).circuit path).state with
        | opened => exact ih
        | closed => exact ⟨Nat.zero_le _, ih.2⟩
        | halfOpen =>
          dsimp only
          split_ifs
          · exact ⟨Nat.zero_le _, Nat.zero_le _⟩
          · exact ⟨ih.1, (htracks.halfOpen hstate).2⟩
      | recordFailure now p =>
        unfold BreakerCall.act CircuitBreakerState.recordFailure
        dsimp only
        cases hstate : ((after config earlier).circuit path).state with
        | opened => exact ih
        | closed =>
          dsimp only
          split_ifs <;> exact ⟨(htracks.closed hstate).2, ih.2⟩
        | halfOpen => exact ⟨ih.1, Nat.zero_le _⟩
    · exact ih

end CircuitBreakerMiddleware

/-- What the state of a circuit promises of its counters and its time. -/
structure CircuitBreakerState.Sound (cb : CircuitBreakerState) : Prop where
  opened : cb.state = .opened → cb.lastFailureAt.isSome
  closed : cb.state = .closed → cb.failureCount < config.failuresToOpen
  halfOpen : cb.state = .halfOpen → cb.successCount < config.successesToClose

namespace CircuitBreakerMiddleware

/-- After any calls: the state of a circuit is sound, the next call moves it as the history of
its path says, and `execute` answers for a covered path as its last failure says. -/
theorem follows_history (calls : List BreakerCall) :
    ((after config calls).circuit path).Sound config ∧
    (∀ call,
      ((after config calls).getState path = .closed →
        ((after config (call :: calls)).getState path ≠ .closed ↔ call.fails path = true ∧
          failuresInARow config path calls + 1 = max config.failureThreshold 1)) ∧
      ((after config calls).getState path = .halfOpen →
        ((after config (call :: calls)).getState path = .opened ↔ call.fails path = true) ∧
        ((after config (call :: calls)).getState path = .closed ↔ call.succeeds path = true ∧
          successesInHalfOpen config path calls + 1 = max config.successThreshold 1)) ∧
      (call.path ≠ path → (after config (call :: calls)).circuits.lookup path =
        (after config calls).circuits.lookup path)) ∧
    ∀ now ctx, ctx.path = path →
      ((∃ r, ((after config calls).execute now ctx).1 = .response r ∧ r.status = 503) ↔
        config.covers path = true ∧ (after config calls).getState path = .opened ∧
          ∃ failedAt, lastFailure path calls = some failedAt ∧ now - failedAt < config.timeout) := by
  have htracks := @tracks_after config path calls
  refine ⟨⟨fun hopened => ?_, fun hclosed => (htracks.closed hclosed).2,
    fun hhalf => (htracks.halfOpen hhalf).2⟩, fun call => ⟨fun hclosed => ?_, fun hhalf => ?_,
    fun hne => lookup_step_of_ne _ hne⟩, fun now ctx hpath => ?_⟩
  · obtain ⟨hlast, hsome⟩ := htracks.opened hopened
    rwa [hlast]
  · exact leaves_closed hclosed call
  · exact leaves_halfOpen hhalf call
  · rw [← hpath]
    exact execute_responds now ctx

end CircuitBreakerMiddleware

end History

/-- A failure of a path that the configuration leaves out opens its circuit, and `execute` lets
its requests pass all the same. -/
theorem uncovered_path_passes :
    ¬ ∀ (config : CircuitBreakerConfig) (calls : List BreakerCall) (now : Nat)
      (ctx : MiddlewareContext),
      (∃ r, ((CircuitBreakerMiddleware.after config calls).execute now ctx).1 = .response r ∧
        r.status = 503) ↔
      (CircuitBreakerMiddleware.after config calls).getState ctx.path = .opened ∧
        ∃ failedAt, lastFailure ctx.path calls = some failedAt ∧
          now - failedAt < config.timeout := by
  intro h
  obtain ⟨r, hr, -⟩ := (h { failureThreshold := 1, paths := ["/api"] } [.recordFailure 0 "/other"] 0
    (.new "/other" .get ∅ "" none "id")).mpr ⟨rfl, 0, rfl, by decide⟩
  cases hr

end Hypern.Middleware
