import Hypern.Lib.Threads

/-! A worker's `ReloadManager` and the tasks that use it: requests, `start_drain`,
`wait_for_drain`, `reset_after_reload`, the startup timer and the readiness probe. Each
access to an atomic variable is a step of its own. -/

namespace Hypern.Reload

open Lib

inductive HealthStatus
  | starting | healthy | draining | unhealthy
  deriving DecidableEq

def HealthStatus.isReady (s : HealthStatus) : Bool := s == .healthy

/-- `ReloadManager` with its `HealthCheck`. Of the `Notify` it holds, what matters is how often
`notify_waiters` was called: a waiter is woken by the calls after its registration. -/
structure Manager where
  status : HealthStatus
  inFlight : UInt64
  draining : Bool
  notifyCalls : Nat
  deriving DecidableEq

namespace Manager

def new : Manager := ⟨.starting, 0, false, 0⟩

def readinessCode (m : Manager) : Nat := if m.status.isReady then 200 else 503

def incrementInFlight (m : Manager) : Manager := { m with inFlight := m.inFlight + 1 }

def decrementInFlight (m : Manager) : Manager := { m with inFlight := m.inFlight - 1 }

/-- What `decrement_in_flight` returns: `prev.saturating_sub(1)`. -/
def remaining (m : Manager) : UInt64 := if m.inFlight = 0 then 0 else m.inFlight - 1

end Manager

/-- `handle_request`, with `on_request_complete` from `decremented` on. -/
inductive RequestAt
  | arrived | rejected | passed | handling | handled
  | decremented (remaining : UInt64)
  | notifying | responded | abandoned
  deriving DecidableEq

/-- `start_drain`: the flag is taken, then the status is written. -/
inductive DrainAt
  | called | taken | done
  deriving DecidableEq

/-- `wait_for_drain`; it returns with its result and whether the worker was draining then. -/
inductive WaitAt
  | called | checked
  | registered (calls : Nat)
  | returned (result draining : Bool)
  deriving DecidableEq

/-- `reset_after_reload`: the flag is cleared, then the status is written. -/
inductive ResetAt
  | called | cleared | done
  deriving DecidableEq

inductive Task
  | request (pc : RequestAt)
  | drain (pc : DrainAt)
  | wait (pc : WaitAt)
  | reset (pc : ResetAt)
  | graceTimer (fired : Bool)
  | probe (answer : Option Nat)
  deriving DecidableEq

/-- `abandon` drops the future of a request or makes it panic, `timeout` ends a wait. -/
inductive Choice
  | run | abandon | timeout
  deriving DecidableEq

def RequestAt.next (m : Manager) : RequestAt → Choice → Option (Manager × RequestAt)
  | .arrived, .run => some (m, if m.draining then .rejected else .passed)
  | .passed, .run => some (m.incrementInFlight, .handling)
  | .handling, .run => some (m, .handled)
  | .handled, .run => some (m.decrementInFlight, .decremented m.remaining)
  | .decremented remaining, .run =>
    some (m, if m.draining && remaining == 0 then .notifying else .responded)
  | .notifying, .run => some ({ m with notifyCalls := m.notifyCalls + 1 }, .responded)
  | .arrived, .abandon => some (m, .abandoned)
  | .handling, .abandon => some (m, .abandoned)
  | .handled, .abandon => some (m, .abandoned)
  | _, _ => none

def DrainAt.next (m : Manager) : DrainAt → Choice → Option (Manager × DrainAt)
  | .called, .run =>
    if m.draining then some (m, .done) else some ({ m with draining := true }, .taken)
  | .taken, .run => some ({ m with status := .draining }, .done)
  | _, _ => none

def WaitAt.next (m : Manager) : WaitAt → Choice → Option (Manager × WaitAt)
  | .called, .run => some (m, if m.inFlight = 0 then .returned true m.draining else .checked)
  | .checked, .run => some (m, .registered m.notifyCalls)
  | .registered calls, .run =>
    if m.notifyCalls = calls then none else some (m, .returned true m.draining)
  | .registered _, .timeout => some (m, .returned false m.draining)
  | _, _ => none

def ResetAt.next (m : Manager) : ResetAt → Choice → Option (Manager × ResetAt)
  | .called, .run => some ({ m with draining := false }, .cleared)
  | .cleared, .run => some ({ m with status := .healthy }, .done)
  | _, _ => none

def Task.next (m : Manager) : Task → Choice → Option (Manager × Task)
  | .request pc, choice => (pc.next m choice).map fun r => (r.1, .request r.2)
  | .drain pc, choice => (pc.next m choice).map fun r => (r.1, .drain r.2)
  | .wait pc, choice => (pc.next m choice).map fun r => (r.1, .wait r.2)
  | .reset pc, choice => (pc.next m choice).map fun r => (r.1, .reset r.2)
  | .graceTimer false, .run => some ({ m with status := .healthy }, .graceTimer true)
  | .probe none, .run => some (m, .probe (some m.readinessCode))
  | _, _ => none

/-- A task that comes up while the worker runs. -/
inductive Kind
  | request | drain | wait | reset | probe
  deriving DecidableEq

def Kind.start : Kind → Task
  | .request => .request .arrived
  | .drain => .drain .called
  | .wait => .wait .called
  | .reset => .reset .called
  | .probe => .probe none

inductive Action
  | spawn (kind : Kind)
  | move (i : Nat) (choice : Choice)
  deriving DecidableEq

abbrev Worker := Config Manager Task

namespace Worker

/-- A worker starts with the timer that marks it healthy. -/
def start : Worker := ⟨.new, [.graceTimer false]⟩

def step (c : Worker) : Action → Option Worker
  | .spawn kind => some { c with threads := c.threads ++ [kind.start] }
  | .move i choice => stepThread (fun _ => Task.next) c i choice

end Worker

/-! ## The moves, one by one -/

inductive Move (m : Manager) : Task → Choice → Manager → Task → Prop
  | reject (h : m.draining = true) : Move m (.request .arrived) .run m (.request .rejected)
  | pass (h : m.draining = false) : Move m (.request .arrived) .run m (.request .passed)
  | enter : Move m (.request .passed) .run m.incrementInFlight (.request .handling)
  | handle : Move m (.request .handling) .run m (.request .handled)
  | complete : Move m (.request .handled) .run m.decrementInFlight
      (.request (.decremented m.remaining))
  | last {remaining : UInt64} (hdrain : m.draining = true) (hzero : remaining = 0) :
      Move m (.request (.decremented remaining)) .run m (.request .notifying)
  | respond {remaining : UInt64} (h : m.draining = false ∨ remaining ≠ 0) :
      Move m (.request (.decremented remaining)) .run m (.request .responded)
  | notify : Move m (.request .notifying) .run { m with notifyCalls := m.notifyCalls + 1 }
      (.request .responded)
  | dropArrived : Move m (.request .arrived) .abandon m (.request .abandoned)
  | dropHandling : Move m (.request .handling) .abandon m (.request .abandoned)
  | dropHandled : Move m (.request .handled) .abandon m (.request .abandoned)
  | drainAgain (h : m.draining = true) : Move m (.drain .called) .run m (.drain .done)
  | takeFlag (h : m.draining = false) :
      Move m (.drain .called) .run { m with draining := true } (.drain .taken)
  | markDraining : Move m (.drain .taken) .run { m with status := .draining } (.drain .done)
  | idle (h : m.inFlight = 0) : Move m (.wait .called) .run m (.wait (.returned true m.draining))
  | busy (h : m.inFlight ≠ 0) : Move m (.wait .called) .run m (.wait .checked)
  | register : Move m (.wait .checked) .run m (.wait (.registered m.notifyCalls))
  | wake {calls : Nat} (h : m.notifyCalls ≠ calls) :
      Move m (.wait (.registered calls)) .run m (.wait (.returned true m.draining))
  | timeOut {calls : Nat} :
      Move m (.wait (.registered calls)) .timeout m (.wait (.returned false m.draining))
  | clearFlag : Move m (.reset .called) .run { m with draining := false } (.reset .cleared)
  | resetHealthy : Move m (.reset .cleared) .run { m with status := .healthy } (.reset .done)
  | markHealthy : Move m (.graceTimer false) .run { m with status := .healthy } (.graceTimer true)
  | answer : Move m (.probe none) .run m (.probe (some m.readinessCode))

section

variable {m m' : Manager} {choice : Choice}

theorem Move.of_request {pc pc' : RequestAt} (h : pc.next m choice = some (m', pc')) :
    Move m (.request pc) choice m' (.request pc') := by
  cases pc with
  | arrived =>
    cases choice with
    | run =>
      cases h
      split_ifs with hdrain
      · exact .reject hdrain
      · exact .pass (Bool.eq_false_iff.mpr hdrain)
    | abandon =>
      cases h
      exact .dropArrived
    | timeout => cases h
  | passed =>
    cases choice with
    | run =>
      cases h
      exact .enter
    | abandon | timeout => cases h
  | handling =>
    cases choice with
    | run =>
      cases h
      exact .handle
    | abandon =>
      cases h
      exact .dropHandling
    | timeout => cases h
  | handled =>
    cases choice with
    | run =>
      cases h
      exact .complete
    | abandon =>
      cases h
      exact .dropHandled
    | timeout => cases h
  | decremented remaining =>
    cases choice with
    | run =>
      cases h
      split_ifs with hlast
      · rw [Bool.and_eq_true, beq_iff_eq] at hlast
        exact .last hlast.1 hlast.2
      · refine .respond ?_
        rw [Bool.and_eq_true, beq_iff_eq, not_and_or, Bool.not_eq_true] at hlast
        exact hlast
    | abandon | timeout => cases h
  | notifying =>
    cases choice with
    | run =>
      cases h
      exact .notify
    | abandon | timeout => cases h
  | rejected | responded | abandoned => cases h

theorem Move.of_drain {pc pc' : DrainAt} (h : pc.next m choice = some (m', pc')) :
    Move m (.drain pc) choice m' (.drain pc') := by
  unfold DrainAt.next at h
  split at h
  · split_ifs at h with hdrain
    · cases h
      exact .drainAgain hdrain
    · cases h
      exact .takeFlag (Bool.eq_false_iff.mpr hdrain)
  · cases h
    exact .markDraining
  · cases h

theorem Move.of_wait {pc pc' : WaitAt} (h : pc.next m choice = some (m', pc')) :
    Move m (.wait pc) choice m' (.wait pc') := by
  unfold WaitAt.next at h
  split at h
  · cases h
    split_ifs with hzero
    · exact .idle hzero
    · exact .busy hzero
  · cases h
    exact .register
  · split_ifs at h with hcalls
    cases h
    exact .wake hcalls
  · cases h
    exact .timeOut
  · cases h

theorem Move.of_reset {pc pc' : ResetAt} (h : pc.next m choice = some (m', pc')) :
    Move m (.reset pc) choice m' (.reset pc') := by
  unfold ResetAt.next at h
  split at h
  · cases h
    exact .clearFlag
  · cases h
    exact .resetHealthy
  · cases h

theorem Move.of_next {t t' : Task} (h : t.next m choice = some (m', t')) :
    Move m t choice m' t' := by
  unfold Task.next at h
  split at h
  · obtain ⟨pc', hnext, rfl⟩ := map_snd_eq_some h
    exact .of_request hnext
  · obtain ⟨pc', hnext, rfl⟩ := map_snd_eq_some h
    exact .of_drain hnext
  · obtain ⟨pc', hnext, rfl⟩ := map_snd_eq_some h
    exact .of_wait hnext
  · obtain ⟨pc', hnext, rfl⟩ := map_snd_eq_some h
    exact .of_reset hnext
  · cases h
    exact .markHealthy
  · cases h
    exact .answer
  · cases h

end

namespace Worker

variable {c c' : Worker}

theorem step_move {i : Nat} {choice : Choice} {t t' : Task} {m : Manager}
    (ht : c.threads[i]? = some t) (hnext : t.next c.shared choice = some (m, t')) :
    step c (.move i choice) = some ⟨m, c.threads.set i t'⟩ := by
  change stepThread (fun _ => Task.next) c i choice = _
  exact stepThread_eq_some.mpr ⟨t, m, t', ht, hnext, rfl⟩

/-- What one step of a worker can do. -/
theorem step_cases {a : Action} (h : step c a = some c') :
    (∃ kind : Kind, a = .spawn kind ∧ c' = ⟨c.shared, c.threads ++ [kind.start]⟩) ∨
    ∃ i choice t m t', a = .move i choice ∧ c.threads[i]? = some t ∧
      Move c.shared t choice m t' ∧ c' = ⟨m, c.threads.set i t'⟩ := by
  cases a with
  | spawn kind =>
    cases h
    exact .inl ⟨kind, rfl, rfl⟩
  | move i choice =>
    change stepThread (fun _ => Task.next) c i choice = some c' at h
    obtain ⟨t, m, t', ht, hnext, rfl⟩ := stepThread_eq_some.mp h
    exact .inr ⟨i, choice, t, m, t', rfl, ht, .of_next hnext, rfl⟩

end Worker

/-! ## Requests in flight -/

/-- Admitted, and its handling neither completed nor abandoned. -/
def Task.isActive : Task → Bool
  | .request .handling => true
  | .request .handled => true
  | _ => false

def Worker.active (c : Worker) : Nat := c.threads.countP Task.isActive

end Hypern.Reload
