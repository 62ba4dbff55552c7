import Mathlib.Data.PNat.Defs
import Mathlib.Logic.Function.Basic
import Hypern.Tasks.Blocking

/-! `BlockingExecutor` with its results and its shutdown: any number of calls and of shutdowns, and
the workers with both looks at the running flag. The interpreter lock is left out, so what is shown
for all schedules here is shown for those that the lock allows. -/

namespace Hypern.Tasks.ThreadPool

open Lib Blocking

/-- Why a work item has no value: an exception with its text, or a panic that ends the worker. -/
inductive Failure
  | raised (message : String)
  | panicked
  deriving DecidableEq

abbrev Outcome := Except Failure Value

/-- What calling an object gives. `wrapper` is `(lambda fn, items: [fn(item) for item in items])`,
which evaluates the calls in order and stops at the first that fails. -/
structure Interpreter where
  call : Value → List Value → Option Nat → Outcome
  wrapper : Value
  call_wrapper : ∀ fn items, call wrapper [fn, .list items] none =
    (items.mapM fun item => call fn [item] none).map .list

/-- Objects that return their argument, unless that is the object `0`. -/
def sampleItem : Value → Value → Outcome
  | .other _, .other 0 => .error (.raised "ZeroDivisionError: division by zero")
  | .other _, item => .ok item
  | _, _ => .error (.raised "TypeError: object is not callable")

def sampleCall (callable : Value) : List Value → Option Nat → Outcome
  | [item], _ => sampleItem callable item
  | [fn, .list items], _ =>
    match callable with
    | .other 0 => (items.mapM (sampleItem fn)).map .list
    | _ => .error (.raised "TypeError: too many arguments")
  | _, _ => .error (.raised "TypeError: wrong number of arguments")

def sample : Interpreter where
  call := sampleCall
  wrapper := .other 0
  call_wrapper _ _ := rfl

def executeWork (py : Interpreter) (work : WorkItem) : Outcome :=
  py.call work.callable work.args work.kwargs

inductive Method
  | runSync (work : WorkItem)
  | runParallel (tasks : List Value)
  | map (callable : Value) (items : List Value) (chunkSize : Nat)

def Method.plan (py : Interpreter) (maxThreads : Nat) : Method → List WorkItem × Ending
  | .runSync work => ([work], .collects)
  | .runParallel tasks => (Call.runParallel tasks).plan maxThreads
  | .map callable items chunkSize =>
    (Call.map py.wrapper callable items chunkSize).plan maxThreads

inductive CallError
  | runtime (message : String)
  | task (error : TaskError)

/-- The text of the `RuntimeError` for a failure; a panic drops the sender of the result. -/
def Failure.message (disconnected : String) : Failure → String
  | .raised message => message
  | .panicked => disconnected

/-- The end of `run_parallel`: results in order up to the first failure. -/
def appendResults : List Outcome → List Value → Except CallError Value
  | [], results => .ok (.list results)
  | .ok obj :: outcomes, results => appendResults outcomes (results ++ [obj])
  | .error failure :: _, _ => .error (.runtime (failure.message "Worker disconnected"))

/-- The end of `map`, which flattens the lists of the chunks. -/
def appendChunks : List (Outcome × Nat) → List Value → Except CallError Value
  | [], results => .ok (.list results)
  | (.ok (.list chunk), _) :: outcomes, results => appendChunks outcomes (results ++ chunk)
  | (.ok obj, _) :: outcomes, results => appendChunks outcomes (results ++ [obj])
  | (.error failure, _) :: _, _ => .error (.runtime (failure.message "Worker disconnected"))

/-- What a call makes of the outcomes it has received, in the order of its receivers. -/
def Method.result (outcomes : List Outcome) : Method → Except CallError Value
  | .runSync _ =>
    match outcomes.head? with
    | some (.ok obj) => .ok obj
    | some (.error failure) =>
      .error (.runtime (failure.message "Worker thread disconnected unexpectedly"))
    | none => .ok .none
  | .runParallel _ => appendResults outcomes []
  | .map _ _ _ => appendChunks (outcomes.zipIdx.mergeSort fun a b => a.2 ≤ b.2) []

/-- A work item in the queue, with the number of its result channel. -/
structure Job where
  work : WorkItem
  receiver : Nat

/-- `sent` records the work items in the order of their channels, `accepted` how many of them were
sent before the shutdown. A channel whose sender was dropped has `panicked` as its result. -/
structure Pool where
  maxThreads : Nat
  queueSize : Nat
  running : Bool
  queue : List Job
  results : Nat → Option Outcome
  sent : List WorkItem
  accepted : Nat

def Pool.hasRoom (g : Pool) : Prop := g.queueSize = 0 ∨ g.queue.length < g.queueSize

instance (g : Pool) : Decidable g.hasRoom := inferInstanceAs (Decidable (_ ∨ _))

def Pool.send (g : Pool) (work : WorkItem) : Pool :=
  { g with
    queue := g.queue ++ [⟨work, g.sent.length⟩]
    sent := g.sent ++ [work]
    accepted := if g.running then g.accepted + 1 else g.accepted }

def Pool.deliver (g : Pool) (job : Job) (outcome : Outcome) : Pool :=
  { g with results := Function.update g.results job.receiver (some outcome) }

/-- A call, from its look at the running flag to its return, a shutdown, and the places of
`worker_loop`: `looping` and `woken` are before the two looks at the flag, `stopping` is before the
look at the queue. -/
inductive Party
  | called (method : Method)
  | refused
  | sending (method : Method) (jobs : List Job) (left : List WorkItem)
  | collecting (method : Method) (jobs waiting : List Job) (outcomes : List Outcome)
  | returned (method : Method) (jobs : List Job) (result : Except CallError Value)
  | closing
  | closed
  | looping
  | polling
  | woken
  | stopping
  | executing (job : Job)
  | executed (job : Job) (outcome : Outcome)
  | stopped
  | crashed

inductive Turn
  | run | timeout
  deriving DecidableEq

/-- A caller whose work is sent. -/
def Method.sentAll (method : Method) (jobs : List Job) : Ending → Party
  | .returns => .returned method jobs (.ok (.list []))
  | .collects => .collecting method jobs jobs []
  | .fails error => .returned method jobs (.error (.task error))

def Party.next (py : Interpreter) (g : Pool) : Party → Turn → Option (Pool × Party)
  | .called method, .run =>
    some (g, if g.running then .sending method [] (method.plan py g.maxThreads).1 else .refused)
  | .sending method jobs (work :: left), .run =>
    if g.hasRoom then
      some (g.send work, .sending method (jobs ++ [⟨work, g.sent.length⟩]) left)
    else none
  | .sending method jobs [], .run =>
    some (g, method.sentAll jobs (method.plan py g.maxThreads).2)
  | .collecting method jobs (job :: waiting) outcomes, .run =>
    (g.results job.receiver).map fun outcome =>
      (g, .collecting method jobs waiting (outcomes ++ [outcome]))
  | .collecting method jobs [] outcomes, .run =>
    some (g, .returned method jobs (method.result outcomes))
  | .closing, .run => some ({ g with running := false }, .closed)
  | .looping, .run => some (g, if g.running then .polling else .woken)
  | .polling, .run =>
    match g.queue with
    | [] => none
    | job :: queue => some ({ g with queue := queue }, .executing job)
  | .polling, .timeout => if g.queue.isEmpty then some (g, .woken) else none
  | .woken, .run => some (g, if g.running then .looping else .stopping)
  | .stopping, .run => some (g, if g.queue.isEmpty then .stopped else .looping)
  | .executing job, .run =>
    match executeWork py job.work with
    | .error .panicked => some (g.deliver job (.error .panicked), .crashed)
    | outcome => some (g, .executed job outcome)
  | .executed job outcome, .run => some (g.deliver job outcome, .looping)
  | _, _ => none

inductive Action
  | call (method : Method)
  | shutdown
  | move (i : Nat) (turn : Turn)

abbrev System := Config Pool Party

/-- `max_threads` of `py_new`; `available` is the answer of `available_parallelism`. -/
def poolSize (maxThreads : Nat) (available : Option ℕ+) : Nat :=
  if maxThreads = 0 then (available.map PNat.val).getD 4 else maxThreads

namespace System

def start (maxThreads : Nat) (available : Option ℕ+) (queueSize : Nat) : System :=
  ⟨⟨poolSize maxThreads available, queueSize, true, [], fun _ => none, [], 0⟩,
    List.replicate (poolSize maxThreads available) .looping⟩

def step (py : Interpreter) (c : System) : Action → Option System
  | .call method => some { c with threads := c.threads ++ [.called method] }
  | .shutdown => some { c with threads := c.threads ++ [.closing] }
  | .move i turn => stepThread (fun _ => Party.next py) c i turn

end System

/-! ## The moves, one by one -/

inductive Move (py : Interpreter) (g : Pool) : Party → Turn → Pool → Party → Prop
  | enter {method : Method} (h : g.running = true) :
      Move py g (.called method) .run g (.sending method [] (method.plan py g.maxThreads).1)
  | refuse {method : Method} (h : g.running = false) : Move py g (.called method) .run g .refused
  | send {method : Method} {jobs : List Job} {work : WorkItem} {left : List WorkItem}
      (h : g.hasRoom) : Move py g (.sending method jobs (work :: left)) .run (g.send work)
        (.sending method (jobs ++ [⟨work, g.sent.length⟩]) left)
  | sent {method : Method} {jobs : List Job} : Move py g (.sending method jobs []) .run g
      (method.sentAll jobs (method.plan py g.maxThreads).2)
  | collect {method : Method} {jobs waiting : List Job} {job : Job} {outcomes : List Outcome}
      {outcome : Outcome} (h : g.results job.receiver = some outcome) :
      Move py g (.collecting method jobs (job :: waiting) outcomes) .run g
        (.collecting method jobs waiting (outcomes ++ [outcome]))
  | ret {method : Method} {jobs : List Job} {outcomes : List Outcome} :
      Move py g (.collecting method jobs [] outcomes) .run g
        (.returned method jobs (method.result outcomes))
  | close : Move py g .closing .run { g with running := false } .closed
  | poll (h : g.running = true) : Move py g .looping .run g .polling
  | skip (h : g.running = false) : Move py g .looping .run g .woken
  | receive {job : Job} {queue : List Job} (h : g.queue = job :: queue) :
      Move py g .polling .run { g with queue := queue } (.executing job)
  | timeOut (h : g.queue = []) : Move py g .polling .timeout g .woken
  | goOn (h : g.running = true) : Move py g .woken .run g .looping
  | leave (h : g.running = false) : Move py g .woken .run g .stopping
  | stop (h : g.queue = []) : Move py g .stopping .run g .stopped
  | again (h : g.queue ≠ []) : Move py g .stopping .run g .looping
  | panic {job : Job} (h : executeWork py job.work = .error .panicked) :
      Move py g (.executing job) .run (g.deliver job (.error .panicked)) .crashed
  | execute {job : Job} (h : executeWork py job.work ≠ .error .panicked) :
      Move py g (.executing job) .run g (.executed job (executeWork py job.work))
  | deliver {job : Job} {outcome : Outcome} :
      Move py g (.executed job outcome) .run (g.deliver job outcome) .looping

variable {py : Interpreter} {g g' : Pool} {p p' : Party} {turn : Turn}

theorem Move.of_next (h : p.next py g turn = some (g', p')) : Move py g p turn g' p' := by
  cases p with
  | called method =>
    cases turn with
    | run =>
      cases h
      split_ifs with hrunning
      · exact .enter hrunning
      · exact .refuse (Bool.eq_false_iff.mpr hrunning)
    | timeout => cases h
  | sending method jobs left =>
    cases turn with
    | run =>
      cases left with
      | nil =>
        cases h
        exact .sent
      | cons work left =>
        change (if g.hasRoom then some _ else none) = some (g', p') at h
        split_ifs at h with hroom
        cases h
        exact .send hroom
    | timeout => cases left <;> cases h
  | collecting method jobs waiting outcomes =>
    cases turn with
    | run =>
      cases waiting with
      | nil =>
        cases h
        exact .ret
      | cons job waiting =>
        obtain ⟨outcome, hresult, heq⟩ := Option.map_eq_some_iff.mp h
        cases heq
        exact .collect hresult
    | timeout => cases waiting <;> cases h
  | closing =>
    cases turn with
    | run =>
      cases h
      exact .close
    | timeout => cases h
  | looping =>
    cases turn with
    | run =>
      cases h
      split_ifs with hrunning
      · exact .poll hrunning
      · exact .skip (Bool.eq_false_iff.mpr hrunning)
    | timeout => cases h
  | polling =>
    cases turn with
    | run =>
      cases hqueue : g.queue with
      | nil =>
        simp only [Party.next, hqueue] at h
        cases h
      | cons job queue =>
        simp only [Party.next, hqueue] at h
        cases h
        exact .receive hqueue
    | timeout =>
      change (if g.queue.isEmpty then some _ else none) = some (g', p') at h
      split_ifs at h with hempty
      cases h
      exact .timeOut (List.isEmpty_iff.mp hempty)
  | woken =>
    cases turn with
    | run =>
      cases h
      split_ifs with hrunning
      · exact .goOn hrunning
      · exact .leave (Bool.eq_false_iff.mpr hrunning)
    | timeout => cases h
  | stopping =>
    cases turn with
    | run =>
      cases h
      split_ifs with hempty
      · exact .stop (List.isEmpty_iff.mp hempty)
      · exact .again fun hnil => hempty (List.isEmpty_iff.mpr hnil)
    | timeout => cases h
  | executing job =>
    cases turn with
    | run =>
      simp only [Party.next] at h
      split at h
      · rename_i hpanic
        cases h
        exact .panic hpanic
      · rename_i hnot
        cases h
        exact .execute hnot
    | timeout => cases h
  | executed job outcome =>
    cases turn with
    | run =>
      cases h
      exact .deliver
    | timeout => cases h
  | refused | returned _ _ _ | closed | stopped | crashed => cases turn <;> cases h

namespace System

variable {c c' : System}

theorem step_cases {a : Action} (h : step py c a = some c') :
    (∃ p : Party, c' = ⟨c.shared, c.threads ++ [p]⟩ ∧
      ((∃ method, a = .call method ∧ p = .called method) ∨ a = .shutdown ∧ p = .closing)) ∨
    ∃ i turn p g p', a = .move i turn ∧ c.threads[i]? = some p ∧ Move py c.shared p turn g p' ∧
      c' = ⟨g, c.threads.set i p'⟩ := by
  cases a with
  | call method =>
    cases h
    exact .inl ⟨_, rfl, .inl ⟨method, rfl, rfl⟩⟩
  | shutdown =>
    cases h
    exact .inl ⟨_, rfl, .inr ⟨rfl, rfl⟩⟩
  | move i turn =>
    change stepThread (fun _ => Party.next py) c i turn = some c' at h
    obtain ⟨p, g, p', hp, hnext, rfl⟩ := stepThread_eq_some.mp h
    exact .inr ⟨i, turn, p, g, p', rfl, hp, .of_next hnext, rfl⟩

end System

end Hypern.Tasks.ThreadPool
