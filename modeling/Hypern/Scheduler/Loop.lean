import Hypern.Lib.Run
import Hypern.Scheduler.Retry
import Hypern.Scheduler.Cron

/-! `TaskScheduler`: the thread that runs `_loop`, at the grain of single operations on the lists
it shares with the callers of `cron`, `interval` and the wrappers of `task`. -/

namespace Hypern.Scheduler

open Lib

variable {F V : Type}

/-- The readings of `time.time` and `time.localtime`. Times and durations are whole nanoseconds. -/
structure Reading where
  time : ℤ
  tm : LocalTime

structure CronTask (F : Type) where
  expr : CronExpression
  func : F
  policy : RetryPolicy
  taskName : String

structure IntervalTask (F : Type) where
  seconds : ℤ
  func : F
  policy : RetryPolicy
  taskName : String

/-- A call of a wrapper: its function and arguments, and the arguments of `task`. -/
structure Submission (F V : Type) where
  call : Call F V
  retry : Option RetryPolicy
  delaySeconds : ℤ
  taskName : String

/-- An element of `_one_shot_tasks`; `origin` is the number of the wrapper's call. -/
structure OneShotTask (F V : Type) where
  runAt : ℤ
  runner : Callable F V
  args : List V
  policy : RetryPolicy
  taskName : String
  origin : Nat

def Submission.task (sub : Submission F V) (runAt : ℤ) (origin : Nat) : OneShotTask F V :=
  ⟨runAt, .runner sub.call, sub.call.args, sub.retry.getD .noRetries, sub.taskName, origin⟩

/-- A cron task that is executed, with the time of the pass and the time it was compared with. -/
structure Firing where
  index : Nat
  pass : LocalTime
  reading : LocalTime
  deriving DecidableEq

/-- The scheduler and its clock. The last four fields record what has happened: cron tasks
executed, one-shot tasks appended, one-shot tasks taken up for execution and when, and their
executions. -/
structure TaskScheduler (F V : Type) where
  clock : Reading
  running : Bool
  cronTasks : List (CronTask F)
  intervalTasks : List (IntervalTask F)
  oneShotTasks : List (OneShotTask F V)
  counter : Nat
  results : String → Option (ScheduledTaskResult V)
  fired : List Firing
  submitted : List (OneShotTask F V)
  taken : List (OneShotTask F V × ℤ)
  executions : List (Nat × Execution F V)

namespace TaskScheduler

variable (g : TaskScheduler F V)

def store (id : String) (result : ScheduledTaskResult V) : TaskScheduler F V :=
  { g with results := Function.update g.results id (some result) }

def nextId : TaskScheduler F V := { g with counter := g.counter + 1 }

def getResult (id : String) : Option (ScheduledTaskResult V) := g.results id

theorem getResult_store (id other : String) (result : ScheduledTaskResult V) :
    (g.store id result).getResult other = if other = id then some result else g.getResult other :=
  Function.update_apply _ _ _ _

end TaskScheduler

/-- What a pass of the loop knows: its readings, `last_cron_minute`, `interval_last_run` and the
interval tasks it has considered. -/
structure Pass where
  now : ℤ
  tm : LocalTime
  lastCronMinute : Option Nat
  intervalLastRun : List ℤ
  considered : List Nat

/-- The three loops over the lists, each at its index. -/
inductive Place (F V : Type)
  | cron (i : Nat)
  | interval (i : Nat)
  | oneShot (i : Nat) (pending : List (OneShotTask F V))

def Place.advance : Place F V → Place F V
  | .cron i => .cron (i + 1)
  | .interval i => .interval (i + 1)
  | .oneShot i pending => .oneShot (i + 1) pending

/-- `swapping` is after the loop over the one-shot tasks and before the assignment. -/
inductive LoopAt (F V : Type)
  | starting
  | top (lastCronMinute : Option Nat) (intervalLastRun : List ℤ)
  | visiting (pass : Pass) (place : Place F V)
  | executing (pass : Pass) (place : Place F V) (job : Job F V)
  | swapping (pass : Pass) (pending : List (OneShotTask F V))
  | sleeping (lastCronMinute : Option Nat) (intervalLastRun : List ℤ)
  | stopped
  | dead (error : Option Exc)

def indexError : Exc := ⟨"IndexError", some "list index out of range"⟩

namespace TaskScheduler

variable (g : TaskScheduler F V)

/-- The start of a pass. -/
def enterPass (lastCronMinute : Option Nat) (intervalLastRun : List ℤ) : LoopAt F V :=
  if lastCronMinute = some g.clock.tm.minuteOfDay then
    .visiting ⟨g.clock.time, g.clock.tm, lastCronMinute, intervalLastRun, []⟩ (.interval 0)
  else
    .visiting ⟨g.clock.time, g.clock.tm, some g.clock.tm.minuteOfDay, intervalLastRun, []⟩ (.cron 0)

def stepCron (pass : Pass) (i : Nat) : TaskScheduler F V × LoopAt F V :=
  match g.cronTasks[i]? with
  | none => (g, .visiting pass (.interval 0))
  | some task =>
    if task.expr.matchesNow g.clock.tm then
      ({ g.nextId with fired := ⟨i, pass.tm, g.clock.tm⟩ :: g.fired },
        .executing pass (.cron i)
          ⟨.plain task.func, [], task.policy, task.taskName, g.counter + 1⟩)
    else (g, .visiting pass (.cron (i + 1)))

def stepInterval (pass : Pass) (i : Nat) : TaskScheduler F V × LoopAt F V :=
  match g.intervalTasks[i]? with
  | none => (g, .visiting pass (.oneShot 0 []))
  | some task =>
    match pass.intervalLastRun[i]? with
    | none => (g, .dead (some indexError))
    | some last =>
      if pass.now - last ≥ task.seconds then
        (g.nextId, .executing { pass with
            intervalLastRun := pass.intervalLastRun.set i pass.now
            considered := i :: pass.considered } (.interval i)
          ⟨.plain task.func, [], task.policy, task.taskName, g.counter + 1⟩)
      else (g, .visiting { pass with considered := i :: pass.considered } (.interval (i + 1)))

def stepOneShot (pass : Pass) (i : Nat) (pending : List (OneShotTask F V)) :
    TaskScheduler F V × LoopAt F V :=
  match g.oneShotTasks[i]? with
  | none => (g, .swapping pass pending)
  | some task =>
    if pass.now ≥ task.runAt then
      ({ g.nextId with taken := (task, pass.now) :: g.taken },
        .executing pass (.oneShot i pending)
          ⟨task.runner, task.args, task.policy, task.taskName, g.counter + 1⟩)
    else (g, .visiting pass (.oneShot (i + 1) (pending ++ [task])))

/-- The one-shot task at the place. -/
def origin? : Place F V → Option Nat
  | .oneShot i _ => (g.oneShotTasks[i]?).map OneShotTask.origin
  | _ => none

/-- What an execution leaves behind; one that ends with an exception stores no result. -/
def record (place : Place F V) (ex : Execution F V) : TaskScheduler F V :=
  let g' := { g with executions := (g.origin? place).toList.map (·, ex) ++ g.executions }
  if ex.ending = .returned then g'.store ex.result.taskId ex.result else g'

/-- The loop goes on after an execution unless it ends with something that is no `Exception`. -/
def finish (pass : Pass) (place : Place F V) (ex : Execution F V) :
    TaskScheduler F V × LoopAt F V :=
  (g.record place ex, if ex.ending = .exited then .dead none else .visiting pass place.advance)

end TaskScheduler

def LoopAt.next (g : TaskScheduler F V) (env : Environment V) :
    LoopAt F V → Option (TaskScheduler F V × LoopAt F V)
  | .starting => some (g, .top none (List.replicate g.intervalTasks.length 0))
  | .top lastCronMinute intervalLastRun =>
    some (g, if g.running then g.enterPass lastCronMinute intervalLastRun else .stopped)
  | .visiting pass (.cron i) => some (g.stepCron pass i)
  | .visiting pass (.interval i) => some (g.stepInterval pass i)
  | .visiting pass (.oneShot i pending) => some (g.stepOneShot pass i pending)
  | .executing pass place job => some (g.finish pass place (executeWithRetry job env))
  | .swapping pass pending =>
    some ({ g with oneShotTasks := pending }, .sleeping pass.lastCronMinute pass.intervalLastRun)
  | .sleeping lastCronMinute intervalLastRun => some (g, .top lastCronMinute intervalLastRun)
  | .stopped => none
  | .dead _ => none

/-- A call of a wrapper, from its start to its return. -/
inductive Producer (F V : Type)
  | called (sub : Submission F V)
  | numbered (sub : Submission F V) (number : Nat)
  | timed (sub : Submission F V) (number : Nat) (runAt : ℤ)
  | appended (sub : Submission F V) (number : Nat) (runAt : ℤ)
  | returned (sub : Submission F V) (number : Nat)

def Submission.pending (sub : Submission F V) (number : Nat) (runAt : ℤ) :
    ScheduledTaskResult V :=
  ⟨taskId number, sub.taskName, .pending, none, none, 0, some runAt⟩

def Producer.next (g : TaskScheduler F V) (origin : Nat) :
    Producer F V → Option (TaskScheduler F V × Producer F V)
  | .called sub => some (g.nextId, .numbered sub (g.counter + 1))
  | .numbered sub number => some (g, .timed sub number (g.clock.time + sub.delaySeconds))
  | .timed sub number runAt =>
    some ({ g with
      oneShotTasks := g.oneShotTasks ++ [sub.task runAt origin]
      submitted := sub.task runAt origin :: g.submitted }, .appended sub number runAt)
  | .appended sub number runAt =>
    some (g.store (taskId number) (sub.pending number runAt), .returned sub number)
  | .returned _ _ => none

structure System (F V : Type) where
  shared : TaskScheduler F V
  loop : LoopAt F V
  producers : List (Producer F V)

inductive Action (F V : Type)
  | cron (task : CronTask F)
  | interval (task : IntervalTask F)
  | submit (sub : Submission F V)
  | stop
  | tick (reading : Reading)
  | produce (k : Nat)
  | loop (env : Environment V)

namespace System

def start (clock : Reading) : System F V :=
  ⟨⟨clock, true, [], [], [], 0, fun _ => none, [], [], [], []⟩, .starting, []⟩

/-- A clock goes on, it does not go back. -/
def step (c : System F V) : Action F V → Option (System F V)
  | .cron task =>
    some { c with shared := { c.shared with cronTasks := c.shared.cronTasks ++ [task] } }
  | .interval task =>
    some { c with shared := { c.shared with intervalTasks := c.shared.intervalTasks ++ [task] } }
  | .submit sub => some { c with producers := c.producers ++ [.called sub] }
  | .stop => some { c with shared := { c.shared with running := false } }
  | .tick reading =>
    if c.shared.clock.time ≤ reading.time ∧ c.shared.clock.tm ≤ reading.tm then
      some { c with shared := { c.shared with clock := reading } }
    else none
  | .produce k =>
    (c.producers[k]?).bind fun p => (p.next c.shared k).map fun r =>
      ⟨r.1, c.loop, c.producers.set k r.2⟩
  | .loop env => (c.loop.next c.shared env).map fun r => ⟨r.1, r.2, c.producers⟩

end System

/-- Every call returns `7`, and no hook of the monitor raises. -/
def quiet : Environment Nat := ⟨fun _ => .value 7, false, false, fun _ => false⟩

/-- The start of a year, a Wednesday. -/
def newYear : Reading := ⟨100, ⟨2025, 0, 0, 0, by decide⟩⟩

/-! ## The moves, one by one -/

inductive LoopMove (g : TaskScheduler F V) :
    LoopAt F V → Environment V → TaskScheduler F V → LoopAt F V → Prop
  | size {env : Environment V} :
      LoopMove g .starting env g (.top none (List.replicate g.intervalTasks.length 0))
  | stop {lastCronMinute : Option Nat} {intervalLastRun : List ℤ} {env : Environment V}
      (h : g.running = false) : LoopMove g (.top lastCronMinute intervalLastRun) env g .stopped
  | enter {lastCronMinute : Option Nat} {intervalLastRun : List ℤ} {env : Environment V}
      (h : g.running = true) (hminute : lastCronMinute ≠ some g.clock.tm.minuteOfDay) :
      LoopMove g (.top lastCronMinute intervalLastRun) env g
        (.visiting ⟨g.clock.time, g.clock.tm, some g.clock.tm.minuteOfDay, intervalLastRun, []⟩
          (.cron 0))
  | enterSame {lastCronMinute : Option Nat} {intervalLastRun : List ℤ} {env : Environment V}
      (h : g.running = true) (hminute : lastCronMinute = some g.clock.tm.minuteOfDay) :
      LoopMove g (.top lastCronMinute intervalLastRun) env g
        (.visiting ⟨g.clock.time, g.clock.tm, lastCronMinute, intervalLastRun, []⟩ (.interval 0))
  | cronEnd {pass : Pass} {i : Nat} {env : Environment V} (h : g.cronTasks[i]? = none) :
      LoopMove g (.visiting pass (.cron i)) env g (.visiting pass (.interval 0))
  | cronSkip {pass : Pass} {i : Nat} {env : Environment V} {task : CronTask F}
      (h : g.cronTasks[i]? = some task) (hnot : task.expr.matchesNow g.clock.tm = false) :
      LoopMove g (.visiting pass (.cron i)) env g (.visiting pass (.cron (i + 1)))
  | cronFire {pass : Pass} {i : Nat} {env : Environment V} {task : CronTask F}
      (h : g.cronTasks[i]? = some task) (hnow : task.expr.matchesNow g.clock.tm = true) :
      LoopMove g (.visiting pass (.cron i)) env
        { g.nextId with fired := ⟨i, pass.tm, g.clock.tm⟩ :: g.fired }
        (.executing pass (.cron i)
          ⟨.plain task.func, [], task.policy, task.taskName, g.counter + 1⟩)
  | intervalEnd {pass : Pass} {i : Nat} {env : Environment V} (h : g.intervalTasks[i]? = none) :
      LoopMove g (.visiting pass (.interval i)) env g (.visiting pass (.oneShot 0 []))
  | intervalDie {pass : Pass} {i : Nat} {env : Environment V} (h : i < g.intervalTasks.length)
      (hlast : pass.intervalLastRun.length ≤ i) :
      LoopMove g (.visiting pass (.interval i)) env g (.dead (some indexError))
  | intervalSkip {pass : Pass} {i : Nat} {env : Environment V} (h : i < g.intervalTasks.length) :
      LoopMove g (.visiting pass (.interval i)) env g
        (.visiting { pass with considered := i :: pass.considered } (.interval (i + 1)))
  | intervalRun {pass : Pass} {i : Nat} {env : Environment V} {job : Job F V}
      (h : i < g.intervalTasks.length) (hnumber : job.number = g.counter + 1) :
      LoopMove g (.visiting pass (.interval i)) env g.nextId
        (.executing { pass with
          intervalLastRun := pass.intervalLastRun.set i pass.now
          considered := i :: pass.considered } (.interval i) job)
  | oneShotEnd {pass : Pass} {i : Nat} {pending : List (OneShotTask F V)} {env : Environment V}
      (h : g.oneShotTasks[i]? = none) :
      LoopMove g (.visiting pass (.oneShot i pending)) env g (.swapping pass pending)
  | oneShotKeep {pass : Pass} {i : Nat} {pending : List (OneShotTask F V)} {env : Environment V}
      {task : OneShotTask F V} (h : g.oneShotTasks[i]? = some task) :
      LoopMove g (.visiting pass (.oneShot i pending)) env g
        (.visiting pass (.oneShot (i + 1) (pending ++ [task])))
  | oneShotTake {pass : Pass} {i : Nat} {pending : List (OneShotTask F V)} {env : Environment V}
      {task : OneShotTask F V} (h : g.oneShotTasks[i]? = some task) (hdue : task.runAt ≤ pass.now) :
      LoopMove g (.visiting pass (.oneShot i pending)) env
        { g.nextId with taken := (task, pass.now) :: g.taken }
        (.executing pass (.oneShot i pending)
          ⟨task.runner, task.args, task.policy, task.taskName, g.counter + 1⟩)
  | finish {pass : Pass} {place : Place F V} {job : Job F V} {env : Environment V}
      (h : (executeWithRetry job env).ending ≠ .exited) :
      LoopMove g (.executing pass place job) env (g.record place (executeWithRetry job env))
        (.visiting pass place.advance)
  | exit {pass : Pass} {place : Place F V} {job : Job F V} {env : Environment V}
      (h : (executeWithRetry job env).ending = .exited) :
      LoopMove g (.executing pass place job) env (g.record place (executeWithRetry job env))
        (.dead none)
  | swap {pass : Pass} {pending : List (OneShotTask F V)} {env : Environment V} :
      LoopMove g (.swapping pass pending) env { g with oneShotTasks := pending }
        (.sleeping pass.lastCronMinute pass.intervalLastRun)
  | wake {lastCronMinute : Option Nat} {intervalLastRun : List ℤ} {env : Environment V} :
      LoopMove g (.sleeping lastCronMinute intervalLastRun) env g
        (.top lastCronMinute intervalLastRun)

variable {g g' : TaskScheduler F V} {l l' : LoopAt F V} {env : Environment V}

theorem LoopMove.of_top {lastCronMinute : Option Nat} {intervalLastRun : List ℤ} :
    LoopMove g (.top lastCronMinute intervalLastRun) env g
      (if g.running then g.enterPass lastCronMinute intervalLastRun else .stopped) := by
  split_ifs with hrunning
  · unfold TaskScheduler.enterPass
    split_ifs with hminute
    · exact .enterSame hrunning hminute
    · exact .enter hrunning hminute
  · exact .stop (Bool.eq_false_iff.mpr hrunning)

theorem LoopMove.of_stepCron {pass : Pass} {i : Nat} (h : g.stepCron pass i = (g', l')) :
    LoopMove g (.visiting pass (.cron i)) env g' l' := by
  unfold TaskScheduler.stepCron at h
  split at h
  · cases h
    exact .cronEnd ‹_›
  · split_ifs at h with hnow
    · cases h
      exact .cronFire ‹_› hnow
    · cases h
      exact .cronSkip ‹_› (Bool.eq_false_iff.mpr hnow)

theorem LoopMove.of_stepInterval {pass : Pass} {i : Nat} (h : g.stepInterval pass i = (g', l')) :
    LoopMove g (.visiting pass (.interval i)) env g' l' := by
  unfold TaskScheduler.stepInterval at h
  split at h
  · cases h
    exact .intervalEnd ‹_›
  · rename_i task htask
    have hlt := (List.getElem?_eq_some_iff.mp htask).1
    split at h
    · rename_i hlast
      cases h
      exact .intervalDie hlt (List.getElem?_eq_none_iff.mp hlast)
    · split_ifs at h
      · cases h
        exact .intervalRun hlt rfl
      · cases h
        exact .intervalSkip hlt

theorem LoopMove.of_stepOneShot {pass : Pass} {i : Nat} {pending : List (OneShotTask F V)}
    (h : g.stepOneShot pass i pending = (g', l')) :
    LoopMove g (.visiting pass (.oneShot i pending)) env g' l' := by
  unfold TaskScheduler.stepOneShot at h
  split at h
  · cases h
    exact .oneShotEnd ‹_›
  · split_ifs at h with hdue
    · cases h
      exact .oneShotTake ‹_› hdue
    · cases h
      exact .oneShotKeep ‹_›

theorem LoopMove.of_finish {pass : Pass} {place : Place F V} {job : Job F V}
    (h : g.finish pass place (executeWithRetry job env) = (g', l')) :
    LoopMove g (.executing pass place job) env g' l' := by
  cases h
  split_ifs with hexit
  · exact .exit hexit
  · exact .finish hexit

theorem LoopMove.of_next (h : l.next g env = some (g', l')) : LoopMove g l env g' l' := by
  cases l with
  | starting =>
    cases h
    exact .size
  | top lastCronMinute intervalLastRun =>
    cases h
    exact .of_top
  | visiting pass place =>
    cases place with
    | cron i => exact .of_stepCron (Option.some.inj h)
    | interval i => exact .of_stepInterval (Option.some.inj h)
    | oneShot i pending => exact .of_stepOneShot (Option.some.inj h)
  | executing pass place job => exact .of_finish (Option.some.inj h)
  | swapping pass pending =>
    cases h
    exact .swap
  | sleeping lastCronMinute intervalLastRun =>
    cases h
    exact .wake
  | stopped => cases h
  | dead error => cases h

namespace System

variable {c c' : System F V}

theorem step_loop (h : step c (.loop env) = some c') :
    ∃ g l, LoopMove c.shared c.loop env g l ∧ c' = ⟨g, l, c.producers⟩ := by
  obtain ⟨⟨g, l⟩, hnext, rfl⟩ := Option.map_eq_some_iff.mp h
  exact ⟨g, l, .of_next hnext, rfl⟩

theorem step_produce {k : Nat} (h : step c (.produce k) = some c') :
    ∃ p g p', c.producers[k]? = some p ∧ p.next c.shared k = some (g, p') ∧
      c' = ⟨g, c.loop, c.producers.set k p'⟩ := by
  obtain ⟨p, hp, h⟩ := Option.bind_eq_some_iff.mp h
  obtain ⟨⟨g, p'⟩, hnext, rfl⟩ := Option.map_eq_some_iff.mp h
  exact ⟨p, g, p', hp, hnext, rfl⟩

theorem step_tick {reading : Reading} (h : step c (.tick reading) = some c') :
    c.shared.clock.time ≤ reading.time ∧ c.shared.clock.tm ≤ reading.tm ∧
      c' = { c with shared := { c.shared with clock := reading } } := by
  change (if _ then _ else _) = some c' at h
  split_ifs at h with hle
  cases h
  exact ⟨hle.1, hle.2, rfl⟩

end System

end Hypern.Scheduler
