import Mathlib.Logic.Function.Basic
import Hypern.Lib.Hex
import Hypern.Lib.Threads

/-! `TaskExecutor`: callers of `submit` and `cancel`, the bounded queue, the results and the
worker threads. The clock readings and what a handler returns are choices of a step. -/

namespace Hypern.Tasks

open Lib

inductive TaskStatus
  | pending | running | completed | failed | cancelled
  deriving DecidableEq

def TaskStatus.isFinal : TaskStatus → Bool
  | .completed => true
  | .failed => true
  | .cancelled => true
  | _ => false

structure TaskResult where
  taskId : String
  status : TaskStatus
  result : Option String
  error : Option String
  startedAt : Option Nat
  completedAt : Option Nat

structure BackgroundTask (Py : Type) where
  id : String
  handler : Py
  args : Option Py

/-- `generate_id` at a time and a value of the counter. -/
def taskId (timestamp count : Nat) : String :=
  String.ofList ("task_".toList ++ (hex 16 timestamp ++ '_' :: hex 8 count))

/-- The counter is a `u64`; `counter` counts the calls, of which it holds the remainder. `calls`
records the tasks whose handler was called and `cancelled` the ids for which `cancel` returned
`true`. -/
structure Executor (Py : Type) where
  numWorkers : Nat
  queueSize : Nat
  queue : List (BackgroundTask Py)
  results : String → Option TaskResult
  counter : Nat
  calls : List (BackgroundTask Py)
  cancelled : List String

namespace Executor

variable {Py : Type} (e : Executor Py)

def new (numWorkers queueSize : Nat) : Executor Py :=
  ⟨numWorkers, queueSize, [], fun _ => none, 0, [], []⟩

def status (id : String) : Option TaskStatus := (e.results id).map (·.status)

/-- `generate_id` and the task built from it. -/
def newTask (timestamp : Nat) (handler : Py) (args : Option Py) : BackgroundTask Py :=
  ⟨taskId timestamp (e.counter % 2 ^ 64), handler, args⟩

def insertPending (id : String) : Executor Py :=
  { e with results :=
      Function.update e.results id (some ⟨id, .pending, none, none, none, none⟩) }

/-- `get_mut` followed by an assignment to fields of the entry, if there is one. -/
def modify (id : String) (f : TaskResult → TaskResult) : Executor Py :=
  { e with results := Function.update e.results id ((e.results id).map f) }

/-- A queue of size zero hands a task over directly, which is a queue of one place here. -/
def hasRoom : Prop := e.queue.length < max e.queueSize 1

instance : Decidable e.hasRoom := inferInstanceAs (Decidable (_ < _))

def cancel (id : String) : Executor Py :=
  if e.status id = some .pending then
    { e.modify id ({ · with status := .cancelled }) with cancelled := id :: e.cancelled }
  else e

def markRunning (id : String) (now : Nat) : Executor Py :=
  e.modify id ({ · with status := .running, startedAt := some now })

def record (id : String) (outcome : Except String String) (now : Nat) : Executor Py :=
  e.modify id fun r => match outcome with
    | .ok res => { r with status := .completed, result := some res, completedAt := some now }
    | .error err => { r with status := .failed, error := some err, completedAt := some now }

end Executor

/-- A call of `submit`. -/
inductive SubmitAt (Py : Type)
  | called (handler : Py) (args : Option Py)
  | created (task : BackgroundTask Py)
  | inserted (task : BackgroundTask Py)
  | returned (result : Except String String)

/-- `task_worker`. -/
inductive WorkerAt (Py : Type)
  | idle
  | received (task : BackgroundTask Py)
  | checked (task : BackgroundTask Py)
  | delayed (task : BackgroundTask Py)
  | marked (task : BackgroundTask Py)
  | executed (task : BackgroundTask Py) (outcome : Except String String)

inductive Choice
  | timeout
  | run (now : Nat) (outcome : Except String String)

variable {Py : Type}

def SubmitAt.next (e : Executor Py) : SubmitAt Py → Choice → Option (Executor Py × SubmitAt Py)
  | .called handler args, .run now _ =>
    some ({ e with counter := e.counter + 1 }, .created (e.newTask now handler args))
  | .created task, .run _ _ => some (e.insertPending task.id, .inserted task)
  | .inserted task, .run _ _ =>
    if e.numWorkers = 0 then
      some (e, .returned (.error "Failed to submit task: sending on a disconnected channel"))
    else if e.hasRoom then some ({ e with queue := e.queue ++ [task] }, .returned (.ok task.id))
    else none
  | _, _ => none

def WorkerAt.next (e : Executor Py) : WorkerAt Py → Choice → Option (Executor Py × WorkerAt Py)
  | .idle, .timeout => some (e, .idle)
  | .idle, .run _ _ =>
    match e.queue with
    | [] => none
    | task :: queue => some ({ e with queue := queue }, .received task)
  | .received task, .run _ _ =>
    some (e, if e.status task.id = some .cancelled then .idle else .checked task)
  | .checked task, .run _ _ => some (e, .delayed task)
  | .delayed task, .run now _ => some (e.markRunning task.id now, .marked task)
  | .marked task, .run _ outcome =>
    some ({ e with calls := task :: e.calls }, .executed task outcome)
  | .executed task outcome, .run now _ => some (e.record task.id outcome now, .idle)
  | _, _ => none

/-! ## The moves, one by one -/

inductive SubmitMove (e : Executor Py) : SubmitAt Py → Choice → Executor Py → SubmitAt Py → Prop
  | create {handler : Py} {args : Option Py} {now : Nat} {outcome : Except String String} :
      SubmitMove e (.called handler args) (.run now outcome) { e with counter := e.counter + 1 }
        (.created (e.newTask now handler args))
  | insert {task : BackgroundTask Py} {now : Nat} {outcome : Except String String} :
      SubmitMove e (.created task) (.run now outcome) (e.insertPending task.id) (.inserted task)
  | refuse {task : BackgroundTask Py} {now : Nat} {outcome : Except String String}
      (h : e.numWorkers = 0) : SubmitMove e (.inserted task) (.run now outcome) e
        (.returned (.error "Failed to submit task: sending on a disconnected channel"))
  | send {task : BackgroundTask Py} {now : Nat} {outcome : Except String String}
      (h : e.numWorkers ≠ 0) (hroom : e.hasRoom) :
      SubmitMove e (.inserted task) (.run now outcome) { e with queue := e.queue ++ [task] }
        (.returned (.ok task.id))

inductive WorkerMove (e : Executor Py) : WorkerAt Py → Choice → Executor Py → WorkerAt Py → Prop
  | timeOut : WorkerMove e .idle .timeout e .idle
  | receive {task : BackgroundTask Py} {queue : List (BackgroundTask Py)} {now : Nat}
      {outcome : Except String String} (h : e.queue = task :: queue) :
      WorkerMove e .idle (.run now outcome) { e with queue := queue } (.received task)
  | skip {task : BackgroundTask Py} {now : Nat} {outcome : Except String String}
      (h : e.status task.id = some .cancelled) :
      WorkerMove e (.received task) (.run now outcome) e .idle
  | check {task : BackgroundTask Py} {now : Nat} {outcome : Except String String}
      (h : e.status task.id ≠ some .cancelled) :
      WorkerMove e (.received task) (.run now outcome) e (.checked task)
  | delay {task : BackgroundTask Py} {now : Nat} {outcome : Except String String} :
      WorkerMove e (.checked task) (.run now outcome) e (.delayed task)
  | mark {task : BackgroundTask Py} {now : Nat} {outcome : Except String String} :
      WorkerMove e (.delayed task) (.run now outcome) (e.markRunning task.id now) (.marked task)
  | execute {task : BackgroundTask Py} {now : Nat} {outcome : Except String String} :
      WorkerMove e (.marked task) (.run now outcome) { e with calls := task :: e.calls }
        (.executed task outcome)
  | record {task : BackgroundTask Py} {now : Nat} {outcome outcome' : Except String String} :
      WorkerMove e (.executed task outcome) (.run now outcome') (e.record task.id outcome now) .idle

theorem SubmitMove.of_next {e e' : Executor Py} {pc pc' : SubmitAt Py} {choice : Choice}
    (h : pc.next e choice = some (e', pc')) : SubmitMove e pc choice e' pc' := by
  unfold SubmitAt.next at h
  split at h
  · cases h
    exact .create
  · cases h
    exact .insert
  · split_ifs at h with hworkers hroom
    · cases h
      exact .refuse hworkers
    · cases h
      exact .send hworkers hroom
  · cases h

theorem WorkerMove.of_next {e e' : Executor Py} {pc pc' : WorkerAt Py} {choice : Choice}
    (h : pc.next e choice = some (e', pc')) : WorkerMove e pc choice e' pc' := by
  unfold WorkerAt.next at h
  split at h
  · cases h
    exact .timeOut
  · split at h
    · cases h
    · cases h
      exact .receive ‹_›
  · cases h
    split_ifs with hcancelled
    · exact .skip hcancelled
    · exact .check hcancelled
  · cases h
    exact .delay
  · cases h
    exact .mark
  · cases h
    exact .execute
  · cases h
    exact .record
  · cases h

/-! ## Effects on the entry of a task -/

namespace Executor

variable (e : Executor Py) (id : String)

@[simp] theorem queue_markRunning (now : Nat) : (e.markRunning id now).queue = e.queue := rfl

@[simp] theorem numWorkers_markRunning (now : Nat) :
    (e.markRunning id now).numWorkers = e.numWorkers := rfl

@[simp] theorem queueSize_markRunning (now : Nat) :
    (e.markRunning id now).queueSize = e.queueSize := rfl

@[simp] theorem queue_insertPending : (e.insertPending id).queue = e.queue := rfl

@[simp] theorem numWorkers_insertPending : (e.insertPending id).numWorkers = e.numWorkers := rfl

@[simp] theorem queueSize_insertPending : (e.insertPending id).queueSize = e.queueSize := rfl

theorem status_modify (f : TaskResult → TaskResult) (other : String) :
    (e.modify id f).status other =
      if other = id then (e.results id).map fun r => (f r).status else e.status other := by
  change (Function.update e.results id _ other).map _ = _
  rw [Function.update_apply]
  split_ifs with h
  · exact Option.map_map ..
  · rfl

theorem status_modify_self {f : TaskResult → TaskResult} {st : TaskStatus}
    (hf : ∀ r, (f r).status = st) (h : (e.status id).isSome) :
    (e.modify id f).status id = some st := by
  unfold status at h
  rw [Option.isSome_map] at h
  obtain ⟨r, hr⟩ := Option.isSome_iff_exists.mp h
  rw [status_modify, if_pos rfl, hr, Option.map_some, hf]

theorem status_modify_of_ne (f : TaskResult → TaskResult) {other : String} (h : other ≠ id) :
    (e.modify id f).status other = e.status other := by
  rw [status_modify, if_neg h]

theorem status_insertPending (other : String) :
    (e.insertPending id).status other =
      if other = id then some .pending else e.status other := by
  change (Function.update e.results id _ other).map _ = _
  rw [Function.update_apply]
  split_ifs with h
  · rfl
  · rfl

/-- Cancellation changes the entry of a pending task. -/
theorem status_cancel (other : String) : (e.cancel id).status other =
    if other = id ∧ e.status id = some .pending then some .cancelled else e.status other := by
  unfold cancel
  split_ifs with hpending hboth hboth
  · obtain ⟨rfl, -⟩ := hboth
    exact e.status_modify_self other (fun _ => rfl) (by rw [hpending]; rfl)
  · exact e.status_modify_of_ne id _ fun heq => hboth ⟨heq, hpending⟩
  · exact absurd hboth.2 hpending
  · rfl

theorem queue_cancel : (e.cancel id).queue = e.queue := by
  unfold cancel
  split_ifs <;> rfl

end Executor

/-- Ids of different values of the counter differ, whatever the times. -/
theorem taskId_count_eq {t t' m n : Nat} (h : taskId t m = taskId t' n) : m = n := by
  unfold taskId at h
  rw [String.ofList_inj] at h
  have htail := List.append_cancel_left h
  have hparts := (List.append_cons_inj_of_notMem (underscore_notMem_hex 16 t)
    (underscore_notMem_hex 8 m)).mp htail
  exact hex_injective 8 hparts.2.2

end Hypern.Tasks
