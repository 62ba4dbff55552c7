import Mathlib.Algebra.Group.Int.Defs
import Mathlib.Data.Rat.Defs
import Mathlib.Tactic.SplitIfs
import Hypern.Tasks.Executor
import Hypern.Tasks.Blocking

/-! `background` and `submit_task` over the executor, with its clock: what is called for a request,
and when. -/

namespace Hypern.Tasks.Background

open Lib Blocking

/-- `delay_seconds`, where an `int` may stand for a `float`. -/
inductive Delay
  | none
  | int (n : Int)
  | float (x : ℚ)

/-- A call of a function decorated with `background`, or of `submit_task`. -/
inductive Request
  | background (handler : Value) (delaySeconds : Delay) (args : List Value)
    (kwargs : List (String × Value))
  | submitTask (handler : Value) (args : List Value) (delaySeconds : Delay)

structure Call where
  handler : Value
  positional : List Value
  keywords : List (String × Value)

/-- What `wrapped` and `submit_task` do, with or without a global executor. -/
inductive Dispatch
  | submit (handler args : Value) (delaySeconds : Delay)
  | call (call : Call)
  | nothing

def Request.dispatch (installed : Bool) : Request → Dispatch
  | .background handler delaySeconds args kwargs =>
    if installed then .submit handler (.tuple args) delaySeconds else .call ⟨handler, args, kwargs⟩
  | .submitTask handler args delaySeconds =>
    if installed then .submit handler (.tuple args) delaySeconds else .nothing

/-- `handler(*args, **kwargs)`. -/
def Request.direct : Request → Call
  | .background handler _ args kwargs => ⟨handler, args, kwargs⟩
  | .submitTask handler args _ => ⟨handler, args, []⟩

def Request.delaySeconds : Request → Delay
  | .background _ delaySeconds _ _ => delaySeconds
  | .submitTask _ _ delaySeconds => delaySeconds

inductive ArgumentError
  | typeError | overflowError

/-- The conversion of `delay_ms` to an `Option<u64>`, which takes no `float`. -/
def Delay.extract : Delay → Except ArgumentError (Option Nat)
  | .none => .ok Option.none
  | .int n => if 0 ≤ n ∧ n < 2 ^ 64 then .ok (some n.toNat) else .error .overflowError
  | .float _ => .error .typeError

/-- Instants and durations are in nanoseconds. -/
def fromMillis (ms : Nat) : Nat := ms * 10 ^ 6

/-- `delay_seconds` seconds have passed. -/
def Delay.Elapsed (since now : Nat) : Delay → Prop
  | .none => True
  | .int n => (since : ℤ) + n * 10 ^ 9 ≤ now
  | .float x => (since : ℚ) + x * 10 ^ 9 ≤ now

/-- A `BackgroundTask` with its times, and the number of the request it is for. -/
structure DelayedTask extends BackgroundTask Value where
  createdAt : Nat
  delay : Option Nat
  origin : Nat

def DelayedTask.due (task : DelayedTask) (now : Nat) : Prop :=
  task.createdAt + task.delay.getD 0 ≤ now

instance (task : DelayedTask) (now : Nat) : Decidable (task.due now) :=
  inferInstanceAs (Decidable (_ ≤ _))

/-- A call made by a worker; a coroutine is then run by `asyncio`. -/
structure Invocation extends Call where
  awaited : Bool
  origin : Nat
  time : Nat

/-- `handler.call1((args,))`, in both branches. -/
def DelayedTask.invocation (isCoroutine : Value → Bool) (task : DelayedTask) (now : Nat) :
    Invocation :=
  if isCoroutine task.handler then
    ⟨⟨task.handler, [task.args.getD .none], []⟩, true, task.origin, now⟩
  else ⟨⟨task.handler, [task.args.getD .none], []⟩, false, task.origin, now⟩

/-- `requests` records the requests with the times at which they were made. -/
structure Pool where
  clock : Nat
  numWorkers : Nat
  queueSize : Nat
  running : Bool
  counter : Nat
  queue : List DelayedTask
  status : String → Option TaskStatus
  requests : List (Request × Nat)
  calls : List Invocation

def Pool.setStatus (g : Pool) (id : String) (status : TaskStatus) : Pool :=
  { g with status := Function.update g.status id (some status) }

def Pool.hasRoom (g : Pool) : Prop := g.queue.length < max g.queueSize 1

instance (g : Pool) : Decidable g.hasRoom := inferInstanceAs (Decidable (_ < _))

/-- A caller up to the return of `submit`, and the places of `task_worker`. -/
inductive Party
  | calling (origin : Nat) (request : Request)
  | refused (error : ArgumentError)
  | created (task : DelayedTask)
  | inserted (task : DelayedTask)
  | returned (result : Except String String)
  | looping
  | polling
  | received (task : DelayedTask)
  | checked (task : DelayedTask)
  | marked (task : DelayedTask)
  | executed (task : DelayedTask)
  | stopped

/-- `timestamp` is the system time of `generate_id`, `status` how the handler ended. -/
inductive Turn
  | run (timestamp : Nat) (status : TaskStatus)
  | timeout

def Party.next (isCoroutine : Value → Bool) (g : Pool) : Party → Turn → Option (Pool × Party)
  | .calling origin request, .run timestamp _ =>
    match request.dispatch true with
    | .submit handler args delaySeconds =>
      match delaySeconds.extract with
      | .error error => some (g, .refused error)
      | .ok delayMs => some ({ g with counter := g.counter + 1 },
          .created ⟨⟨taskId timestamp (g.counter % 2 ^ 64), handler, some args⟩, g.clock,
            delayMs.map fromMillis, origin⟩)
    | _ => none
  | .created task, .run _ _ => some (g.setStatus task.id .pending, .inserted task)
  | .inserted task, .run _ _ =>
    if g.numWorkers = 0 then
      some (g, .returned (.error "Failed to submit task: sending on a disconnected channel"))
    else if g.hasRoom then some ({ g with queue := g.queue ++ [task] }, .returned (.ok task.id))
    else none
  | .looping, .run _ _ => some (g, if g.running then .polling else .stopped)
  | .polling, .run _ _ =>
    match g.queue with
    | [] => none
    | task :: queue => some ({ g with queue := queue }, .received task)
  | .polling, .timeout => if g.queue.isEmpty then some (g, .looping) else none
  | .received task, .run _ _ =>
    some (g, if g.status task.id = some .cancelled then .looping else .checked task)
  -- the thread sleeps for what is left of the delay
  | .checked task, .run _ _ =>
    if task.due g.clock then some (g.setStatus task.id .running, .marked task) else none
  | .marked task, .run _ _ =>
    some ({ g with calls := g.calls ++ [task.invocation isCoroutine g.clock] }, .executed task)
  | .executed task, .run _ status => some (g.setStatus task.id status, .looping)
  | _, _ => none

inductive Action
  | request (request : Request)
  | cancel (id : String)
  | shutdown
  | tick (nanos : Nat)
  | move (i : Nat) (turn : Turn)

abbrev System := Config Pool Party

namespace System

def start (numWorkers queueSize : Nat) : System :=
  ⟨⟨0, numWorkers, queueSize, true, 0, [], fun _ => none, [], []⟩,
    List.replicate numWorkers .looping⟩

def step (isCoroutine : Value → Bool) (c : System) : Action → Option System
  | .request request =>
    some ⟨{ c.shared with requests := c.shared.requests ++ [(request, c.shared.clock)] },
      c.threads ++ [.calling c.shared.requests.length request]⟩
  | .cancel id =>
    if c.shared.status id = some .pending then
      some { c with shared := c.shared.setStatus id .cancelled }
    else some c
  | .shutdown => some { c with shared := { c.shared with running := false } }
  | .tick nanos => some { c with shared := { c.shared with clock := c.shared.clock + nanos } }
  | .move i turn => stepThread (fun _ => Party.next isCoroutine) c i turn

end System

/-- Request `k` has led to exactly one call, that of the synchronous fallback, and not before its
delay. -/
def Pool.Direct (g : Pool) (k : Nat) : Prop :=
  ∃ request time call, g.requests[k]? = some (request, time) ∧
    g.calls.filter (·.origin = k) = [call] ∧ call.toCall = request.direct ∧
    request.delaySeconds.Elapsed time call.time

/-! ## The moves, one by one -/

inductive Move (isCoroutine : Value → Bool) (g : Pool) : Party → Turn → Pool → Party → Prop
  | refuse {origin timestamp : Nat} {request : Request} {status : TaskStatus}
      {error : ArgumentError} (h : request.delaySeconds.extract = .error error) :
      Move isCoroutine g (.calling origin request) (.run timestamp status) g (.refused error)
  | create {origin timestamp : Nat} {request : Request} {status : TaskStatus}
      {delayMs : Option Nat} (h : request.delaySeconds.extract = .ok delayMs) :
      Move isCoroutine g (.calling origin request) (.run timestamp status)
        { g with counter := g.counter + 1 }
        (.created ⟨⟨taskId timestamp (g.counter % 2 ^ 64), request.direct.handler,
          some (.tuple request.direct.positional)⟩, g.clock, delayMs.map fromMillis, origin⟩)
  | insert {task : DelayedTask} {timestamp : Nat} {status : TaskStatus} :
      Move isCoroutine g (.created task) (.run timestamp status) (g.setStatus task.id .pending)
        (.inserted task)
  | disconnect {task : DelayedTask} {timestamp : Nat} {status : TaskStatus}
      (h : g.numWorkers = 0) : Move isCoroutine g (.inserted task) (.run timestamp status) g
        (.returned (.error "Failed to submit task: sending on a disconnected channel"))
  | send {task : DelayedTask} {timestamp : Nat} {status : TaskStatus} (h : g.numWorkers ≠ 0)
      (hroom : g.hasRoom) : Move isCoroutine g (.inserted task) (.run timestamp status)
        { g with queue := g.queue ++ [task] } (.returned (.ok task.id))
  | poll {timestamp : Nat} {status : TaskStatus} (h : g.running = true) :
      Move isCoroutine g .looping (.run timestamp status) g .polling
  | stop {timestamp : Nat} {status : TaskStatus} (h : g.running = false) :
      Move isCoroutine g .looping (.run timestamp status) g .stopped
  | receive {task : DelayedTask} {queue : List DelayedTask} {timestamp : Nat}
      {status : TaskStatus} (h : g.queue = task :: queue) :
      Move isCoroutine g .polling (.run timestamp status) { g with queue := queue }
        (.received task)
  | timeOut (h : g.queue = []) : Move isCoroutine g .polling .timeout g .looping
  | skip {task : DelayedTask} {timestamp : Nat} {status : TaskStatus}
      (h : g.status task.id = some .cancelled) :
      Move isCoroutine g (.received task) (.run timestamp status) g .looping
  | check {task : DelayedTask} {timestamp : Nat} {status : TaskStatus}
      (h : g.status task.id ≠ some .cancelled) :
      Move isCoroutine g (.received task) (.run timestamp status) g (.checked task)
  | mark {task : DelayedTask} {timestamp : Nat} {status : TaskStatus} (h : task.due g.clock) :
      Move isCoroutine g (.checked task) (.run timestamp status)
        (g.setStatus task.id .running) (.marked task)
  | execute {task : DelayedTask} {timestamp : Nat} {status : TaskStatus} :
      Move isCoroutine g (.marked task) (.run timestamp status)
        { g with calls := g.calls ++ [task.invocation isCoroutine g.clock] } (.executed task)
  | record {task : DelayedTask} {timestamp : Nat} {status : TaskStatus} :
      Move isCoroutine g (.executed task) (.run timestamp status) (g.setStatus task.id status)
        .looping

theorem Request.dispatch_installed (request : Request) : request.dispatch true =
    .submit request.direct.handler (.tuple request.direct.positional) request.delaySeconds := by
  cases request <;> rfl

theorem Move.of_next {isCoroutine : Value → Bool} {g g' : Pool} {p p' : Party} {turn : Turn}
    (h : p.next isCoroutine g turn = some (g', p')) : Move isCoroutine g p turn g' p' := by
  cases turn with
  | timeout =>
    cases p with
    | polling =>
      change (if g.queue.isEmpty then some _ else none) = some (g', p') at h
      split_ifs at h with hempty
      cases h
      exact .timeOut (List.isEmpty_iff.mp hempty)
    | _ => cases h
  | run timestamp status =>
    cases p with
    | calling origin request =>
      simp only [Party.next, Request.dispatch_installed] at h
      cases hextract : request.delaySeconds.extract with
      | error error =>
        rw [hextract] at h
        cases h
        exact .refuse hextract
      | ok delayMs =>
        rw [hextract] at h
        cases h
        exact .create hextract
    | created task =>
      cases h
      exact .insert
    | inserted task =>
      change (if g.numWorkers = 0 then _ else _) = some (g', p') at h
      split_ifs at h with hworkers hroom
      · cases h
        exact .disconnect hworkers
      · cases h
        exact .send hworkers hroom
    | looping =>
      cases h
      split_ifs with hrunning
      · exact .poll hrunning
      · exact .stop (Bool.eq_false_iff.mpr hrunning)
    | polling =>
      cases hqueue : g.queue with
      | nil =>
        simp only [Party.next, hqueue] at h
        cases h
      | cons task queue =>
        simp only [Party.next, hqueue] at h
        cases h
        exact .receive hqueue
    | received task =>
      cases h
      split_ifs with hcancelled
      · exact .skip hcancelled
      · exact .check hcancelled
    | checked task =>
      change (if task.due g.clock then _ else _) = some (g', p') at h
      split_ifs at h with hdue
      cases h
      exact .mark hdue
    | marked task =>
      cases h
      exact .execute
    | executed task =>
      cases h
      exact .record
    | refused _ | returned _ | stopped => cases h

/-! ## What is called -/

/-- The task is for a request: it has the arguments as one tuple, and the seconds as
milliseconds. -/
structure TaskFor (requests : List (Request × Nat)) (task : DelayedTask) (request : Request)
    (time : Nat) : Prop where
  made : requests[task.origin]? = some (request, time)
  handler : task.handler = request.direct.handler
  args : task.args = some (.tuple request.direct.positional)
  createdAt : time ≤ task.createdAt
  delay : ∃ delayMs, request.delaySeconds.extract = .ok delayMs ∧
    task.delay = delayMs.map fromMillis

structure CallFor (requests : List (Request × Nat)) (call : Invocation) (request : Request)
    (time : Nat) : Prop where
  made : requests[call.origin]? = some (request, time)
  packed : call.toCall =
    ⟨request.direct.handler, [.tuple request.direct.positional], []⟩
  delay : ∃ delayMs, request.delaySeconds.extract = .ok delayMs ∧
    time + fromMillis (delayMs.getD 0) ≤ call.time

def Party.Good (g : Pool) : Party → Prop
  | .calling origin request => ∃ time ≤ g.clock, g.requests[origin]? = some (request, time)
  | .created task | .inserted task | .received task | .checked task =>
    ∃ request time, TaskFor g.requests task request time
  | .marked task => task.due g.clock ∧ ∃ request time, TaskFor g.requests task request time
  | _ => True

structure Pool.Good (g : Pool) : Prop where
  queue : ∀ task ∈ g.queue, ∃ request time, TaskFor g.requests task request time
  calls : ∀ call ∈ g.calls, ∃ request time, CallFor g.requests call request time

/-- Requests are only added, and the clock does not go back. -/
structure Pool.Later (g g' : Pool) : Prop where
  requests : g.requests <+: g'.requests
  clock : g.clock ≤ g'.clock

section Move

variable {isCoroutine : Value → Bool} {g g' : Pool} {p p' : Party} {turn : Turn}

theorem Pool.Later.made (h : g.Later g') {k : Nat} {entry : Request × Nat}
    (hk : g.requests[k]? = some entry) : g'.requests[k]? = some entry := by
  obtain ⟨more, hmore⟩ := h.requests
  obtain ⟨hlt, -⟩ := List.getElem?_eq_some_iff.mp hk
  rw [← hmore, List.getElem?_append_left hlt, hk]

theorem TaskFor.later {task : DelayedTask} (hlater : g.Later g')
    (h : ∃ request time, TaskFor g.requests task request time) :
    ∃ request time, TaskFor g'.requests task request time := by
  obtain ⟨request, time, h⟩ := h
  exact ⟨request, time, hlater.made h.made, h.handler, h.args, h.createdAt, h.delay⟩

theorem CallFor.later {call : Invocation} (hlater : g.Later g')
    (h : ∃ request time, CallFor g.requests call request time) :
    ∃ request time, CallFor g'.requests call request time := by
  obtain ⟨request, time, h⟩ := h
  exact ⟨request, time, hlater.made h.made, h.packed, h.delay⟩

theorem Party.Good.later (hlater : g.Later g') (h : p.Good g) : p.Good g' := by
  cases p with
  | calling origin request =>
    obtain ⟨time, hle, hmade⟩ := h
    exact ⟨time, Nat.le_trans hle hlater.clock, hlater.made hmade⟩
  | created task | inserted task | received task | checked task => exact TaskFor.later hlater h
  | marked task => exact ⟨Nat.le_trans h.1 hlater.clock, TaskFor.later hlater h.2⟩
  | _ => trivial

theorem Pool.Good.later (hlater : g.Later g') (h : g.Good) (hqueue : g'.queue = g.queue)
    (hcalls : g'.calls = g.calls) : g'.Good := by
  constructor
  · rw [hqueue]
    exact fun task htask => TaskFor.later hlater (h.queue task htask)
  · rw [hcalls]
    exact fun call hcall => CallFor.later hlater (h.calls call hcall)

theorem toCall_invocation (isCoroutine : Value → Bool) (task : DelayedTask) (now : Nat) :
    (task.invocation isCoroutine now).toCall = ⟨task.handler, [task.args.getD .none], []⟩ ∧
      (task.invocation isCoroutine now).origin = task.origin ∧
      (task.invocation isCoroutine now).time = now := by
  unfold DelayedTask.invocation
  split_ifs <;> exact ⟨rfl, rfl, rfl⟩

/-- The worker calls the handler with the tuple as its only argument. -/
theorem callFor_invocation {task : DelayedTask} {request : Request} {time : Nat}
    (h : TaskFor g.requests task request time) (hdue : task.due g.clock) :
    CallFor g.requests (task.invocation isCoroutine g.clock) request time := by
  obtain ⟨hcall, horigin, htime⟩ := toCall_invocation isCoroutine task g.clock
  obtain ⟨delayMs, hextract, hdelay⟩ := h.delay
  refine ⟨?_, ?_, delayMs, hextract, ?_⟩
  · rw [horigin]
    exact h.made
  · rw [hcall, h.handler, h.args]
    rfl
  · rw [htime]
    have hle : task.createdAt + task.delay.getD 0 ≤ g.clock := hdue
    have heq : task.delay.getD 0 = fromMillis (delayMs.getD 0) := by
      rw [hdelay]
      cases delayMs <;> rfl
    have hcreated := h.createdAt
    omega

theorem Move.later (h : Move isCoroutine g p turn g' p') : g.Later g' := by
  cases h <;> exact ⟨List.prefix_rfl, Nat.le_refl _⟩

theorem Move.pool_good (h : Move isCoroutine g p turn g' p') (hg : g.Good) (hp : p.Good g) :
    g'.Good := by
  have hlater := h.later
  cases h with
  | send _ _ =>
    exact ⟨forall_mem_concat hg.queue hp, hg.calls⟩
  | receive hqueue =>
    refine ⟨fun task htask => hg.queue task ?_, hg.calls⟩
    rw [hqueue]
    exact List.mem_cons_of_mem _ htask
  | execute =>
    obtain ⟨hdue, request, time, htask⟩ := hp
    refine ⟨hg.queue, forall_mem_concat hg.calls ?_⟩
    exact ⟨request, time, callFor_invocation htask hdue⟩
  | _ => exact hg.later hlater rfl rfl

theorem Move.party_good (h : Move isCoroutine g p turn g' p') (hg : g.Good) (hp : p.Good g) :
    p'.Good g' := by
  cases h with
  | create hextract =>
    obtain ⟨time, hle, hmade⟩ := hp
    exact ⟨_, time, hmade, rfl, rfl, hle, _, hextract, rfl⟩
  | insert => exact hp
  | receive hqueue =>
    refine hg.queue _ ?_
    rw [hqueue]
    exact List.mem_cons_self
  | check _ => exact hp
  | mark hdue => exact ⟨hdue, hp⟩
  | _ => trivial

end Move

namespace System

variable {isCoroutine : Value → Bool} {c c' : System} {a : Action}

structure Inv (c : System) : Prop where
  pool : c.shared.Good
  threads : ∀ p ∈ c.threads, p.Good c.shared

theorem Inv.later {g : Pool} (h : Inv c) (hlater : c.shared.Later g)
    (hqueue : g.queue = c.shared.queue) (hcalls : g.calls = c.shared.calls) :
    Inv ⟨g, c.threads⟩ :=
  ⟨h.pool.later hlater hqueue hcalls, fun p hp => (h.threads p hp).later hlater⟩

theorem Inv.step (h : Inv c) (hstep : step isCoroutine c a = some c') : Inv c' := by
  cases a with
  | request request =>
    cases hstep
    have hlater : c.shared.Later { c.shared with
        requests := c.shared.requests ++ [(request, c.shared.clock)] } :=
      ⟨List.prefix_append _ _, Nat.le_refl _⟩
    have hinv := h.later hlater rfl rfl
    refine ⟨hinv.pool, forall_mem_concat hinv.threads ?_⟩
    exact ⟨c.shared.clock, Nat.le_refl _, List.getElem?_concat_length⟩
  | cancel id =>
    change (if c.shared.status id = some .pending then _ else _) = some c' at hstep
    split_ifs at hstep
    · cases hstep
      exact h.later ⟨List.prefix_rfl, Nat.le_refl _⟩ rfl rfl
    · cases hstep
      exact h
  | shutdown =>
    cases hstep
    exact h.later ⟨List.prefix_rfl, Nat.le_refl _⟩ rfl rfl
  | tick nanos =>
    cases hstep
    exact h.later ⟨List.prefix_rfl, Nat.le_add_right _ _⟩ rfl rfl
  | move i turn =>
    change stepThread (fun _ => Party.next isCoroutine) c i turn = some c' at hstep
    obtain ⟨p, g, p', hi, hnext, rfl⟩ := stepThread_eq_some.mp hstep
    have hmove := Move.of_next hnext
    have hp := h.threads p (List.mem_of_getElem? hi)
    refine ⟨hmove.pool_good h.pool hp, forall_mem_set ?_ (hmove.party_good h.pool hp)⟩
    exact fun q hq => (h.threads q hq).later hmove.later

theorem inv_start (numWorkers queueSize : Nat) : Inv (start numWorkers queueSize) := by
  refine ⟨⟨fun _ h => absurd h List.not_mem_nil, fun _ h => absurd h List.not_mem_nil⟩, ?_⟩
  intro p hp
  rw [List.eq_of_mem_replicate hp]
  trivial

theorem ne_singleton_tuple (args : List Value) : [Value.tuple args] ≠ args := by
  intro h
  have hsize := congrArg sizeOf h
  simp only [List.cons.sizeOf_spec, List.nil.sizeOf_spec, Value.tuple.sizeOf_spec] at hsize
  omega

/-- No request leads to the call of the fallback: its arguments arrive as one tuple. -/
theorem not_direct {numWorkers queueSize : Nat}
    (h : Reaches (System.step isCoroutine) (start numWorkers queueSize) c) (k : Nat) :
    ¬ c.shared.Direct k := by
  rintro ⟨request, time, call, hmade, hcalls, hdirect, -⟩
  have hinv : Inv c := h.invariant (fun _ _ _ h hstep => h.step hstep) (inv_start _ _)
  have hmem : call ∈ c.shared.calls.filter (·.origin = k) := by
    rw [hcalls]
    exact List.mem_singleton_self call
  obtain ⟨hcall, horigin⟩ := List.mem_filter.mp hmem
  obtain ⟨request', time', hfor⟩ := hinv.pool.calls call hcall
  have hmade' := hfor.made
  rw [of_decide_eq_true horigin] at hmade'
  cases hmade.symm.trans hmade'
  have hpositional := congrArg Call.positional (hfor.packed.symm.trans hdirect)
  exact ne_singleton_tuple _ hpositional

/-- A call of a function decorated with `background(delay_seconds=2)`. -/
def reminder : Request := .background (.other 1) (.int 2) [.other 5] [("subject", .other 6)]

def reminderRun : List Action :=
  [.request reminder, .move 1 (.run 0 .completed), .move 1 (.run 0 .completed),
    .move 1 (.run 0 .completed), .move 0 (.run 0 .completed), .move 0 (.run 0 .completed),
    .move 0 (.run 0 .completed), .tick 2000000, .move 0 (.run 0 .completed),
    .move 0 (.run 0 .completed), .move 0 (.run 0 .completed)]

theorem reminderRun_calls : (exec (System.step fun _ => false) (start 1 1000) reminderRun).map
    (fun c => (c.shared.calls, c.shared.requests)) =
      some ([⟨⟨.other 1, [.tuple [.other 5]], []⟩, false, 0, 2000000⟩], [(reminder, 0)]) := rfl

theorem reminder_not_direct : ∃ c,
    Reaches (System.step fun _ => false) (start 1 1000) c ∧ c.shared.requests = [(reminder, 0)] ∧
      ¬ c.shared.Direct 0 := by
  obtain ⟨c, hexec, heq⟩ := Option.map_eq_some_iff.mp reminderRun_calls
  exact ⟨c, ⟨_, hexec⟩, congrArg Prod.snd heq, not_direct ⟨_, hexec⟩ 0⟩

/-- The reminder is called with a tuple, without its keyword, after two milliseconds. -/
theorem reminder_called_with_tuple : ∃ c,
    exec (System.step fun _ => false) (start 1 1000) reminderRun = some c ∧
      c.shared.calls = [⟨⟨.other 1, [.tuple [.other 5]], []⟩, false, 0, 2000000⟩] ∧
      ¬ c.shared.Direct 0 := by
  obtain ⟨c, hexec, heq⟩ := Option.map_eq_some_iff.mp reminderRun_calls
  have hcalls : c.shared.calls = _ := congrArg Prod.fst heq
  have hrequests : c.shared.requests = _ := congrArg Prod.snd heq
  refine ⟨c, hexec, hcalls, ?_⟩
  rintro ⟨request, time, call, hmade, hfilter, hdirect, -⟩
  rw [hrequests] at hmade
  rw [hcalls] at hfilter
  cases hmade
  cases hfilter
  cases hdirect

end System

end Hypern.Tasks.Background
