import Mathlib.Data.List.Nodup
import Mathlib.Data.List.Range
import Hypern.Lib.Threads

/-! How `http_execute` gets an answer: it queues a call of the handler for the threads of the
`BlockingRunner`, which are all started in advance, and waits for the word that the call is over. A
thread steps the coroutine of a handler itself, through the C interface of Python. -/

namespace Hypern.Core.BlockingRunner

open Lib

/-- What `send(None)` does. -/
inductive Sent
  | yielded
  | stopIteration
  | raised
  deriving DecidableEq

/-- A call of a handler: whether `PyObject_Call` returns an object, whether that has a `send`, and
what each `send` does. -/
structure Job where
  isAsync : Bool
  returns : Bool
  hasSend : Bool
  send : Nat → Sent

/-- The places of a thread in `blocking_worker` and in the closure of `future_into_py`. -/
inductive Place
  | receiving
  | calling (task : Nat)
  | called (task : Nat)
  | stepping (task : Nat) (sends : Nat)
  | releasing (task : Nat)
  | completing (task : Nat)

/-- The references to Python objects that a thread has to give back, and whether its error
indicator is set. -/
structure Worker where
  place : Place
  owned : Int
  error : Bool

namespace Worker

/-- A call of the C interface returns a new reference. -/
def gain (w : Worker) : Worker := { w with owned := w.owned + 1 }

/-- `Py_DECREF` -/
def decref (w : Worker) : Worker := { w with owned := w.owned - 1 }

/-- A call of the C interface returns null. -/
def raise (w : Worker) : Worker := { w with error := true }

/-- `PyErr_Print` and `PyErr_Clear` -/
def clear (w : Worker) : Worker := { w with error := false }

def goto (w : Worker) (place : Place) : Worker := { w with place := place }

end Worker

/-- A future of `http_execute`, which the server drops when the client goes away. -/
inductive Caller
  | awaiting
  | answered
  | dropped
  deriving DecidableEq

/-- `jobs` are the calls that the requests ask for, none where no handler is registered; `started`
and `completed` are the tasks that were received, and those whose `on_complete` was called. -/
structure Pool where
  jobs : List (Option Job)
  callers : List Caller
  queue : List Nat
  started : List Nat
  completed : List Nat

namespace Pool

def job (g : Pool) (task : Nat) : Option Job := (g.jobs[task]?).join

/-- `get_handler_info`, and the call of `spawn_blocking`. A request without a handler is answered at
once. -/
def request (g : Pool) (job : Option Job) : Pool :=
  { g with
    jobs := g.jobs ++ [job]
    callers := g.callers ++ [if job.isSome then .awaiting else .answered]
    queue := if job.isSome then g.queue ++ [g.jobs.length] else g.queue }

/-- `rx.await` returns once `on_complete` has sent. -/
def resume (g : Pool) (task : Nat) : Option Pool :=
  if g.callers[task]? = some .awaiting ∧ task ∈ g.completed then
    some { g with callers := g.callers.set task .answered }
  else none

def drop (g : Pool) (task : Nat) : Option Pool :=
  if g.callers[task]? = some .awaiting then some { g with callers := g.callers.set task .dropped }
  else none

end Pool

/-- The next step of a thread. -/
def next (_ : Nat) (g : Pool) (w : Worker) (_ : Unit) : Option (Pool × Worker) :=
  match w.place with
  | .receiving =>
    match g.queue with
    | [] => none
    | task :: queue =>
      some ({ g with queue := queue, started := g.started ++ [task] }, w.goto (.calling task))
  | .calling task =>
    (g.job task).map fun job =>
      if !job.returns then (g, w.raise.clear.goto (.completing task))
      else if job.isAsync then (g, w.gain.goto (.called task))
      else (g, w.gain.decref.goto (.completing task))
  | .called task =>
    (g.job task).map fun job =>
      if job.hasSend then (g, w.gain.goto (.stepping task 0))
      else (g, w.raise.clear.decref.goto (.completing task))
  | .stepping task sends =>
    (g.job task).map fun job =>
      match job.send sends with
      | .yielded => (g, w.gain.decref.goto (.stepping task (sends + 1)))
      | .stopIteration | .raised => (g, w.raise.clear.goto (.releasing task))
  | .releasing task => some (g, w.decref.decref.goto (.completing task))
  | .completing task => some ({ g with completed := g.completed ++ [task] }, w.goto .receiving)

inductive Action
  | request (job : Option Job)
  | resume (task : Nat)
  | drop (task : Nat)
  | work (thread : Nat)

abbrev System := Config Pool Worker

namespace System

def init (maxThreads : Nat) : System :=
  ⟨⟨[], [], [], [], []⟩, List.replicate maxThreads ⟨.receiving, 0, false⟩⟩

def step (c : System) : Action → Option System
  | .request job => some ⟨c.shared.request job, c.threads⟩
  | .resume task => (c.shared.resume task).map fun g => ⟨g, c.threads⟩
  | .drop task => (c.shared.drop task).map fun g => ⟨g, c.threads⟩
  | .work i => stepThread next c i ()

end System

/-! ## One thread -/

namespace Place

/-- The references that the closure has at a place: to the coroutine, and to its `send`. -/
def refs : Place → Int
  | .receiving | .calling _ | .completing _ => 0
  | .called _ => 1
  | .stepping _ _ | .releasing _ => 2

def task? : Place → Option Nat
  | .receiving => none
  | .calling task | .called task | .stepping task _ | .releasing task | .completing task => some task

end Place

/-- Every reference is given back where the closure says, and no error is left behind. -/
structure Worker.Balanced (w : Worker) : Prop where
  owned : w.owned = w.place.refs
  error : w.error = false

variable {g g' : Pool} {w w' : Worker} {c c' : System} {a : Action} {i task : Nat} {turn : Unit}

/-- The step of a thread. -/
inductive Move (g : Pool) (w : Worker) : Pool → Worker → Prop
  | receive (task : Nat) (queue : List Nat) (at_ : w.place = .receiving)
    (hqueue : g.queue = task :: queue) :
    Move g w { g with queue := queue, started := g.started ++ [task] } (w.goto (.calling task))
  | fail (task : Nat) (at_ : w.place = .calling task) :
    Move g w g (w.raise.clear.goto (.completing task))
  | call (task : Nat) (at_ : w.place = .calling task) : Move g w g (w.gain.goto (.called task))
  | callSync (task : Nat) (at_ : w.place = .calling task) :
    Move g w g (w.gain.decref.goto (.completing task))
  | getSend (task : Nat) (at_ : w.place = .called task) :
    Move g w g (w.gain.goto (.stepping task 0))
  | noSend (task : Nat) (at_ : w.place = .called task) :
    Move g w g (w.raise.clear.decref.goto (.completing task))
  | yield (task sends : Nat) (job : Job) (at_ : w.place = .stepping task sends)
    (hjob : g.job task = some job) (hsend : job.send sends = .yielded) :
    Move g w g (w.gain.decref.goto (.stepping task (sends + 1)))
  | finish (task sends : Nat) (at_ : w.place = .stepping task sends) :
    Move g w g (w.raise.clear.goto (.releasing task))
  | release (task : Nat) (at_ : w.place = .releasing task) :
    Move g w g (w.decref.decref.goto (.completing task))
  | complete (task : Nat) (at_ : w.place = .completing task) :
    Move g w { g with completed := g.completed ++ [task] } (w.goto .receiving)

theorem next_move (h : next i g w turn = some (g', w')) : Move g w g' w' := by
  unfold next at h
  cases hplace : w.place with
  | receiving =>
    simp only [hplace] at h
    cases hqueue : g.queue with
    | nil => simp [hqueue] at h
    | cons task queue =>
      simp only [hqueue, Option.some.injEq, Prod.mk.injEq] at h
      obtain ⟨rfl, rfl⟩ := h
      exact .receive task queue hplace hqueue
  | calling task =>
    simp only [hplace] at h
    obtain ⟨job, hjob, heq⟩ := Option.map_eq_some_iff.mp h
    split_ifs at heq <;> cases heq
    · exact .fail task hplace
    · exact .call task hplace
    · exact .callSync task hplace
  | called task =>
    simp only [hplace] at h
    obtain ⟨job, hjob, heq⟩ := Option.map_eq_some_iff.mp h
    split_ifs at heq <;> cases heq
    · exact .getSend task hplace
    · exact .noSend task hplace
  | stepping task sends =>
    simp only [hplace] at h
    obtain ⟨job, hjob, heq⟩ := Option.map_eq_some_iff.mp h
    cases hsend : job.send sends with
    | yielded =>
      rw [hsend] at heq
      cases heq
      exact .yield task sends job hplace hjob hsend
    | stopIteration | raised =>
      rw [hsend] at heq
      cases heq
      exact .finish task sends hplace
  | releasing task =>
    simp only [hplace, Option.some.injEq, Prod.mk.injEq] at h
    obtain ⟨rfl, rfl⟩ := h
    exact .release task hplace
  | completing task =>
    simp only [hplace, Option.some.injEq, Prod.mk.injEq] at h
    obtain ⟨rfl, rfl⟩ := h
    exact .complete task hplace

theorem Move.balanced (h : Move g w g' w') (hw : w.Balanced) : w'.Balanced := by
  obtain ⟨howned, herror⟩ := hw
  cases h with
  | receive task queue hat | complete task hat =>
    rw [hat] at howned
    exact ⟨howned, herror⟩
  | fail task hat | finish task sends hat =>
    rw [hat] at howned
    exact ⟨howned, rfl⟩
  | call task hat | callSync task hat | getSend task hat | yield task sends job hat | release task hat =>
    rw [hat] at howned
    refine ⟨?_, herror⟩
    simp only [Worker.goto, Worker.gain, Worker.decref, howned, Place.refs]
    omega
  | noSend task hat =>
    rw [hat] at howned
    refine ⟨?_, rfl⟩
    simp only [Worker.goto, Worker.raise, Worker.clear, Worker.decref, howned, Place.refs]
    omega

/-! ## All requests -/

namespace System

inductive Step (c : System) : Action → System → Prop
  | request (job : Option Job) : Step c (.request job) ⟨c.shared.request job, c.threads⟩
  | resume (task : Nat) (waits : c.shared.callers[task]? = some .awaiting)
    (ended : task ∈ c.shared.completed) :
    Step c (.resume task)
      ⟨{ c.shared with callers := c.shared.callers.set task .answered }, c.threads⟩
  | drop (task : Nat) (waits : c.shared.callers[task]? = some .awaiting) :
    Step c (.drop task) ⟨{ c.shared with callers := c.shared.callers.set task .dropped }, c.threads⟩
  | work (i : Nat) (w w' : Worker) (g' : Pool) (hi : c.threads[i]? = some w)
    (move : Move c.shared w g' w') : Step c (.work i) ⟨g', c.threads.set i w'⟩

theorem step_cases (h : step c a = some c') : Step c a c' := by
  cases a with
  | request job =>
    cases h
    exact .request job
  | resume task =>
    obtain ⟨g, hg, rfl⟩ := Option.map_eq_some_iff.mp h
    unfold Pool.resume at hg
    split_ifs at hg with hcond
    cases hg
    exact .resume task hcond.1 hcond.2
  | drop task =>
    obtain ⟨g, hg, rfl⟩ := Option.map_eq_some_iff.mp h
    unfold Pool.drop at hg
    split_ifs at hg with hcond
    cases hg
    exact .drop task hcond
  | work i =>
    obtain ⟨w, g, w', hi, hnext, rfl⟩ := stepThread_eq_some.mp h
    exact .work i w w' g hi (next_move hnext)

/-- The requests that ask for a call, in the order they came. -/
def asked (g : Pool) : List Nat := (List.range g.jobs.length).filter fun task => (g.job task).isSome

def holds (task : Nat) (w : Worker) : Bool := w.place.task? = some task

theorem countP_goto {w : Worker} (hi : c.threads[i]? = some w) (task : Nat) (place : Place) :
    (c.threads.set i (w.goto place)).countP (holds task) +
        (if w.place.task? = some task then 1 else 0) =
      c.threads.countP (holds task) + if place.task? = some task then 1 else 0 := by
  have hadd := countP_set_add (holds task) hi (w.goto place)
  simp only [holds, decide_eq_true_eq] at hadd ⊢
  exact hadd

/-- Tasks start in the order they were asked for; one that has started is with one thread or over,
once. -/
structure Sound (c : System) : Prop where
  fifo : asked c.shared = c.shared.started ++ c.shared.queue
  once : ∀ task, c.threads.countP (holds task) + c.shared.completed.count task =
    c.shared.started.count task
  balanced : ∀ w ∈ c.threads, w.Balanced
  callers : c.shared.callers.length = c.shared.jobs.length
  answered : ∀ task, c.shared.callers[task]? = some .answered →
    c.shared.job task = none ∨ task ∈ c.shared.completed
  awaiting : ∀ task, c.shared.callers[task]? = some .awaiting → c.shared.job task ≠ none

theorem asked_nodup (g : Pool) : (asked g).Nodup := List.nodup_range.filter _

theorem job_request (g : Pool) (job : Option Job) (task : Nat) :
    (g.request job).job task = if task = g.jobs.length then job else g.job task := by
  unfold Pool.job Pool.request
  rcases Nat.lt_trichotomy task g.jobs.length with hlt | rfl | hgt
  · rw [List.getElem?_append_left hlt, if_neg (Nat.ne_of_lt hlt)]
  · simp
  · rw [List.getElem?_eq_none (by simp; omega), if_neg (Nat.ne_of_gt hgt),
      List.getElem?_eq_none (Nat.le_of_lt hgt)]

theorem asked_request (g : Pool) (job : Option Job) :
    asked (g.request job) = asked g ++ if job.isSome then [g.jobs.length] else [] := by
  unfold asked
  have hlength : (g.request job).jobs.length = g.jobs.length + 1 := by simp [Pool.request]
  rw [hlength, List.range_succ, List.filter_append]
  congr 1
  · apply List.filter_congr
    intro task htask
    rw [job_request, if_neg (Nat.ne_of_lt (List.mem_range.mp htask))]
  · rw [List.filter_singleton, job_request, if_pos rfl]
    cases job <;> rfl

variable {c c' : System} {a : Action}

theorem Sound.init (maxThreads : Nat) : Sound (init maxThreads) := by
  refine ⟨rfl, fun task => ?_, fun w hw => ?_, rfl, by simp [System.init], by simp [System.init]⟩
  · have hnone : (System.init maxThreads).threads.countP (holds task) = 0 := by
      rw [List.countP_eq_zero]
      intro w hw
      rw [List.eq_of_mem_replicate hw]
      simp [holds, Place.task?]
    rw [hnone]
    rfl
  · rw [List.eq_of_mem_replicate hw]
    exact ⟨rfl, rfl⟩

theorem Sound.request (h : Sound c) (job : Option Job) :
    Sound ⟨c.shared.request job, c.threads⟩ := by
  have hcases : ∀ task caller, (c.shared.request job).callers[task]? = some caller →
      (c.shared.callers[task]? = some caller ∧ (c.shared.request job).job task = c.shared.job task) ∨
        (c.shared.request job).job task = job ∧ caller = if job.isSome then .awaiting else .answered := by
    intro task caller htask
    rw [job_request]
    rcases getElem?_concat_cases htask with hold | ⟨rfl, hnew⟩
    · have hlt : task < c.shared.jobs.length := h.callers ▸ (List.getElem?_eq_some_iff.mp hold).1
      exact .inl ⟨hold, if_neg (Nat.ne_of_lt hlt)⟩
    · exact .inr ⟨if_pos h.callers, hnew⟩
  refine ⟨?_, h.once, h.balanced, ?_, fun task htask => ?_, fun task htask => ?_⟩
  · rw [asked_request, h.fifo]
    cases job <;> simp [Pool.request]
  · simp [Pool.request, h.callers]
  · rcases hcases task _ htask with ⟨hold, hjob⟩ | ⟨hjob, hnew⟩
    · rw [hjob]
      exact h.answered task hold
    · left
      rw [hjob]
      cases job with
      | none => rfl
      | some job => cases hnew
  · rcases hcases task _ htask with ⟨hold, hjob⟩ | ⟨hjob, hnew⟩
    · rw [hjob]
      exact h.awaiting task hold
    · rw [hjob]
      cases job with
      | none => cases hnew
      | some job => simp

theorem Sound.work (h : Sound c) {w w' : Worker} {g' : Pool} (hi : c.threads[i]? = some w)
    (hmove : Move c.shared w g' w') : Sound ⟨g', c.threads.set i w'⟩ := by
  have hbalanced : ∀ x ∈ c.threads.set i w', x.Balanced :=
    forall_mem_set h.balanced (hmove.balanced (h.balanced w (List.mem_of_getElem? hi)))
  -- a thread that goes on with its task holds it as before
  have hsame : g' = c.shared → w'.place.task? = w.place.task? → Sound ⟨g', c.threads.set i w'⟩ := by
    rintro rfl hplace
    refine ⟨h.fifo, fun task => ?_, hbalanced, h.callers, h.answered, h.awaiting⟩
    rw [countP_set_of_eq _ hi (by simp only [holds, hplace])]
    exact h.once task
  cases hmove with
  | receive first queue hat hqueue =>
    refine ⟨?_, fun task => ?_, hbalanced, h.callers, h.answered, h.awaiting⟩
    · have hfifo := h.fifo
      rw [hqueue] at hfifo
      change asked c.shared = (c.shared.started ++ [first]) ++ queue
      rw [hfifo, List.append_assoc, List.singleton_append]
    · have hadd := countP_goto hi task (.calling first)
      have honce := h.once task
      rw [hat] at hadd
      simp only [Place.task?, reduceCtorEq, if_false, Option.some.injEq] at hadd
      rw [List.count_append, List.count_singleton]
      simp only [beq_iff_eq]
      omega
  | complete last hat =>
    refine ⟨h.fifo, fun task => ?_, hbalanced, h.callers, fun task htask => ?_, h.awaiting⟩
    · have hadd := countP_goto hi task .receiving
      have honce := h.once task
      rw [hat] at hadd
      simp only [Place.task?, reduceCtorEq, if_false, Option.some.injEq] at hadd
      rw [List.count_append, List.count_singleton]
      simp only [beq_iff_eq]
      omega
    · exact (h.answered task htask).imp_right (List.mem_append_left _)
  | fail task hat | call task hat | callSync task hat | getSend task hat | noSend task hat
    | release task hat => exact hsame rfl (by rw [hat]; rfl)
  | yield task sends job hat | finish task sends hat => exact hsame rfl (by rw [hat]; rfl)

/-- A future that ends changes nothing else. -/
theorem Sound.settle (h : Sound c) {caller : Caller} (hcaller : caller ≠ .awaiting)
    (hover : caller = .answered → task ∈ c.shared.completed) :
    Sound ⟨{ c.shared with callers := c.shared.callers.set task caller }, c.threads⟩ := by
  refine ⟨h.fifo, h.once, h.balanced, by simpa using h.callers, fun other hother => ?_,
    fun other hother => ?_⟩
  · rcases getElem?_set_cases hother with ⟨rfl, hnew⟩ | ⟨-, hold⟩
    · exact .inr (hover hnew.symm)
    · exact h.answered other hold
  · rcases getElem?_set_cases hother with ⟨-, hnew⟩ | ⟨-, hold⟩
    · exact absurd hnew.symm hcaller
    · exact h.awaiting other hold

theorem Sound.step (h : Sound c) (hstep : step c a = some c') : Sound c' := by
  cases step_cases hstep with
  | request job => exact h.request job
  | resume task hwaits hover => exact h.settle (by decide) fun _ => hover
  | drop task hwaits => exact h.settle (by decide) (by simp)
  | work i w w' g' hi hmove => exact h.work hi hmove

theorem Sound.of_reaches {maxThreads : Nat} (h : Reaches System.step (System.init maxThreads) c) : Sound c :=
  h.invariant (fun _ _ _ hs hstep => hs.step hstep) (.init maxThreads)

theorem Sound.started_le_one (h : Sound c) (task : Nat) : c.shared.started.count task ≤ 1 := by
  have hnodup := asked_nodup c.shared
  rw [h.fifo] at hnodup
  exact List.nodup_iff_count_le_one.mp hnodup.of_append_left task

end System

/-- In every run calls are started in the order of their requests, and each is with one thread, or
over; `on_complete` is called once for each. A thread that waits for the next has given back all its
references and left no error, and a request that is answered has no handler, or its call is over. -/
theorem calls_run_once {maxThreads : Nat} (h : Reaches System.step (System.init maxThreads) c) :
    c.shared.started ++ c.shared.queue = System.asked c.shared ∧
      c.shared.completed.Nodup ∧
      (∀ task ∈ c.shared.started,
        (task ∈ c.shared.completed ∧ ∀ w ∈ c.threads, w.place.task? ≠ some task) ∨
        (task ∉ c.shared.completed ∧ c.threads.countP (System.holds task) = 1)) ∧
      (∀ w ∈ c.threads, w.place = .receiving → w.owned = 0 ∧ w.error = false) ∧
      ∀ task, c.shared.callers[task]? = some .answered →
        c.shared.job task = none ∨ task ∈ c.shared.completed := by
  have hsound := System.Sound.of_reaches h
  refine ⟨hsound.fifo.symm, ?_, fun task htask => ?_, fun w hw hplace => ?_, hsound.answered⟩
  · rw [List.nodup_iff_count_le_one]
    intro task
    have honce := hsound.once task
    have hle := hsound.started_le_one task
    omega
  · have honce := hsound.once task
    have hle := hsound.started_le_one task
    have hpos := List.count_pos_iff.mpr htask
    by_cases hover : task ∈ c.shared.completed
    · have hover' := List.count_pos_iff.mpr hover
      have hnone : c.threads.countP (System.holds task) = 0 := by omega
      refine .inl ⟨hover, fun w hw hplace => ?_⟩
      exact List.countP_eq_zero.mp hnone w hw (by simp [System.holds, hplace])
    · have hnot := List.count_eq_zero.mpr hover
      exact .inr ⟨hover, by omega⟩
  · have hbalanced := hsound.balanced w hw
    have howned := hbalanced.owned
    rw [hplace] at howned
    exact ⟨howned, hbalanced.error⟩

/-- A handler that awaits once, and a request for it. -/
def awaitsOnce : Job := ⟨true, true, true, fun sends => if sends = 0 then .yielded else .stopIteration⟩

def oneCall : List Action := .request (some awaitsOnce) :: List.replicate 7 (.work 0)

theorem calls_run_once_oneCall :
    ∃ c, exec System.step (System.init 1) oneCall = some c ∧ c.shared.callers = [.awaiting] ∧
      c.shared.started ++ c.shared.queue = System.asked c.shared ∧ c.shared.completed.Nodup :=
  have hrun := @calls_run_once _ 1 ⟨oneCall, rfl⟩
  ⟨_, rfl, rfl, hrun.1, hrun.2.1⟩

/-! ## The end of a call -/

/-- The steps that a place is from the next task, if the call of `task` sends at most
`bound task` times before the coroutine ends. -/
def Place.stepsLeft (bound : Nat → Nat) : Place → Nat
  | .receiving => 0
  | .calling task => bound task + 5
  | .called task => bound task + 4
  | .stepping task sends => bound task - sends + 3
  | .releasing _ => 2
  | .completing _ => 1

/-- The coroutine of every call ends by the send that the bound gives. -/
def Pool.Ends (g : Pool) (bound : Nat → Nat) : Prop :=
  ∀ task job, g.job task = some job → job.send (bound task) ≠ .yielded

/-- What a thread has sent so far has not ended the coroutine. -/
def Pool.Unended (g : Pool) (w : Worker) : Prop :=
  ∀ task sends job, w.place = .stepping task sends → g.job task = some job →
    ∀ earlier < sends, job.send earlier = .yielded

namespace System

/-- The steps that are left once no request comes in. -/
def load (bound : Nat → Nat) (c : System) : Nat :=
  weight (fun task => bound task + 6) c.shared.queue +
    weight (fun w => w.place.stepsLeft bound) c.threads +
    weight (fun caller => if caller = .awaiting then 1 else 0) c.shared.callers

end System

theorem Pool.Unended.lt {bound : Nat → Nat} {sends : Nat} {job : Job} (h : g.Unended w)
    (hends : g.Ends bound) (hat : w.place = .stepping task sends) (hjob : g.job task = some job)
    (hsend : job.send sends = .yielded) : sends < bound task := by
  have hbound : job.send (bound task) ≠ .yielded := hends task job hjob
  rcases Nat.lt_trichotomy sends (bound task) with hlt | heq | hgt
  · exact hlt
  · rw [heq] at hsend
    exact absurd hsend hbound
  · exact absurd (h task sends job hat hjob _ hgt) hbound

theorem Move.jobs (h : Move g w g' w') : g'.jobs = g.jobs := by
  cases h <;> rfl

theorem Move.callers (h : Move g w g' w') : g'.callers = g.callers := by
  cases h <;> rfl

theorem Move.unended (h : Move g w g' w') (hw : g.Unended w) : g'.Unended w' := by
  have hjob : g'.job = g.job := by
    unfold Pool.job
    rw [h.jobs]
  intro task sends job hat hjob'
  rw [hjob] at hjob'
  cases h with
  | getSend at_ hplace =>
    cases hat
    intro earlier hlt
    exact absurd hlt (Nat.not_lt_zero _)
  | yield last prior other hplace hother hsend =>
    obtain ⟨rfl, rfl⟩ : last = task ∧ prior + 1 = sends := by
      simpa [Worker.goto] using hat
    obtain rfl : other = job := Option.some.inj (hother.symm.trans hjob')
    intro earlier hlt
    rcases Nat.lt_succ_iff_lt_or_eq.mp hlt with hold | rfl
    · exact hw last prior other hplace hother earlier hold
    · exact hsend
  | _ => cases hat

/-- Every move of a thread uses up some of what is left. -/
theorem Move.lowers {bound : Nat → Nat} (h : Move g w g' w') (hw : g.Unended w) (hends : g.Ends bound) :
    weight (fun task => bound task + 6) g'.queue + w'.place.stepsLeft bound <
      weight (fun task => bound task + 6) g.queue + w.place.stepsLeft bound := by
  cases h with
  | receive first queue hat hqueue =>
    rw [hqueue, hat]
    simp only [weight, Worker.goto, Place.stepsLeft]
    omega
  | yield task sends job hat hjob hsend =>
    have hlt : sends < bound task := hw.lt hends hat hjob hsend
    rw [hat]
    simp only [Worker.goto, Place.stepsLeft]
    omega
  | fail task hat | call task hat | callSync task hat | getSend task hat | noSend task hat
    | release task hat | complete task hat | finish task sends hat =>
    rw [hat]
    simp only [Worker.goto, Worker.gain, Place.stepsLeft]
    omega

/-- What is not a request: the threads go on, and the futures end. -/
def Action.isRequest : Action → Bool
  | .request _ => true
  | _ => false

namespace System

variable {c c' : System} {a : Action} {bound : Nat → Nat}

theorem Sound.started_of_held (h : Sound c) {w : Worker} (hw : w ∈ c.threads)
    (hplace : w.place.task? = some task) : task ∈ c.shared.started := by
  have honce := h.once task
  have hpos : 0 < c.threads.countP (holds task) :=
    List.countP_pos_iff.mpr ⟨w, hw, by simp [holds, hplace]⟩
  exact List.count_pos_iff.mp (by omega)

theorem Sound.job_of_held (h : Sound c) {w : Worker} (hw : w ∈ c.threads)
    (hplace : w.place.task? = some task) : ∃ job, c.shared.job task = some job := by
  have hasked : task ∈ asked c.shared := by
    rw [h.fifo]
    exact List.mem_append_left _ (h.started_of_held hw hplace)
  exact Option.isSome_iff_exists.mp (List.mem_filter.mp hasked).2

/-- Sound, and no thread goes on with a coroutine that is over. -/
structure Live (maxThreads : Nat) (c : System) : Prop where
  sound : Sound c
  unended : ∀ w ∈ c.threads, c.shared.Unended w
  threads : c.threads.length = maxThreads

theorem Live.init (maxThreads : Nat) : Live maxThreads (init maxThreads) := by
  refine ⟨.init maxThreads, fun w hw task sends job hat => ?_, List.length_replicate⟩
  rw [List.eq_of_mem_replicate hw] at hat
  cases hat

theorem Live.step {maxThreads : Nat} (h : Live maxThreads c) (hstep : System.step c a = some c') :
    Live maxThreads c' := by
  have hsound : Sound c' := h.sound.step hstep
  cases step_cases hstep with
  | request job =>
    refine ⟨hsound, fun w hw task sends other hat hother => ?_, h.threads⟩
    -- the task of a thread is not the new one
    obtain ⟨held, hheld⟩ := h.sound.job_of_held  hw (by rw [hat]; rfl)
    have hne : task ≠ c.shared.jobs.length := by
      rintro rfl
      simp [Pool.job] at hheld
    rw [job_request, if_neg hne] at hother
    exact h.unended w hw task sends other hat hother
  | resume | drop => exact ⟨hsound, h.unended, h.threads⟩
  | work i w w' g' hi hmove =>
    have hjob : g'.job = c.shared.job := by
      unfold Pool.job
      rw [hmove.jobs]
    refine ⟨hsound, forall_mem_set (fun x hx => ?_) ?_, ?_⟩
    · unfold Pool.Unended
      rw [hjob]
      exact h.unended x hx
    · exact hmove.unended (h.unended w (List.mem_of_getElem? hi))
    · rw [List.length_set]
      exact h.threads

theorem Live.of_reaches {maxThreads : Nat} (h : Reaches System.step (System.init maxThreads) c) :
    Live maxThreads c :=
  h.invariant (fun _ _ _ hs hstep => hs.step hstep) (.init maxThreads)

theorem weight_settle {callers : List Caller} {caller : Caller}
    (hwaits : callers[task]? = some .awaiting) (hcaller : caller ≠ .awaiting) :
    weight (fun x => if x = Caller.awaiting then 1 else 0) (callers.set task caller) + 1 =
      weight (fun x => if x = Caller.awaiting then 1 else 0) callers := by
  have hadd := weight_set_add (fun x => if x = Caller.awaiting then 1 else 0) hwaits caller
  rw [if_pos rfl, if_neg hcaller] at hadd
  exact hadd

theorem Live.lowers {maxThreads : Nat} (h : Live maxThreads c) (hends : c.shared.Ends bound)
    (ha : a.isRequest = false) (hstep : System.step c a = some c') : load bound c' < load bound c := by
  unfold load
  cases step_cases hstep with
  | request job => cases ha
  | resume task hwaits hover =>
    have hsettle := weight_settle hwaits (show Caller.answered ≠ .awaiting by decide)
    dsimp only
    omega
  | drop task hwaits =>
    have hsettle := weight_settle hwaits (show Caller.dropped ≠ .awaiting by decide)
    dsimp only
    omega
  | work i w w' g' hi hmove =>
    have hmoved := weight_set_add (fun w => w.place.stepsLeft bound) hi w'
    have hlowers := hmove.lowers (h.unended w (List.mem_of_getElem? hi)) hends
    rw [hmove.callers]
    dsimp only at hmoved ⊢
    omega

theorem jobs_step (ha : a.isRequest = false) (hstep : System.step c a = some c') :
    c'.shared.jobs = c.shared.jobs := by
  cases step_cases hstep with
  | request job => cases ha
  | resume | drop => rfl
  | work i w w' g' hi hmove => exact hmove.jobs

/-- A thread that holds a task has a next step. -/
theorem next_of_held {w : Worker} {job : Job} (hplace : w.place.task? = some task)
    (hjob : c.shared.job task = some job) : ∃ r, next i c.shared w () = some r := by
  unfold next
  cases hat : w.place <;> rw [hat] at hplace <;> cases hplace <;> simp [hjob]

/-- Where no thread can go on every call is over. -/
theorem Live.idle {maxThreads : Nat} (h : Live maxThreads c) (hthreads : 0 < maxThreads)
    (hblocked : ∀ i, System.step c (.work i) = none) :
    c.shared.queue = [] ∧ ∀ task ∈ asked c.shared, task ∈ c.shared.completed := by
  have hnone : ∀ i w, c.threads[i]? = some w → next i c.shared w () = none := by
    intro i w hi
    have hstuck := hblocked i
    simp only [System.step, stepThread, hi, Option.bind_some, Option.map_eq_none_iff] at hstuck
    exact hstuck
  have hfree : ∀ w ∈ c.threads, w.place.task? = none := by
    intro w hw
    obtain ⟨i, hi⟩ := List.mem_iff_getElem?.mp hw
    cases hplace : w.place.task? with
    | none => rfl
    | some task =>
      obtain ⟨job, hjob⟩ := h.sound.job_of_held hw hplace
      obtain ⟨r, hr⟩ := next_of_held (i := i) hplace hjob
      rw [hnone i w hi] at hr
      cases hr
  have hqueue : c.shared.queue = [] := by
    obtain ⟨w, hw⟩ := List.exists_mem_of_length_pos (h.threads ▸ hthreads)
    obtain ⟨i, hi⟩ := List.mem_iff_getElem?.mp hw
    have hreceiving : w.place = .receiving := by
      have htask := hfree w hw
      cases hat : w.place with
      | receiving => rfl
      | _ =>
        rw [hat] at htask
        cases htask
    have hstuck := hnone i w hi
    simp only [next, hreceiving] at hstuck
    cases hqueue : c.shared.queue with
    | nil => rfl
    | cons task queue => simp [hqueue] at hstuck
  refine ⟨hqueue, fun task htask => ?_⟩
  rw [h.sound.fifo, hqueue, List.append_nil] at htask
  have honce := h.sound.once task
  have hpos : 0 < c.shared.started.count task := List.count_pos_iff.mpr htask
  have hunheld : c.threads.countP (holds task) = 0 := by
    rw [List.countP_eq_zero]
    intro w hw
    simp [holds, hfree w hw]
  exact List.count_pos_iff.mp (by omega)

end System

/-- If every coroutine ends within the sends that `bound` gives, then once no more requests come in a
run has at most `load` steps left; where it stops every call is over, and no client waits. -/
theorem requests_finish {maxThreads : Nat} {bound : Nat → Nat} {as : List Action}
    (hthreads : 0 < maxThreads) (h : Reaches System.step (System.init maxThreads) c)
    (hends : c.shared.Ends bound) (hquiet : ∀ a ∈ as, a.isRequest = false)
    (hexec : exec System.step c as = some c') :
    as.length + System.load bound c' ≤ System.load bound c ∧
      ((∀ i, System.step c' (.work i) = none) → (∀ task, System.step c' (.resume task) = none) →
        c'.shared.queue = [] ∧ (∀ task ∈ System.asked c'.shared, task ∈ c'.shared.completed) ∧
          ∀ task : Nat, c'.shared.callers[task]? ≠ some .awaiting) := by
  have hlive := System.Live.of_reaches h
  have hlive' : System.Live maxThreads c' :=
    .of_reaches (h.trans ⟨as, hexec⟩)
  constructor
  · have hquietly : Along System.step (fun _ a => a.isRequest = false) c as :=
      .of_forall (fun a ha _ => hquiet a ha) c
    have hstep : ∀ d a d', System.Live maxThreads d ∧ d.shared.Ends bound → a.isRequest = false →
        System.step d a = some d' →
        (System.Live maxThreads d' ∧ d'.shared.Ends bound) ∧
          System.load bound d' < System.load bound d := by
      intro d a d' hd ha hd'
      refine ⟨⟨hd.1.step hd', ?_⟩, hd.1.lowers hd.2 ha hd'⟩
      unfold Pool.Ends Pool.job
      rw [System.jobs_step ha hd']
      exact hd.2
    exact hquietly.length_add_rank_le (System.load bound) hstep ⟨hlive, hends⟩ hexec
  · intro hblocked hresumed
    obtain ⟨hqueue, hover⟩ := hlive'.idle hthreads hblocked
    refine ⟨hqueue, hover, fun task hwaits => ?_⟩
    have hresume := hresumed task
    have hasked : task ∈ System.asked c'.shared := by
      obtain ⟨job, hjob⟩ := Option.ne_none_iff_exists'.mp (hlive'.sound.awaiting task hwaits)
      have hlt : task < c'.shared.jobs.length := by
        rw [← hlive'.sound.callers]
        exact (List.getElem?_eq_some_iff.mp hwaits).1
      exact List.mem_filter.mpr ⟨List.mem_range.mpr hlt, by rw [hjob]; rfl⟩
    simp [System.step, Pool.resume, hwaits, hover task hasked] at hresume

/-- The states after the request, and after the answer. -/
def asking : System := ⟨⟨[some awaitsOnce], [.awaiting], [0], [], []⟩, [⟨.receiving, 0, false⟩]⟩

def told : System := ⟨⟨[some awaitsOnce], [.answered], [], [0], [0]⟩, [⟨.receiving, 0, false⟩]⟩

theorem requests_finish_oneCall :
    exec System.step asking (oneCall.drop 1 ++ [Action.resume 0]) = some told ∧
      (oneCall.drop 1 ++ [Action.resume 0]).length + System.load (fun _ => 1) told ≤
        System.load (fun _ => 1) asking := by
  refine ⟨rfl, (@requests_finish asking told 1 (fun _ => 1) (oneCall.drop 1 ++ [Action.resume 0])
    (by decide) ⟨oneCall.take 1, rfl⟩ (fun task job hjob => ?_) ?_ rfl).1⟩
  · cases task with
    | zero =>
      cases hjob
      decide
    | succ task => cases hjob
  · simp [oneCall, Action.isRequest]

end Hypern.Core.BlockingRunner
