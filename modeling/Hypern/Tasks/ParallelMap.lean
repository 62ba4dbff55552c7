import Hypern.Lib.Fallible
import Hypern.Tasks.ThreadPool
import Mathlib.Tactic.SplitIfs

/-! What `map` and `run_parallel` return is what calling the items one after another returns,
whichever workers take the work and in whatever order they finish. -/

namespace Hypern.Tasks.ThreadPool

open Lib Blocking

/-- The first of the outcomes that is a failure. -/
structure FirstFailure (outcomes : List Outcome) (k : Nat) (failure : Failure) : Prop where
  fails : outcomes[k]? = some (.error failure)
  before : ∀ j < k, ∃ obj, outcomes[j]? = some (.ok obj)

/-- `outcomes` are those of the work items a call has sent, `calls` is what calling its items one
after another gives. -/
def Sequentially (outcomes calls : List Outcome) (result : Except CallError Value) : Prop :=
  ((∀ outcome ∈ outcomes, ∃ obj, outcome = .ok obj) ∧
    ∃ values : List Value, calls = values.map .ok ∧ result = .ok (.list values)) ∨
  ∃ k failure, FirstFailure outcomes k failure ∧
    result = .error (.runtime (failure.message "Worker disconnected"))

section Outcomes

variable {outcomes : List Outcome} {k : Nat} {failure : Failure}

theorem FirstFailure.head (failure : Failure) (outcomes : List Outcome) :
    FirstFailure (.error failure :: outcomes) 0 failure := ⟨rfl, nofun⟩

theorem FirstFailure.tail (obj : Value) (h : FirstFailure outcomes k failure) :
    FirstFailure (.ok obj :: outcomes) (k + 1) failure := by
  refine ⟨h.fails, fun j hj => ?_⟩
  cases j with
  | zero => exact ⟨obj, rfl⟩
  | succ j => exact h.before j (Nat.lt_of_succ_lt_succ hj)

theorem Sequentially.head (failure : Failure) (outcomes calls : List Outcome) :
    Sequentially (.error failure :: outcomes) calls
      (.error (.runtime (failure.message "Worker disconnected"))) :=
  .inr ⟨0, failure, .head failure outcomes, rfl⟩

theorem Sequentially.tail {calls : List Outcome} {result : Except CallError Value} (obj : Value)
    (h : Sequentially outcomes calls result) : Sequentially (.ok obj :: outcomes) calls result := by
  rcases h with ⟨hok, hvalues⟩ | ⟨k, failure, hfirst, hresult⟩
  · exact .inl ⟨List.forall_mem_cons.mpr ⟨⟨obj, rfl⟩, hok⟩, hvalues⟩
  · exact .inr ⟨k + 1, failure, hfirst.tail obj, hresult⟩

theorem Sequentially.nil (values : List Value) :
    Sequentially [] (values.map .ok ++ []) (.ok (.list values)) := by
  refine .inl ⟨fun _ h => absurd h List.not_mem_nil, values, ?_, rfl⟩
  rw [List.append_nil]

theorem appendResults_spec (outcomes : List Outcome) (results : List Value) :
    Sequentially outcomes (results.map .ok ++ outcomes) (appendResults outcomes results) := by
  induction outcomes generalizing results with
  | nil => exact .nil results
  | cons outcome outcomes ih =>
    cases outcome with
    | error failure => exact .head failure outcomes _
    | ok obj =>
      have htail := ih (results ++ [obj])
      rw [List.map_append, List.append_assoc] at htail
      exact htail.tail obj

/-- Receivers are collected in the order of their chunks, so sorting them changes nothing. -/
theorem mergeSort_zipIdx (outcomes : List Outcome) :
    outcomes.zipIdx.mergeSort (fun a b => a.2 ≤ b.2) = outcomes.zipIdx := by
  apply List.mergeSort_of_pairwise
  have hlt : (outcomes.zipIdx.map Prod.snd).Pairwise (· < ·) := by
    rw [List.zipIdx_map_snd]
    exact List.pairwise_lt_range'
  refine (List.pairwise_map.mp hlt).imp fun hab => ?_
  exact decide_eq_true (Nat.le_of_lt hab)

end Outcomes

/-! ## The slices -/

theorem chunks_flatten {chunk : Nat} (hchunk : 0 < chunk) (items : List Value) (fuel start : Nat)
    (h : items.length ≤ start + fuel) :
    (chunks chunk items fuel start).flatten = items.drop start := by
  induction fuel generalizing start with
  | zero => exact (List.drop_eq_nil_of_le h).symm
  | succ fuel ih =>
    unfold chunks
    split_ifs with hstart
    · rw [List.flatten_cons, ih _ (by omega)]
      have hdrop : items.drop (min (start + chunk) items.length) =
          (items.drop start).drop (min (start + chunk) items.length - start) := by
        rw [List.drop_drop]
        congr 1
        omega
      rw [hdrop, List.take_append_drop]
    · exact (List.drop_eq_nil_of_le (Nat.le_of_not_lt hstart)).symm

theorem chunks_ne_nil {chunk : Nat} (hchunk : 0 < chunk) (items : List Value) (fuel start : Nat) :
    ∀ slice ∈ chunks chunk items fuel start, slice ≠ [] := by
  induction fuel generalizing start with
  | zero => exact fun _ h => absurd h List.not_mem_nil
  | succ fuel ih =>
    unfold chunks
    split_ifs with hstart
    · refine List.forall_mem_cons.mpr ⟨?_, ih _⟩
      apply List.ne_nil_of_length_pos
      rw [List.length_take, List.length_drop]
      omega
    · exact fun _ h => absurd h List.not_mem_nil

theorem chunkOf_pos (maxThreads total chunkSize : Nat) : 0 < chunkOf maxThreads total chunkSize :=
  Nat.lt_of_lt_of_le Nat.zero_lt_one (Nat.le_max_right _ _)

/-- The work item for a slice. -/
def chunkWork (py : Interpreter) (callable : Value) (slice : List Value) : WorkItem :=
  ⟨py.wrapper, [callable, .list slice], none⟩

theorem map_plan (py : Interpreter) (maxThreads : Nat) (callable : Value) (items : List Value)
    (chunkSize : Nat) : ∃ (slices : List (List Value)) (ending : Ending),
      (Method.map callable items chunkSize).plan py maxThreads =
        (slices.map (chunkWork py callable), ending) ∧
      (slices = [] ∧ ending = .returns ∨ ending = .collects) ∧
      slices.flatten = items ∧ ∀ slice ∈ slices, slice ≠ [] := by
  by_cases hitems : items = []
  · refine ⟨[], .returns, ?_, .inl ⟨rfl, rfl⟩, hitems.symm, fun _ h => absurd h List.not_mem_nil⟩
    exact if_pos hitems
  · have hchunk := chunkOf_pos maxThreads items.length chunkSize
    refine ⟨chunks (chunkOf maxThreads items.length chunkSize) items items.length 0, .collects, ?_,
      .inr rfl, ?_, chunks_ne_nil hchunk items _ _⟩
    · exact if_neg hitems
    · exact chunks_flatten hchunk items _ _ (by omega)

/-- The outcome of a slice, beside what calling its items gives. -/
theorem executeWork_chunkWork (py : Interpreter) (callable : Value) (slice : List Value) :
    (∃ failure, executeWork py (chunkWork py callable slice) = .error failure) ∨
    ∃ values : List Value, executeWork py (chunkWork py callable slice) = .ok (.list values) ∧
      (slice.map fun item => py.call callable [item] none) = values.map .ok := by
  have hcall : executeWork py (chunkWork py callable slice) =
      (slice.mapM fun item => py.call callable [item] none).map .list := py.call_wrapper _ _
  rw [hcall]
  cases hvalues : slice.mapM fun item => py.call callable [item] none with
  | error failure => exact .inl ⟨failure, rfl⟩
  | ok values => exact .inr ⟨values, rfl, map_eq_of_mapM hvalues⟩

theorem appendChunks_spec (py : Interpreter) (callable : Value) (slices : List (List Value))
    {outcomes : List (Outcome × Nat)} (results : List Value)
    (h : outcomes.map Prod.fst =
      slices.map fun slice => executeWork py (chunkWork py callable slice)) :
    Sequentially (outcomes.map Prod.fst)
      (results.map .ok ++ slices.flatten.map fun item => py.call callable [item] none)
      (appendChunks outcomes results) := by
  induction slices generalizing outcomes results with
  | nil =>
    obtain rfl := List.map_eq_nil_iff.mp h
    exact .nil results
  | cons slice slices ih =>
    obtain ⟨⟨outcome, i⟩, outcomes, rfl, houtcome, htail⟩ := List.map_eq_cons_iff.mp h
    change outcome = executeWork py (chunkWork py callable slice) at houtcome
    rw [List.map_cons, List.flatten_cons, List.map_append]
    rcases executeWork_chunkWork py callable slice with ⟨failure, hfailure⟩ | ⟨values, hok, hcalls⟩
    · rw [houtcome, hfailure]
      exact .head failure _ _
    · rw [houtcome, hok, hcalls, ← List.append_assoc, ← List.map_append]
      exact (ih (results ++ values) htail).tail _

/-! ## Parsing the tasks -/

/-- The first element of the list that is no task. -/
structure FirstMalformed (tasks : List Value) (k : Nat) (error : TaskError) : Prop where
  fails : (tasks.map parseTask)[k]? = some (.error error)
  before : ∀ j < k, ∃ work, (tasks.map parseTask)[j]? = some (.ok work)

theorem parseTasks_spec (tasks : List Value) :
    (tasks.map parseTask = (parseTasks tasks).1.map .ok ∧ (parseTasks tasks).2 = .collects) ∨
    ∃ k error, FirstMalformed tasks k error ∧ (parseTasks tasks).2 = .fails error := by
  induction tasks with
  | nil => exact .inl ⟨rfl, rfl⟩
  | cons task tasks ih =>
    unfold parseTasks
    cases hparse : parseTask task with
    | error error =>
      refine .inr ⟨0, error, ⟨?_, nofun⟩, rfl⟩
      rw [List.map_cons, hparse]
      rfl
    | ok work =>
      rcases ih with ⟨hall, hending⟩ | ⟨k, error, hfirst, hending⟩
      · refine .inl ⟨?_, hending⟩
        rw [List.map_cons, hparse, hall]
        rfl
      · refine .inr ⟨k + 1, error, ⟨hfirst.fails, fun j hj => ?_⟩, hending⟩
        rw [List.map_cons, hparse]
        cases j with
        | zero => exact ⟨work, rfl⟩
        | succ j => exact hfirst.before j (Nat.lt_of_succ_lt_succ hj)

/-! ## What a call returns -/

/-- What a call that has sent `jobs` may return. -/
def Method.Sequential (py : Interpreter) (jobs : List Job) (result : Except CallError Value) :
    Method → Prop
  | .runSync work => jobs.map Job.work = [work] ∧
    ((∃ obj, executeWork py work = .ok obj ∧ result = .ok obj) ∨
      ∃ failure, executeWork py work = .error failure ∧ result =
        .error (.runtime (failure.message "Worker thread disconnected unexpectedly")))
  | .runParallel tasks =>
    (∃ works, tasks.map parseTask = works.map .ok ∧ jobs.map Job.work = works ∧
      Sequentially (works.map (executeWork py)) (works.map (executeWork py)) result) ∨
    ∃ k error, FirstMalformed tasks k error ∧ result = .error (.task error)
  | .map callable items _ =>
    ∃ slices : List (List Value), jobs.map Job.work = slices.map (chunkWork py callable) ∧
      slices.flatten = items ∧ (∀ slice ∈ slices, slice ≠ []) ∧
      Sequentially (slices.map fun slice => executeWork py (chunkWork py callable slice))
        (items.map fun item => py.call callable [item] none) result

/-- The result in terms of the plan, once all of the work is executed. -/
def Method.planned (py : Interpreter) (maxThreads : Nat) (method : Method) :
    Except CallError Value :=
  match (method.plan py maxThreads).2 with
  | .returns => .ok (.list [])
  | .collects => method.result ((method.plan py maxThreads).1.map (executeWork py))
  | .fails error => .error (.task error)

theorem Method.sequential_planned (py : Interpreter) (maxThreads : Nat) (method : Method)
    {jobs : List Job} (h : jobs.map Job.work = (method.plan py maxThreads).1) :
    method.Sequential py jobs (method.planned py maxThreads) := by
  cases method with
  | runSync work =>
    refine ⟨h, ?_⟩
    have hplanned : (Method.runSync work).planned py maxThreads =
      (Method.runSync work).result [executeWork py work] := rfl
    rw [hplanned]
    cases hwork : executeWork py work with
    | ok obj => exact .inl ⟨obj, rfl, rfl⟩
    | error failure => exact .inr ⟨failure, rfl, rfl⟩
  | runParallel tasks =>
    change jobs.map Job.work = (parseTasks tasks).1 at h
    unfold Method.planned
    change Method.Sequential py jobs (match (parseTasks tasks).2 with
      | .returns => _ | .collects => _ | .fails error => _) _
    rcases parseTasks_spec tasks with ⟨hall, hending⟩ | ⟨k, error, hfirst, hending⟩
    · rw [hending]
      exact .inl ⟨_, hall, h, appendResults_spec _ []⟩
    · rw [hending]
      exact .inr ⟨k, error, hfirst, rfl⟩
  | map callable items chunkSize =>
    obtain ⟨slices, ending, hplan, hending, hflatten, hne⟩ :=
      map_plan py maxThreads callable items chunkSize
    unfold Method.planned
    rw [hplan] at h ⊢
    refine ⟨slices, h, hflatten, hne, ?_⟩
    rcases hending with ⟨rfl, rfl⟩ | rfl
    · rw [← hflatten]
      exact .nil []
    · change Sequentially _ _ (appendChunks (List.mergeSort _ _) [])
      rw [mergeSort_zipIdx, ← hflatten]
      have hfst : ((slices.map (chunkWork py callable)).map (executeWork py)).zipIdx.map Prod.fst =
          slices.map fun slice => executeWork py (chunkWork py callable slice) := by
        rw [List.zipIdx_map_fst, List.map_map]
        rfl
      have hspec := appendChunks_spec py callable slices [] hfst
      rw [hfst] at hspec
      exact hspec

/-! ## Every run -/

/-- The work item of a job is the one that its channel was made for. -/
def Job.At (g : Pool) (job : Job) : Prop := g.sent[job.receiver]? = some job.work

/-- What holds of a thread: a caller knows the outcomes it has received, a worker the outcome of
the work it has executed. -/
def Party.Good (py : Interpreter) (g : Pool) : Party → Prop
  | .sending method jobs left => (∀ job ∈ jobs, job.At g) ∧
    jobs.map Job.work ++ left = (method.plan py g.maxThreads).1
  | .collecting method jobs waiting outcomes => (∀ job ∈ waiting, job.At g) ∧
    (method.plan py g.maxThreads).2 = .collects ∧
    jobs.map Job.work = (method.plan py g.maxThreads).1 ∧
    outcomes ++ (waiting.map Job.work).map (executeWork py) =
      (jobs.map Job.work).map (executeWork py)
  | .returned method jobs result => jobs.map Job.work = (method.plan py g.maxThreads).1 ∧
    result = method.planned py g.maxThreads
  | .executing job => job.At g
  | .executed job outcome => job.At g ∧ outcome = executeWork py job.work
  | _ => True

structure Pool.Good (py : Interpreter) (g : Pool) : Prop where
  queue : ∀ job ∈ g.queue, job.At g
  results : ∀ r outcome, g.results r = some outcome →
    ∃ work, g.sent[r]? = some work ∧ outcome = executeWork py work

section Move

variable {py : Interpreter} {g g' : Pool} {p p' : Party} {turn : Turn}

theorem Job.At.mono {job : Job} (h : job.At g) (hsent : g.sent <+: g'.sent) : job.At g' := by
  obtain ⟨more, hmore⟩ := hsent
  obtain ⟨hlt, -⟩ := List.getElem?_eq_some_iff.mp h
  unfold Job.At
  rw [← hmore, List.getElem?_append_left hlt]
  exact h

theorem Job.at_send (g : Pool) (work : WorkItem) : Job.At (g.send work) ⟨work, g.sent.length⟩ := by
  change (g.sent ++ [work])[g.sent.length]? = some work
  exact List.getElem?_concat_length

theorem Party.Good.mono (h : p.Good py g) (hsent : g.sent <+: g'.sent)
    (hthreads : g'.maxThreads = g.maxThreads) : p.Good py g' := by
  cases p with
  | sending method jobs left =>
    refine ⟨fun job hjob => (h.1 job hjob).mono hsent, ?_⟩
    rw [hthreads]
    exact h.2
  | collecting method jobs waiting outcomes =>
    refine ⟨fun job hjob => (h.1 job hjob).mono hsent, ?_⟩
    rw [hthreads]
    exact h.2
  | returned method jobs result =>
    change _ = (method.plan py g'.maxThreads).1 ∧ _ = method.planned py g'.maxThreads
    rw [hthreads]
    exact h
  | executing job => exact Job.At.mono h hsent
  | executed job outcome => exact ⟨h.1.mono hsent, h.2⟩
  | _ => trivial

theorem Pool.Good.send (h : g.Good py) (work : WorkItem) : (g.send work).Good py := by
  have hsent : g.sent <+: (g.send work).sent := List.prefix_append _ _
  constructor
  · exact forall_mem_concat (fun job hjob => (h.queue job hjob).mono hsent) (Job.at_send g work)
  · intro r outcome hr
    obtain ⟨work', hwork, houtcome⟩ := h.results r outcome hr
    have hat : Job.At g ⟨work', r⟩ := hwork
    exact ⟨work', hat.mono hsent, houtcome⟩

theorem Pool.Good.deliver (h : g.Good py) {job : Job} (hjob : job.At g) :
    (g.deliver job (executeWork py job.work)).Good py := by
  refine ⟨h.queue, fun r outcome hr => ?_⟩
  by_cases heq : r = job.receiver
  · subst heq
    change Function.update g.results _ _ _ = _ at hr
    rw [Function.update_self] at hr
    exact ⟨job.work, hjob, (Option.some.inj hr).symm⟩
  · change Function.update g.results _ _ _ = _ at hr
    rw [Function.update_of_ne heq] at hr
    exact h.results r outcome hr

/-- A move sends work and keeps what was sent. -/
theorem Move.sent_prefix (h : Move py g p turn g' p') :
    g.sent <+: g'.sent ∧ g'.maxThreads = g.maxThreads := by
  cases h with
  | send _ => exact ⟨List.prefix_append _ _, rfl⟩
  | _ => exact ⟨List.prefix_rfl, rfl⟩

theorem Move.pool_good (h : Move py g p turn g' p') (hg : g.Good py) (hp : p.Good py g) :
    g'.Good py := by
  cases h with
  | send _ => exact hg.send _
  | close => exact ⟨hg.queue, hg.results⟩
  | receive hqueue =>
    refine ⟨fun job hjob => hg.queue job ?_, hg.results⟩
    rw [hqueue]
    exact List.mem_cons_of_mem _ hjob
  | panic hpanic =>
    rw [← hpanic]
    exact hg.deliver hp
  | deliver =>
    rw [hp.2]
    exact hg.deliver hp.1
  | _ => exact hg

theorem Move.party_good (h : Move py g p turn g' p') (hg : g.Good py) (hp : p.Good py g) :
    p'.Good py g' := by
  cases h with
  | enter _ => exact ⟨fun _ h => absurd h List.not_mem_nil, rfl⟩
  | @send method jobs work left _ =>
    obtain ⟨hjobs, hplan⟩ := hp
    constructor
    · refine forall_mem_concat (fun job hjob => ?_) (Job.at_send g work)
      exact (hjobs job hjob).mono (List.prefix_append _ _)
    · rw [List.map_append, List.append_assoc]
      exact hplan
  | @sent method jobs =>
    obtain ⟨hjobs, hplan⟩ := hp
    rw [List.append_nil] at hplan
    -- all jobs are sent, and how the call ends was planned before it started
    cases hending : (method.plan py g.maxThreads).2 with
    | returns =>
      refine ⟨hplan, ?_⟩
      unfold Method.planned
      rw [hending]
    | collects => exact ⟨hjobs, hending, hplan, rfl⟩
    | fails error =>
      refine ⟨hplan, ?_⟩
      unfold Method.planned
      rw [hending]
  | @collect method jobs waiting job outcomes outcome hresult =>
    obtain ⟨hwaiting, hending, hplan, houtcomes⟩ := hp
    obtain ⟨hjob, hrest⟩ := List.forall_mem_cons.mp hwaiting
    obtain ⟨work, hwork, houtcome⟩ := hg.results _ _ hresult
    obtain rfl : job.work = work := Option.some.inj (hjob.symm.trans hwork)
    refine ⟨hrest, hending, hplan, ?_⟩
    rw [houtcome, List.append_assoc]
    exact houtcomes
  | @ret method jobs outcomes =>
    obtain ⟨-, hending, hplan, houtcomes⟩ := hp
    refine ⟨hplan, ?_⟩
    unfold Method.planned
    rw [hending, ← hplan, ← houtcomes]
    exact congrArg (Method.result · method) (List.append_nil outcomes).symm
  | receive hqueue =>
    refine hg.queue _ ?_
    rw [hqueue]
    exact List.mem_cons_self
  | execute _ => exact ⟨hp, rfl⟩
  | _ => trivial

end Move

namespace System

variable {py : Interpreter} {c c' : System}

structure Inv (py : Interpreter) (c : System) : Prop where
  pool : c.shared.Good py
  threads : ∀ p ∈ c.threads, p.Good py c.shared

theorem Inv.step {a : Action} (h : Inv py c) (hstep : step py c a = some c') : Inv py c' := by
  rcases step_cases hstep with ⟨p, rfl, hp⟩ | ⟨i, turn, p, g, p', -, hi, hmove, rfl⟩
  · refine ⟨h.pool, forall_mem_concat h.threads ?_⟩
    rcases hp with ⟨method, -, rfl⟩ | ⟨-, rfl⟩ <;> trivial
  · have hp := h.threads p (List.mem_of_getElem? hi)
    obtain ⟨hsent, hthreads⟩ := hmove.sent_prefix
    refine ⟨hmove.pool_good h.pool hp, forall_mem_set ?_ (hmove.party_good h.pool hp)⟩
    exact fun q hq => (h.threads q hq).mono hsent hthreads

theorem inv_start (maxThreads : Nat) (available : Option ℕ+) (queueSize : Nat) :
    Inv py (start maxThreads available queueSize) := by
  refine ⟨⟨fun _ h => absurd h List.not_mem_nil, nofun⟩, fun p hp => ?_⟩
  rw [List.eq_of_mem_replicate hp]
  trivial

/-- Whenever a call returns, it returns what its items give one after another. -/
theorem returned_sequential {maxThreads queueSize : Nat} {available : Option ℕ+}
    (h : Reaches (step py) (start maxThreads available queueSize) c) {method : Method}
    {jobs : List Job} {result : Except CallError Value}
    (hreturned : .returned method jobs result ∈ c.threads) : method.Sequential py jobs result := by
  have hinv : Inv py c := h.invariant (fun _ _ _ => Inv.step) (inv_start _ _ _)
  obtain ⟨hplan, rfl⟩ := hinv.threads _ hreturned
  exact method.sequential_planned py _ hplan

/-- Two items in two chunks; the second chunk is finished first. -/
def twoChunks : List Action :=
  [.call (.map (.other 1) [.other 5, .other 6] 1), .move 0 .run, .move 1 .run, .move 2 .run,
    .move 2 .run, .move 2 .run, .move 2 .run, .move 0 .run, .move 1 .run, .move 1 .run,
    .move 1 .run, .move 0 .run, .move 0 .run, .move 2 .run, .move 2 .run, .move 2 .run]

theorem twoChunks_sequential : ∃ c jobs result,
    Reaches (step sample) (start 2 none 0) c ∧
    .returned (.map (.other 1) [.other 5, .other 6] 1) jobs result ∈ c.threads ∧
    (Method.map (.other 1) [.other 5, .other 6] 1).Sequential sample jobs result := by
  have hrun : (exec (step sample) (start 2 none 0) twoChunks).bind (·.threads[2]?) =
      some (.returned (.map (.other 1) [.other 5, .other 6] 1)
        [⟨chunkWork sample (.other 1) [.other 5], 0⟩, ⟨chunkWork sample (.other 1) [.other 6], 1⟩]
        (Method.result [.ok (.list [.other 5]), .ok (.list [.other 6])]
          (.map (.other 1) [.other 5, .other 6] 1))) := rfl
  obtain ⟨c, hexec, hthread⟩ := Option.bind_eq_some_iff.mp hrun
  have hmem := List.mem_of_getElem? hthread
  exact ⟨c, _, _, ⟨_, hexec⟩, hmem, returned_sequential ⟨_, hexec⟩ hmem⟩

end System

end Hypern.Tasks.ThreadPool
