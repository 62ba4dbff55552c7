import Hypern.Tasks.Executor

/-! `TaskExecutor` from its start to its shutdown: workers that stop once the flag is cleared, the
queue they leave behind, and `cleanup`. Times are whole milliseconds. -/

namespace Hypern.Tasks

open Lib

variable {Py : Type}

namespace Executor

variable (e : Executor Py) (id : String)

/-- Whether `pending_count` counts the entry. -/
def countsPending : Bool := e.status id == some .pending || e.status id == some .running

def isComplete : Bool :=
  match e.status id with
  | some st => st.isFinal
  | none => false

/-- Whether `cleanup` retains an entry. -/
def retains (now maxAgeSecs : Nat) (r : TaskResult) : Bool :=
  match r.completedAt with
  | some completedAt => now < completedAt + 1000 * maxAgeSecs
  | none => true

def cleanup (now maxAgeSecs : Nat) : Executor Py :=
  { e with results := fun id => (e.results id).filter (retains now maxAgeSecs) }

end Executor

/-- The executor, of which `numWorkers` is the number of receivers that are left, the flag
`running`, and the number of workers that wait in `recv_timeout`. `finishes` records, newest first,
when a task has been completed, has failed or has been cancelled. -/
structure Service (Py : Type) where
  executor : Executor Py
  running : Bool
  waiting : Nat
  finishes : List (String × Nat)

/-- `task_worker` with its loop: `checking` is before the flag is loaded, and `inside .idle` is in
`recv_timeout`. -/
inductive LoopAt (Py : Type)
  | checking
  | inside (pc : WorkerAt Py)
  | stopped

inductive ServiceThread (Py : Type)
  | submit (pc : SubmitAt Py)
  | worker (pc : LoopAt Py)

inductive ServiceAction (Py : Type)
  | submit (handler : Py) (args : Option Py)
  | cancel (id : String) (now : Nat)
  | cleanup (now maxAgeSecs : Nat)
  | shutdown
  | move (i : Nat) (choice : Choice)

abbrev Services (Py : Type) := Config (Service Py) (ServiceThread Py)

/-- After an iteration the flag is loaded again. -/
def WorkerAt.resume : WorkerAt Py → LoopAt Py
  | .idle => .checking
  | pc => .inside pc

/-- The time at which the iteration finishes its task. -/
def WorkerAt.finish? : WorkerAt Py → Choice → Option (String × Nat)
  | .executed task _, .run now _ => some (task.id, now)
  | _, _ => none

def WorkerAt.isIdle : WorkerAt Py → Bool
  | .idle => true
  | _ => false

def Choice.isTimeout : Choice → Bool
  | .timeout => true
  | _ => false

namespace Service

variable (g : Service Py)

def finishedAt (id : String) : Option Nat := g.finishes.lookup id

def cancel (id : String) (now : Nat) : Service Py :=
  { g with
    executor := g.executor.cancel id
    finishes := if g.executor.status id = some .pending then (id, now) :: g.finishes else g.finishes }

/-- What a step of a worker within its iteration leaves behind. -/
def worked (pc : WorkerAt Py) (choice : Choice) (e : Executor Py) : Service Py :=
  { g with
    executor := e
    waiting := if pc.isIdle then g.waiting - 1 else g.waiting
    finishes := (pc.finish? choice).toList ++ g.finishes }

/-- A queue of size zero takes a task only if a worker waits for it. -/
def takes : SubmitAt Py → Bool
  | .inserted _ => g.executor.numWorkers == 0 || g.executor.queueSize != 0 || 0 < g.waiting
  | _ => true

end Service

namespace ServiceThread

/-- A worker that stops drops its receiver; `recv_timeout` gives up on an empty queue only. -/
def next (g : Service Py) : ServiceThread Py → Choice → Option (Service Py × ServiceThread Py)
  | .submit pc, choice =>
    if g.takes pc then
      (pc.next g.executor choice).map fun r => ({ g with executor := r.1 }, .submit r.2)
    else none
  | .worker .checking, .run _ _ =>
    if g.running then some ({ g with waiting := g.waiting + 1 }, .worker (.inside .idle))
    else some ({ g with executor := { g.executor with numWorkers := g.executor.numWorkers - 1 } },
      .worker .stopped)
  | .worker (.inside pc), choice =>
    if choice.isTimeout && !g.executor.queue.isEmpty then none
    else (pc.next g.executor choice).map fun r => (g.worked pc choice r.1, .worker r.2.resume)
  | _, _ => none

def isLive : ServiceThread Py → Bool
  | .worker .checking => true
  | .worker (.inside _) => true
  | _ => false

/-- The task of a submission that has inserted its entry and not sent it yet. -/
def unsent : ServiceThread Py → Option String
  | .submit (.inserted task) => some task.id
  | _ => none

/-- The task that a thread has and has not marked as running. -/
def preparing : ServiceThread Py → Option String
  | .submit (.inserted task) => some task.id
  | .worker (.inside (.received task)) => some task.id
  | .worker (.inside (.checked task)) => some task.id
  | .worker (.inside (.delayed task)) => some task.id
  | _ => none

/-- The task that a worker has marked as running and not finished. -/
def executing : ServiceThread Py → Option String
  | .worker (.inside (.marked task)) => some task.id
  | .worker (.inside (.executed task _)) => some task.id
  | _ => none

end ServiceThread

namespace Services

def start (numWorkers queueSize : Nat) : Services Py :=
  ⟨⟨.new numWorkers queueSize, true, 0, []⟩, List.replicate numWorkers (.worker .checking)⟩

def step (c : Services Py) : ServiceAction Py → Option (Services Py)
  | .submit handler args => some ⟨c.shared, c.threads ++ [.submit (.called handler args)]⟩
  | .cancel id now => some ⟨c.shared.cancel id now, c.threads⟩
  | .cleanup now maxAgeSecs =>
    some ⟨{ c.shared with executor := c.shared.executor.cleanup now maxAgeSecs }, c.threads⟩
  | .shutdown => some ⟨{ c.shared with running := false }, c.threads⟩
  | .move i choice => stepThread (fun _ => ServiceThread.next) c i choice

/-! ## Nothing is stranded -/

/-- Once every worker has stopped, every entry is final. -/
def Settled (c : Services Py) : Prop :=
  (∀ t ∈ c.threads, t.isLive = false) → ∀ id, c.shared.executor.countsPending id = false ∧
    ((c.shared.executor.results id).isSome → c.shared.executor.isComplete id = true)

/-- A submission that returns an error leaves no entry behind. -/
def RefusesCleanly (c : Services Py) (a : ServiceAction Py) : Prop :=
  ∀ i choice task, a = .move i choice → c.threads[i]? = some (.submit (.inserted task)) →
    ∀ c' message, step c a = some c' →
      c'.threads[i]? = some (.submit (.returned (.error message))) →
        c'.shared.executor.results task.id = none

/-- `cleanup` removes the entries that have become final more than so many seconds before. -/
def CleansUp (c : Services Py) (a : ServiceAction Py) : Prop :=
  ∀ now maxAgeSecs, a = .cleanup now maxAgeSecs → ∀ c', step c a = some c' →
    ∀ id r time, c'.shared.executor.results id = some r → r.status.isFinal = true →
      c'.shared.finishedAt id = some time → now ≤ time + 1000 * maxAgeSecs

structure NotStranded (c : Services Py) (actions : List (ServiceAction Py)) : Prop where
  settled : Always step Settled c actions
  refusals : Along step RefusesCleanly c actions
  cleanups : Along step CleansUp c actions

/-- A submission inserts its entry while there are workers, and sends its task while there are some
or its entry is gone. The last worker stops when the tasks in the queue and those yet to be sent
have been cancelled. -/
def MovesOrderly (c : Services Py) : ServiceThread Py → Prop
  | .submit (.created _) => c.shared.executor.numWorkers ≠ 0
  | .submit (.inserted task) =>
    c.shared.executor.numWorkers ≠ 0 ∨ c.shared.executor.status task.id = none
  | .worker .checking => c.shared.running = true ∨ c.shared.executor.numWorkers ≠ 1 ∨
    (∀ task ∈ c.shared.executor.queue, c.shared.executor.status task.id ≠ some .pending) ∧
      ∀ t ∈ c.threads, ∀ id ∈ t.unsent, c.shared.executor.status id ≠ some .pending
  | _ => True

/-- Moreover, no entry is cleaned up that has been cancelled too long ago. -/
def Orderly (c : Services Py) : ServiceAction Py → Prop
  | .move i _ => ∀ t ∈ c.threads[i]?, c.MovesOrderly t
  | .cleanup now maxAgeSecs => ∀ id time, c.shared.executor.status id = some .cancelled →
    c.shared.finishedAt id = some time → now ≤ time + 1000 * maxAgeSecs
  | _ => True

/-! ## The moves, one by one -/

variable {c c' : Services Py} {g g' : Service Py} {t t' : ServiceThread Py} {i : Nat}
  {choice : Choice} {a : ServiceAction Py}

inductive Move (g : Service Py) :
    ServiceThread Py → Choice → Service Py → ServiceThread Py → Prop
  | submit {pc pc' : SubmitAt Py} {choice : Choice} {e : Executor Py}
      (h : SubmitMove g.executor pc choice e pc') :
      Move g (.submit pc) choice { g with executor := e } (.submit pc')
  | enter {now : Nat} {outcome : Except String String} (h : g.running = true) :
      Move g (.worker .checking) (.run now outcome) { g with waiting := g.waiting + 1 }
        (.worker (.inside .idle))
  | stop {now : Nat} {outcome : Except String String} (h : g.running = false) :
      Move g (.worker .checking) (.run now outcome)
        { g with executor := { g.executor with numWorkers := g.executor.numWorkers - 1 } }
        (.worker .stopped)
  | work {pc pc' : WorkerAt Py} {choice : Choice} {e : Executor Py}
      (h : WorkerMove g.executor pc choice e pc') :
      Move g (.worker (.inside pc)) choice (g.worked pc choice e) (.worker pc'.resume)

theorem Move.of_next (h : t.next g choice = some (g', t')) : Move g t choice g' t' := by
  unfold ServiceThread.next at h
  split at h
  · split_ifs at h
    obtain ⟨⟨e, pc'⟩, hnext, heq⟩ := Option.map_eq_some_iff.mp h
    cases heq
    exact .submit (.of_next hnext)
  · split_ifs at h with hrunning
    · cases h
      exact .enter hrunning
    · cases h
      exact .stop (Bool.not_eq_true _ ▸ hrunning)
  · split_ifs at h
    obtain ⟨⟨e, pc'⟩, hnext, heq⟩ := Option.map_eq_some_iff.mp h
    cases heq
    exact .work (.of_next hnext)
  · cases h

/-! ## The invariant -/

def Queued (g : Service Py) (id : String) : Prop := ∃ task ∈ g.executor.queue, task.id = id

/-- Only an entry that `record` has written has a time, the one at which its task was finished. -/
def EntryOk (finished : Option Nat) (r : TaskResult) : Prop :=
  match r.status with
  | .pending => r.completedAt = none
  | .cancelled => r.completedAt = none
  | .running => True
  | .completed => r.completedAt = finished
  | .failed => r.completedAt = finished

structure Inv (c : Services Py) : Prop where
  receivers : c.shared.executor.numWorkers = c.threads.countP ServiceThread.isLive
  pending : ∀ id, c.shared.executor.status id = some .pending →
    Queued c.shared id ∨ ∃ t ∈ c.threads, t.preparing = some id
  running : ∀ id, c.shared.executor.status id = some .running →
    ∃ t ∈ c.threads, t.executing = some id
  quiet : c.shared.executor.numWorkers = 0 → ∀ id, c.shared.executor.status id ≠ some .pending
  entries : ∀ id r, c.shared.executor.results id = some r → EntryOk (c.shared.finishedAt id) r

/-- What a move may do to the executor, if its thread is neither started nor stopped by it. -/
structure Keeps (g : Service Py) (t : ServiceThread Py) (g' : Service Py) (t' : ServiceThread Py) :
    Prop where
  live : t'.isLive = t.isLive
  receivers : g'.executor.numWorkers = g.executor.numWorkers
  pending : ∀ id, g'.executor.status id = some .pending →
    t'.preparing = some id ∨ Queued g' id ∨
      g.executor.status id = some .pending ∧ t.preparing ≠ some id ∧ (Queued g id → Queued g' id)
  running : ∀ id, g'.executor.status id = some .running →
    t'.executing = some id ∨ g.executor.status id = some .running ∧ t.executing ≠ some id
  quiet : g.executor.numWorkers = 0 → ∀ id, g'.executor.status id = some .pending →
    g.executor.status id = some .pending
  entries : (∀ id r, g.executor.results id = some r → EntryOk (g.finishedAt id) r) →
    ∀ id r, g'.executor.results id = some r → EntryOk (g'.finishedAt id) r

theorem Inv.keeps (h : Inv c) (ht : c.threads[i]? = some t) (hkeeps : Keeps c.shared t g' t') :
    Inv ⟨g', c.threads.set i t'⟩ := by
  have hmem : t' ∈ c.threads.set i t' := List.mem_set (List.getElem?_eq_some_iff.mp ht).1 t'
  refine ⟨?_, fun id hpending => ?_, fun id hrunning => ?_, fun hzero id hpending => ?_,
    hkeeps.entries h.entries⟩
  · rw [hkeeps.receivers, h.receivers, countP_set_of_eq _ ht hkeeps.live]
  · rcases hkeeps.pending id hpending with hnew | hqueued | ⟨hold, hne, hqueue⟩
    · exact .inr ⟨t', hmem, hnew⟩
    · exact .inl hqueued
    · exact (h.pending id hold).imp hqueue (exists_mem_set ht hne t')
  · rcases hkeeps.running id hrunning with hnew | ⟨hold, hne⟩
    · exact ⟨t', hmem, hnew⟩
    · exact exists_mem_set ht hne t' (h.running id hold)
  · have hzero' := hkeeps.receivers.symm.trans hzero
    exact h.quiet hzero' id (hkeeps.quiet hzero' id hpending)

/-- A move that leaves the entries as they are. -/
theorem keeps_same (hlive : t'.isLive = t.isLive)
    (hreceivers : g'.executor.numWorkers = g.executor.numWorkers)
    (hresults : g'.executor.results = g.executor.results) (hfinishes : g'.finishes = g.finishes)
    (hpreparing : ∀ id, g.executor.status id = some .pending → t.preparing = some id →
      t'.preparing = some id ∨ Queued g' id)
    (hqueue : ∀ id, Queued g id → t'.preparing = some id ∨ Queued g' id)
    (hexecuting : t'.executing = t.executing) : Keeps g t g' t' := by
  have hstatus : ∀ id, g'.executor.status id = g.executor.status id := fun id =>
    congrArg (Option.map _) (congrFun hresults id)
  have hfinished : ∀ id, g'.finishedAt id = g.finishedAt id := fun id =>
    congrArg (List.lookup id) hfinishes
  refine ⟨hlive, hreceivers, fun id hpending => ?_, fun id hrunning => ?_,
    fun _ id hpending => (hstatus id).symm.trans hpending, fun hentries id r hr => ?_⟩
  · rw [hstatus] at hpending
    by_cases hmine : t.preparing = some id
    · exact (hpreparing id hpending hmine).imp_right .inl
    · by_cases hqueued : Queued g id
      · exact (hqueue id hqueued).imp_right .inl
      · exact .inr (.inr ⟨hpending, hmine, fun h => absurd h hqueued⟩)
  · rw [hstatus] at hrunning
    rw [hexecuting]
    exact (Classical.em _).imp_right fun hnot => ⟨hrunning, hnot⟩
  · rw [hfinished]
    exact hentries id r (hresults ▸ hr)

/-- A move that touches the entry of one task, which its thread has to itself. -/
theorem keeps_touch {x : String} (hlive : t'.isLive = t.isLive)
    (hreceivers : g'.executor.numWorkers = g.executor.numWorkers)
    (hqueue : g'.executor.queue = g.executor.queue)
    (hresults : ∀ id, id ≠ x → g'.executor.results id = g.executor.results id)
    (hfinished : ∀ id, id ≠ x → g'.finishedAt id = g.finishedAt id)
    (hpreparing : t.preparing = none ∨ t.preparing = some x)
    (hexecuting : t.executing = none ∨ t.executing = some x)
    (hpending : g'.executor.status x = some .pending →
      t'.preparing = some x ∧ g.executor.numWorkers ≠ 0)
    (hrunning : g'.executor.status x = some .running → t'.executing = some x)
    (hentry : ∀ r, g'.executor.results x = some r → EntryOk (g'.finishedAt x) r) :
    Keeps g t g' t' := by
  have hstatus : ∀ id, id ≠ x → g'.executor.status id = g.executor.status id := fun id hne =>
    congrArg (Option.map _) (hresults id hne)
  have hnone : ∀ {o : Option String} {id : String}, o = none ∨ o = some x → id ≠ x →
      o ≠ some id := by
    rintro o id (rfl | rfl) hne heq
    · cases heq
    · exact hne (Option.some.inj heq).symm
  refine ⟨hlive, hreceivers, fun id hp => ?_, fun id hr => ?_, fun hzero id hp => ?_,
    fun hentries id r hr => ?_⟩
  · by_cases hid : id = x
    · subst hid
      exact .inl (hpending hp).1
    · refine .inr (.inr ⟨(hstatus id hid).symm.trans hp, hnone hpreparing hid, ?_⟩)
      unfold Queued
      rw [hqueue]
      exact fun h => h
  · by_cases hid : id = x
    · subst hid
      exact .inl (hrunning hr)
    · exact .inr ⟨(hstatus id hid).symm.trans hr, hnone hexecuting hid⟩
  · by_cases hid : id = x
    · subst hid
      exact absurd hzero (hpending hp).2
    · exact (hstatus id hid).symm.trans hp
  · by_cases hid : id = x
    · subst hid
      exact hentry r hr
    · rw [hfinished id hid]
      exact hentries id r ((hresults id hid).symm.trans hr)

theorem lookup_cons_of_ne {id x : String} {time : Nat} {finishes : List (String × Nat)}
    (h : id ≠ x) : ((x, time) :: finishes).lookup id = finishes.lookup id := by
  rw [List.lookup_cons, beq_false_of_ne h]

theorem results_modify_of_ne (e : Executor Py) (f : TaskResult → TaskResult) {id x : String}
    (h : id ≠ x) : (e.modify x f).results id = e.results id :=
  Function.update_of_ne h _ _

theorem results_modify_self (e : Executor Py) (f : TaskResult → TaskResult) (x : String) :
    (e.modify x f).results x = (e.results x).map f :=
  Function.update_self _ _ _

theorem SubmitMove.keeps {pc pc' : SubmitAt Py} {e : Executor Py}
    (h : SubmitMove c.shared.executor pc choice e pc') (hordered : c.MovesOrderly (.submit pc)) :
    Keeps c.shared (.submit pc) { c.shared with executor := e } (.submit pc') := by
  cases h with
  | create => exact keeps_same rfl rfl rfl rfl nofun (fun _ hq => .inr hq) rfl
  | @insert task _ _ =>
    have hresult : (c.shared.executor.insertPending task.id).results task.id =
        some ⟨task.id, .pending, none, none, none, none⟩ := Function.update_self _ _ _
    refine keeps_touch (x := task.id) rfl rfl rfl (fun id hne => Function.update_of_ne hne _ _)
      (fun _ _ => rfl) (.inl rfl) (.inl rfl) (fun _ => ⟨rfl, hordered⟩) (fun hr => ?_) fun r hr => ?_
    · rw [Executor.status_insertPending, if_pos rfl] at hr
      cases hr
    · obtain rfl := Option.some.inj (hresult.symm.trans hr)
      rfl
  | refuse hzero =>
    refine keeps_same rfl rfl rfl rfl (fun id hpending hmine => ?_) (fun _ hq => .inr hq) rfl
    obtain rfl := Option.some.inj hmine
    rw [hordered.resolve_left (not_not_intro hzero)] at hpending
    cases hpending
  | @send task _ _ _ _ =>
    refine keeps_same rfl rfl rfl rfl (fun id _ hmine => ?_) (fun id hq => ?_) rfl
    · exact .inr ⟨task, List.mem_append_right _ (List.mem_singleton_self _), Option.some.inj hmine⟩
    · obtain ⟨other, hmem, hid⟩ := hq
      exact .inr ⟨other, List.mem_append_left _ hmem, hid⟩

theorem WorkerMove.keeps {pc pc' : WorkerAt Py} {e : Executor Py}
    (h : WorkerMove g.executor pc choice e pc') :
    Keeps g (.worker (.inside pc)) (g.worked pc choice e) (.worker pc'.resume) := by
  cases h with
  | timeOut => exact keeps_same rfl rfl rfl rfl nofun (fun _ hq => .inr hq) rfl
  | @receive task queue _ _ hqueue =>
    refine keeps_same rfl rfl rfl rfl nofun (fun id hq => ?_) rfl
    obtain ⟨other, hmem, hid⟩ := hq
    rw [hqueue, List.mem_cons] at hmem
    rcases hmem with rfl | hmem
    · exact .inl (congrArg some hid)
    · exact .inr ⟨other, hmem, hid⟩
  | @skip task _ _ hcancelled =>
    refine keeps_same rfl rfl rfl rfl (fun id hpending hmine => ?_) (fun _ hq => .inr hq) rfl
    obtain rfl := Option.some.inj hmine
    rw [hcancelled] at hpending
    cases hpending
  | check _ => exact keeps_same rfl rfl rfl rfl (fun _ _ hmine => .inl hmine) (fun _ hq => .inr hq) rfl
  | delay => exact keeps_same rfl rfl rfl rfl (fun _ _ hmine => .inl hmine) (fun _ hq => .inr hq) rfl
  | @mark task now _ =>
    refine keeps_touch (x := task.id) rfl rfl rfl (fun id => results_modify_of_ne _ _)
      (fun _ _ => rfl) (.inr rfl) (.inl rfl) (fun hp => ?_) (fun _ => rfl) fun r hr => ?_
    · rw [Service.worked, Executor.markRunning, Executor.status_modify, if_pos rfl] at hp
      obtain ⟨r, -, hr⟩ := Option.map_eq_some_iff.mp hp
      cases hr
    · rw [Service.worked, Executor.markRunning, results_modify_self] at hr
      obtain ⟨r, -, rfl⟩ := Option.map_eq_some_iff.mp hr
      trivial
  | execute => exact keeps_same rfl rfl rfl rfl nofun (fun _ hq => .inr hq) rfl
  | @record task now outcome outcome' =>
    -- the entry is final, with the time that is recorded
    have hentry : ∀ r, (g.executor.record task.id outcome now).results task.id = some r →
        (r.status = .completed ∨ r.status = .failed) ∧ r.completedAt = some now := by
      intro r hr
      rw [Executor.record, results_modify_self] at hr
      obtain ⟨old, -, rfl⟩ := Option.map_eq_some_iff.mp hr
      cases outcome with
      | ok res => exact ⟨.inl rfl, rfl⟩
      | error err => exact ⟨.inr rfl, rfl⟩
    have hfinal : ∀ st, (g.executor.record task.id outcome now).status task.id = some st →
        st = .completed ∨ st = .failed := by
      intro st hst
      obtain ⟨r, hr, rfl⟩ := Option.map_eq_some_iff.mp hst
      exact (hentry r hr).1
    refine keeps_touch (x := task.id) rfl rfl rfl (fun id => results_modify_of_ne _ _)
      (fun id hne => ?_) (.inl rfl) (.inr rfl) (fun hp => ?_) (fun hr => ?_) fun r hr => ?_
    · exact lookup_cons_of_ne hne
    · rcases hfinal _ hp with h | h <;> cases h
    · rcases hfinal _ hr with h | h <;> cases h
    · obtain ⟨hstatus, htime⟩ := hentry r hr
      have hfinished : (g.worked (.executed task outcome) (.run now outcome')
          (g.executor.record task.id outcome now)).finishedAt task.id = some now :=
        List.lookup_cons_self
      unfold EntryOk
      rcases hstatus with h | h <;> rw [h, hfinished] <;> exact htime

/-! ## Stopping workers -/

/-- The last receiver is that of the only worker that has not stopped. -/
theorem Inv.not_live (h : Inv c) (ht : c.threads[i]? = some t) (hlive : t.isLive = true)
    (hone : c.shared.executor.numWorkers = 1) {s : ServiceThread Py} (hs : s ∈ c.threads)
    (hne : s ≠ t) : s.isLive = false := by
  by_contra hslive
  obtain ⟨j, hj⟩ := List.mem_iff_getElem?.mp hs
  have hij : i ≠ j := by
    rintro rfl
    exact hne (Option.some.inj (hj.symm.trans ht))
  have htwo := two_le_countP _ ht hj hij hlive (Bool.not_eq_false _ ▸ hslive)
  rw [← h.receivers, hone] at htwo
  exact absurd htwo (by decide)

theorem live_of_preparing {id : String} (h : t.preparing = some id) :
    t.isLive = true ∨ t.unsent = some id := by
  match t with
  | .submit (.inserted task) => exact .inr h
  | .worker (.inside _) => exact .inl rfl

theorem live_of_executing {id : String} (h : t.executing = some id) : t.isLive = true := by
  match t with
  | .worker (.inside _) => rfl

/-- When the last worker stops, the tasks that are pending are in the queue or yet to be sent. -/
theorem Inv.pending_of_last (h : Inv c) (ht : c.threads[i]? = some (.worker .checking))
    (hone : c.shared.executor.numWorkers = 1) {id : String}
    (hpending : c.shared.executor.status id = some .pending) :
    Queued c.shared id ∨ ∃ t ∈ c.threads, t.unsent = some id := by
  refine (h.pending id hpending).imp_right ?_
  rintro ⟨s, hs, hpreparing⟩
  refine ⟨s, hs, (live_of_preparing hpreparing).resolve_left ?_⟩
  rw [h.not_live ht rfl hone hs ?_]
  · exact Bool.false_ne_true
  · rintro rfl
    cases hpreparing

theorem Inv.receivers_stop (h : Inv c) (ht : c.threads[i]? = some (.worker .checking)) :
    c.shared.executor.numWorkers - 1 =
      (c.threads.set i (.worker .stopped)).countP ServiceThread.isLive := by
  have hcount : (c.threads.set i (.worker .stopped)).countP ServiceThread.isLive + 1 =
      c.threads.countP ServiceThread.isLive := countP_set_add ServiceThread.isLive ht _
  rw [h.receivers, ← hcount, Nat.add_sub_cancel]

theorem inv_stop (h : Inv c) (ht : c.threads[i]? = some (.worker .checking))
    (hrunning : c.shared.running = false) (hordered : c.MovesOrderly (.worker .checking)) :
    Inv ⟨{ c.shared with executor :=
        { c.shared.executor with numWorkers := c.shared.executor.numWorkers - 1 } },
      c.threads.set i (.worker .stopped)⟩ := by
  have hpos := countP_pos_of_getElem? ServiceThread.isLive ht rfl
  have hnot : ∀ id : String, none ≠ some id := fun id => (Option.some_ne_none id).symm
  refine ⟨h.receivers_stop ht, fun id hpending => ?_, fun id hstatus => ?_,
    fun hzero id hpending => ?_, h.entries⟩
  · exact (h.pending id hpending).imp_right (exists_mem_set ht (hnot id) _)
  · exact exists_mem_set ht (hnot id) _ (h.running id hstatus)
  · have hone : c.shared.executor.numWorkers = 1 := by
      rw [← h.receivers] at hpos
      exact Nat.le_antisymm (Nat.sub_eq_zero_iff_le.mp hzero) hpos
    have hstopped : ¬ c.shared.running = true := by
      rw [hrunning]
      exact Bool.false_ne_true
    obtain ⟨hqueue, hunsent⟩ := (hordered.resolve_left hstopped).resolve_left (not_not_intro hone)
    rcases h.pending_of_last ht hone hpending with ⟨task, hmem, rfl⟩ | ⟨s, hs, hid⟩
    · exact hqueue task hmem hpending
    · exact hunsent s hs id hid hpending

/-! ## The other actions -/

theorem inv_submit (h : Inv c) (handler : Py) (args : Option Py) :
    Inv ⟨c.shared, c.threads ++ [.submit (.called handler args)]⟩ := by
  have hother : ∀ {f : ServiceThread Py → Option String} {id : String},
      (∃ s ∈ c.threads, f s = some id) →
        ∃ s ∈ c.threads ++ [.submit (.called handler args)], f s = some id := by
    rintro f id ⟨s, hs, hf⟩
    exact ⟨s, List.mem_append_left _ hs, hf⟩
  refine ⟨?_, fun id hp => (h.pending id hp).imp_right hother, fun id hr => hother (h.running id hr),
    h.quiet, h.entries⟩
  rw [List.countP_append]
  exact h.receivers

/-- A step of a caller that neither sends nor receives, and makes no task pending or running. -/
theorem inv_shared (h : Inv c) (hreceivers : g'.executor.numWorkers = c.shared.executor.numWorkers)
    (hqueue : g'.executor.queue = c.shared.executor.queue)
    (hstatus : ∀ id st, st = .pending ∨ st = .running → g'.executor.status id = some st →
      c.shared.executor.status id = some st)
    (hentries : ∀ id r, g'.executor.results id = some r → EntryOk (g'.finishedAt id) r) :
    Inv ⟨g', c.threads⟩ := by
  refine ⟨hreceivers.trans h.receivers, fun id hp => ?_,
    fun id hr => h.running id (hstatus id _ (.inr rfl) hr),
    fun hzero id hp => h.quiet (hreceivers.symm.trans hzero) id (hstatus id _ (.inl rfl) hp), hentries⟩
  refine (h.pending id (hstatus id _ (.inl rfl) hp)).imp_left ?_
  rintro ⟨task, hmem, hid⟩
  exact ⟨task, hqueue ▸ hmem, hid⟩

theorem cancel_of_not_pending {id : String} (h : g.executor.status id ≠ some .pending) (now : Nat) :
    g.cancel id now = g := by
  rw [Service.cancel, Executor.cancel, if_neg h, if_neg h]

theorem cancel_of_pending {id : String} (h : g.executor.status id = some .pending) (now : Nat) :
    g.cancel id now = { g with
      executor := { g.executor.modify id ({ · with status := .cancelled }) with
        cancelled := id :: g.executor.cancelled }
      finishes := (id, now) :: g.finishes } := by
  rw [Service.cancel, Executor.cancel, if_pos h, if_pos h]

theorem inv_cancel (h : Inv c) (id : String) (now : Nat) :
    Inv ⟨c.shared.cancel id now, c.threads⟩ := by
  by_cases hpending : c.shared.executor.status id = some .pending
  · rw [cancel_of_pending hpending]
    refine inv_shared h rfl rfl (fun other st hst hs => ?_) fun other r hr => ?_
    · by_cases hid : other = id
      · subst hid
        have hcancelled := c.shared.executor.status_modify_self other
          (f := ({ · with status := .cancelled })) (fun _ => rfl) (by rw [hpending]; rfl)
        obtain rfl := Option.some.inj (hs.symm.trans hcancelled)
        rcases hst with h | h <;> cases h
      · exact (c.shared.executor.status_modify_of_ne id _ hid).symm.trans hs
    · by_cases hid : other = id
      · -- a pending entry has no time, and the cancelled one gets none
        subst hid
        obtain ⟨old, hold, rfl⟩ := Option.map_eq_some_iff.mp
          ((results_modify_self c.shared.executor _ other).symm.trans hr)
        obtain ⟨r, hr, hst⟩ := Option.map_eq_some_iff.mp hpending
        obtain rfl := Option.some.inj (hold.symm.trans hr)
        have hentry := h.entries other old hold
        rw [EntryOk, hst] at hentry
        exact hentry
      · rw [Service.finishedAt, lookup_cons_of_ne hid]
        exact h.entries other r ((results_modify_of_ne _ _ hid).symm.trans hr)
  · rw [cancel_of_not_pending hpending]
    exact h

theorem results_cleanup {e : Executor Py} {now maxAgeSecs : Nat} {id : String} {r : TaskResult} :
    (e.cleanup now maxAgeSecs).results id = some r ↔
      e.results id = some r ∧ Executor.retains now maxAgeSecs r = true :=
  Option.filter_eq_some_iff

theorem status_of_cleanup {e : Executor Py} {now maxAgeSecs : Nat} {id : String} {st : TaskStatus}
    (h : (e.cleanup now maxAgeSecs).status id = some st) : e.status id = some st := by
  obtain ⟨r, hr, rfl⟩ := Option.map_eq_some_iff.mp h
  exact Option.map_eq_some_iff.mpr ⟨r, (results_cleanup.mp hr).1, rfl⟩

theorem inv_cleanup (h : Inv c) (now maxAgeSecs : Nat) :
    Inv ⟨{ c.shared with executor := c.shared.executor.cleanup now maxAgeSecs }, c.threads⟩ :=
  inv_shared h rfl rfl (fun _ _ _ => status_of_cleanup) fun id r hr =>
    h.entries id r (results_cleanup.mp hr).1

theorem inv_start (numWorkers queueSize : Nat) : Inv (start numWorkers queueSize : Services Py) := by
  refine ⟨?_, nofun, nofun, fun _ => nofun, nofun⟩
  exact (List.countP_replicate.trans (if_pos rfl)).symm

/-! ## Steps and runs -/

/-- What one step can do. -/
theorem step_cases (h : step c a = some c') :
    (∃ handler args, a = .submit handler args ∧
      c' = ⟨c.shared, c.threads ++ [.submit (.called handler args)]⟩) ∨
    (∃ id now, a = .cancel id now ∧ c' = ⟨c.shared.cancel id now, c.threads⟩) ∨
    (∃ now maxAgeSecs, a = .cleanup now maxAgeSecs ∧
      c' = ⟨{ c.shared with executor := c.shared.executor.cleanup now maxAgeSecs }, c.threads⟩) ∨
    (a = .shutdown ∧ c' = ⟨{ c.shared with running := false }, c.threads⟩) ∨
    ∃ i choice t g' t', a = .move i choice ∧ c.threads[i]? = some t ∧
      Move c.shared t choice g' t' ∧ c' = ⟨g', c.threads.set i t'⟩ := by
  cases a with
  | submit handler args =>
    cases h
    exact .inl ⟨handler, args, rfl, rfl⟩
  | cancel id now =>
    cases h
    exact .inr (.inl ⟨id, now, rfl, rfl⟩)
  | cleanup now maxAgeSecs =>
    cases h
    exact .inr (.inr (.inl ⟨now, maxAgeSecs, rfl, rfl⟩))
  | shutdown =>
    cases h
    exact .inr (.inr (.inr (.inl ⟨rfl, rfl⟩)))
  | move i choice =>
    change stepThread (fun _ => ServiceThread.next) c i choice = some c' at h
    obtain ⟨t, g', t', ht, hnext, rfl⟩ := stepThread_eq_some.mp h
    exact .inr (.inr (.inr (.inr ⟨i, choice, t, g', t', rfl, ht, .of_next hnext, rfl⟩)))

theorem inv_step (h : Inv c) (ha : Orderly c a) (hstep : step c a = some c') : Inv c' := by
  rcases step_cases hstep with ⟨handler, args, rfl, rfl⟩ | ⟨id, now, rfl, rfl⟩ |
    ⟨now, maxAgeSecs, rfl, rfl⟩ | ⟨rfl, rfl⟩ | ⟨i, choice, t, g', t', rfl, ht, hmove, rfl⟩
  · exact inv_submit h handler args
  · exact inv_cancel h id now
  · exact inv_cleanup h now maxAgeSecs
  · exact inv_shared h rfl rfl (fun _ _ _ hs => hs) h.entries
  · cases hmove with
    | submit hmove => exact h.keeps ht (SubmitMove.keeps hmove (ha _ ht))
    | enter _ => exact h.keeps ht (keeps_same rfl rfl rfl rfl nofun (fun _ hq => .inr hq) rfl)
    | stop hrunning => exact inv_stop h ht hrunning (ha _ ht)
    | work hmove => exact h.keeps ht (WorkerMove.keeps hmove)

theorem countsPending_eq_false {e : Executor Py} {id : String} : e.countsPending id = false ↔
    e.status id ≠ some .pending ∧ e.status id ≠ some .running := by
  rw [Executor.countsPending, Bool.or_eq_false_iff, beq_eq_false_iff_ne, beq_eq_false_iff_ne]

theorem stopped_iff {threads : List (ServiceThread Py)} :
    (∀ t ∈ threads, t.isLive = false) ↔ threads.countP ServiceThread.isLive = 0 := by
  rw [List.countP_eq_zero]
  exact forall₂_congr fun t _ => (Bool.not_eq_true _).symm ▸ Iff.rfl

theorem settled_of_inv (h : Inv c) : Settled c := by
  intro hstopped id
  have hzero : c.shared.executor.numWorkers = 0 := by
    rw [h.receivers]
    exact stopped_iff.mp hstopped
  have hpending := h.quiet hzero id
  have hrunning : c.shared.executor.status id ≠ some .running := by
    intro hr
    obtain ⟨t, ht, hexecuting⟩ := h.running id hr
    have hdead := hstopped t ht
    rw [live_of_executing hexecuting] at hdead
    cases hdead
  refine ⟨countsPending_eq_false.mpr ⟨hpending, hrunning⟩, fun hsome => ?_⟩
  obtain ⟨r, hr⟩ := Option.isSome_iff_exists.mp hsome
  have hst : c.shared.executor.status id = some r.status := congrArg (Option.map _) hr
  rw [hst] at hpending hrunning
  unfold Executor.isComplete
  rw [hst]
  cases hstatus : r.status with
  | pending => exact absurd (congrArg some hstatus) hpending
  | running => exact absurd (congrArg some hstatus) hrunning
  | completed | failed | cancelled => rfl

theorem cleansUp_of_orderly (h : Inv c) (ha : Orderly c a) : CleansUp c a := by
  rintro now maxAgeSecs rfl c' hstep id r time hr hfinal htime
  cases hstep
  obtain ⟨hr, hretains⟩ := results_cleanup.mp hr
  have hentry := h.entries id r hr
  change c.shared.finishedAt id = some time at htime
  have hlt : r.completedAt = c.shared.finishedAt id → now ≤ time + 1000 * maxAgeSecs := by
    intro hcompleted
    rw [Executor.retains, hcompleted, htime] at hretains
    exact Nat.le_of_lt (of_decide_eq_true hretains)
  unfold EntryOk at hentry
  cases hstatus : r.status with
  | pending | running =>
    rw [hstatus] at hfinal
    cases hfinal
  | completed | failed =>
    rw [hstatus] at hentry
    exact hlt hentry
  | cancelled =>
    exact ha id time (Option.map_eq_some_iff.mpr ⟨r, hr, hstatus⟩) htime

theorem refusesCleanly_of_orderly (ha : Orderly c a) : RefusesCleanly c a := by
  rintro i choice task rfl ht c' message hstep hreturned
  change stepThread (fun _ => ServiceThread.next) c i choice = some c' at hstep
  obtain ⟨t, g', t', ht', hnext, rfl⟩ := stepThread_eq_some.mp hstep
  obtain rfl := Option.some.inj (ht'.symm.trans ht)
  have hi : i < c.threads.length := (List.getElem?_eq_some_iff.mp ht).1
  rw [List.getElem?_set_self hi] at hreturned
  cases Move.of_next hnext with
  | submit hmove =>
    cases hmove with
    | refuse hzero => exact Option.map_eq_none_iff.mp ((ha _ ht).resolve_left (not_not_intro hzero))
    | send _ _ => cases hreturned

/-- A move that is not orderly leaves a pending entry behind when all workers have stopped, or
returns an error for an entry that is there. -/
theorem movesOrderly_of_good (h : Inv c) (ht : c.threads[i]? = some t)
    (hmove : Move c.shared t choice g' t') (hstep : step c (.move i choice) =
      some ⟨g', c.threads.set i t'⟩) (hsettled : Settled ⟨g', c.threads.set i t'⟩)
    (hclean : RefusesCleanly c (.move i choice)) : c.MovesOrderly t := by
  cases hmove with
  | enter hrunning => exact .inl hrunning
  | stop hrunning =>
    refine .inr (Classical.or_iff_not_imp_left.mpr fun hone => ?_)
    have hstopped := stopped_iff.mpr ((h.receivers_stop ht).symm.trans
      (Nat.sub_eq_zero_of_le (Nat.le_of_eq (not_not.mp hone))))
    have hnone : ∀ id, c.shared.executor.status id ≠ some .pending := fun id =>
      (countsPending_eq_false.mp (hsettled hstopped id).1).1
    exact ⟨fun task _ => hnone task.id, fun _ _ id _ => hnone id⟩
  | work _ => trivial
  | @submit pc pc' _ e hmove =>
    cases hmove with
    | create => trivial
    | @insert task _ _ =>
      intro hzero
      have hcount : (c.threads.set i (.submit (.inserted task))).countP ServiceThread.isLive =
          c.threads.countP ServiceThread.isLive := countP_set_of_eq _ ht rfl
      have hstopped := stopped_iff.mpr (hcount.trans (h.receivers.symm.trans hzero))
      refine (countsPending_eq_false.mp (hsettled hstopped task.id).1).1 ?_
      exact (Executor.status_insertPending ..).trans (if_pos rfl)
    | @refuse task _ _ hzero =>
      have hi : i < c.threads.length := (List.getElem?_eq_some_iff.mp ht).1
      have hgone := hclean i _ task rfl ht _ _ hstep (List.getElem?_set_self hi)
      exact .inr (Option.map_eq_none_iff.mpr hgone)
    | send hworkers _ => exact .inl hworkers

/-- A cancelled entry has no time, so it is retained whatever its age. -/
theorem orderly_of_cleansUp (h : Inv c) {now maxAgeSecs : Nat}
    (hclean : CleansUp c (.cleanup now maxAgeSecs)) : Orderly c (.cleanup now maxAgeSecs) := by
  intro id time hcancelled htime
  obtain ⟨r, hr, hstatus⟩ := Option.map_eq_some_iff.mp hcancelled
  have hentry := h.entries id r hr
  rw [EntryOk, hstatus] at hentry
  have hretains : Executor.retains now maxAgeSecs r = true := by
    rw [Executor.retains, hentry]
  refine hclean now maxAgeSecs rfl _ rfl id r time (results_cleanup.mpr ⟨hr, hretains⟩) ?_ htime
  rw [hstatus]
  rfl

/-- A step after which nothing is stranded. -/
def Good (c : Services Py) (a : ServiceAction Py) : Prop :=
  (∀ c', step c a = some c' → Settled c') ∧ RefusesCleanly c a ∧ CleansUp c a

theorem good_iff_orderly (h : Inv c) : Good c a ↔ ∀ c', step c a = some c' → Orderly c a := by
  constructor
  · rintro ⟨hsettled, hrefuses, hcleans⟩ c' hstep
    cases a with
    | submit | cancel | shutdown => trivial
    | cleanup now maxAgeSecs => exact orderly_of_cleansUp h hcleans
    | move i choice =>
      intro s hs
      change stepThread (fun _ => ServiceThread.next) c i choice = some c' at hstep
      obtain ⟨t, g', t', ht, hnext, rfl⟩ := stepThread_eq_some.mp hstep
      obtain rfl := Option.some.inj (ht.symm.trans hs)
      exact movesOrderly_of_good h ht (.of_next hnext) hstep (hsettled _ hstep) hrefuses
  · intro ha
    refine ⟨fun c' hstep => settled_of_inv (inv_step h (ha c' hstep) hstep), ?_, ?_⟩
    · exact fun i choice task heq ht c' message hstep =>
        refusesCleanly_of_orderly (ha c' hstep) i choice task heq ht c' message hstep
    · exact fun now maxAgeSecs heq c' hstep =>
        cleansUp_of_orderly h (ha c' hstep) now maxAgeSecs heq c' hstep

theorem notStranded_iff_good {actions : List (ServiceAction Py)} :
    NotStranded c actions ↔ Settled c ∧ Along step Good c actions := by
  constructor
  · rintro ⟨hsettled, hrefusals, hcleanups⟩
    obtain ⟨hstart, hnext⟩ := always_iff_along_next.mp hsettled
    exact ⟨hstart, hnext.and (hrefusals.and hcleanups)⟩
  · rintro ⟨hstart, h⟩
    refine ⟨always_iff_along_next.mpr ⟨hstart, h.mono fun _ _ hgood => hgood.1⟩, ?_, ?_⟩
    · exact h.mono fun _ _ hgood => hgood.2.1
    · exact h.mono fun _ _ hgood => hgood.2.2

theorem notStranded_iff_orderly (numWorkers queueSize : Nat) (actions : List (ServiceAction Py)) :
    NotStranded (start numWorkers queueSize) actions ↔
      Along step (fun c a => ∀ c', step c a = some c' → Orderly c a) (start numWorkers queueSize)
        actions := by
  have hinv : Inv (start numWorkers queueSize : Services Py) := inv_start numWorkers queueSize
  rw [notStranded_iff_good]
  have halong : Along step Good (start numWorkers queueSize) actions ↔ _ :=
    along_iff_along (fun _ _ _ h ha hstep => inv_step h (ha _ hstep) hstep)
      (fun _ _ h => good_iff_orderly h) hinv
  exact (and_iff_right (settled_of_inv hinv)).trans halong

/-- The moves of a thread that submits a task, or of a worker that goes on. -/
def goOn (i : Nat) : ServiceAction Unit := .move i (.run 0 (.ok "None"))

/-- The flag is cleared while a task is in the queue. -/
def leftInQueue : List (ServiceAction Unit) :=
  [.submit () none, goOn 1, goOn 1, goOn 1, .shutdown, goOn 0]

/-- A task is submitted when the worker has stopped. -/
def submittedTooLate : List (ServiceAction Unit) :=
  [.shutdown, goOn 0, .submit () none, goOn 1, goOn 1, goOn 1]

/-- A task is cancelled, and ten seconds later the entries older than one second are cleaned up. -/
def cancelledLongAgo : List (ServiceAction Unit) :=
  [.submit () none, goOn 1, goOn 1, .cancel (taskId 0 0) 0, .cleanup 10000 1]

theorem tasks_stranded : ¬ Always step Settled (start 1 1) leftInQueue ∧
    ¬ Along step RefusesCleanly (start 1 1) submittedTooLate ∧
    ¬ Along step CleansUp (start 1 1) cancelledLongAgo := by
  refine ⟨fun h => ?_, fun h => ?_, fun h => ?_⟩
  · have hexec : (exec step (start 1 1) leftInQueue).map (fun c =>
        (c.threads.countP ServiceThread.isLive, c.shared.executor.countsPending (taskId 0 0))) =
        some (0, true) := by decide
    obtain ⟨c, hexec, heq⟩ := Option.map_eq_some_iff.mp hexec
    obtain ⟨hstopped, hpending⟩ := Prod.mk.inj heq
    have hsettled := h.final hexec (stopped_iff.mpr hstopped) (taskId 0 0)
    rw [hpending] at hsettled
    cases hsettled.1
  · have hlast := ((((h.2 _ rfl).2 _ rfl).2 _ rfl).2 _ rfl).2 _ rfl
    have hgone := hlast.1 1 _ _ rfl rfl _ _ rfl rfl
    cases hgone
  · have hlast := (((h.2 _ rfl).2 _ rfl).2 _ rfl).2 _ rfl
    have hcleaned := hlast.1 10000 1 rfl _ rfl (taskId 0 0) _ 0 rfl rfl rfl
    exact absurd hcleaned (by decide)

end Services

end Hypern.Tasks
