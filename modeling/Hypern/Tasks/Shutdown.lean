import Mathlib.Tactic.ByContra
import Mathlib.Tactic.SplitIfs
import Hypern.Tasks.ThreadPool

/-! Shutdown of a `BlockingExecutor`. A worker that finds the flag cleared at the top of its loop
never receives again: it goes round until the queue is empty, and only the workers that were already
waiting in `recv_timeout` can empty it. -/

namespace Hypern.Tasks.ThreadPool

open Lib Blocking

namespace Party

def isPolling : Party → Bool
  | .polling => true
  | _ => false

def isWorker : Party → Bool
  | .called _ | .refused | .sending _ _ _ | .collecting _ _ _ _ | .returned _ _ _ => false
  | .closing | .closed => false
  | _ => true

def hasExited : Party → Bool
  | .stopped | .crashed => true
  | _ => false

/-- The receiver of the work that a worker has taken and not yet answered. -/
def holds : Party → Option Nat
  | .executing job => some job.receiver
  | .executed job _ => some job.receiver
  | _ => none

end Party

namespace System

def polling (c : System) : Nat := c.threads.countP Party.isPolling

/-- The next step of thread `i` takes an item from the queue. -/
def Takes (py : Interpreter) (c : System) (i : Nat) : Prop :=
  ∃ job c', step py c (.move i .run) = some c' ∧ c.shared.queue = job :: c'.shared.queue

def CanDrain (py : Interpreter) (c : System) : Prop :=
  c.shared.running = false → c.shared.queue ≠ [] → ∃ i, Takes py c i

/-- A worker that leaves its loop in this step leaves an empty queue. -/
def ExitsEmpty (py : Interpreter) (c : System) (a : Action) : Prop :=
  ∀ c', step py c a = some c' → ∀ (i : Nat) p p', c.threads[i]? = some p →
    c'.threads[i]? = some p' → p.hasExited = false → p'.hasExited = true → c.shared.queue = []

/-- Once all workers have left, what was accepted before the shutdown has its result. -/
def Answered (c : System) : Prop :=
  (∀ p ∈ c.threads, p.isWorker = true → p.hasExited = true) → ∀ r < c.shared.accepted,
    (∀ job ∈ c.shared.queue, job.receiver ≠ r) ∧
    ∃ outcome, c.shared.results r = some outcome ∧ outcome ≠ .error .panicked

structure Drains (py : Interpreter) (c : System) (as : List Action) : Prop where
  canDrain : Always (step py) (CanDrain py) c as
  exitsEmpty : Along (step py) (ExitsEmpty py) c as
  answered : Always (step py) Answered c as

/-- The flag is cleared while every queued item has a worker waiting for it, an item that a caller
sends after that has one more, and no work panics. -/
def MovesTimely (py : Interpreter) (c : System) : Party → Prop
  | .closing => c.shared.running = true → c.shared.queue.length ≤ c.polling
  | .sending _ _ (_ :: _) => c.shared.running = false → c.shared.queue.length < c.polling
  | .executing job => executeWork py job.work ≠ .error .panicked
  | _ => True

def Timely (py : Interpreter) (c : System) : Action → Prop
  | .move i _ => ∀ p, c.threads[i]? = some p → MovesTimely py c p
  | _ => True

instance (outcome : Outcome) : Decidable (outcome = .error .panicked) :=
  match outcome with
  | .ok _ => isFalse nofun
  | .error (.raised _) => isFalse nofun
  | .error .panicked => isTrue rfl

instance MovesTimely.decidable (py : Interpreter) (c : System) :
    (p : Party) → Decidable (MovesTimely py c p)
  | .closing => inferInstanceAs (Decidable (_ → _))
  | .sending _ _ (_ :: _) => inferInstanceAs (Decidable (_ → _))
  | .executing _ => inferInstanceAs (Decidable (¬ _))
  | .sending _ _ [] | .called _ | .refused | .collecting _ _ _ _ | .returned _ _ _ | .closed |
    .looping | .polling | .woken | .stopping | .executed _ _ | .stopped | .crashed => isTrue trivial

instance Timely.decidable (py : Interpreter) (c : System) :
    (a : Action) → Decidable (Timely py c a)
  | .move i _ => inferInstanceAs (Decidable (∀ p, c.threads[i]? = some p → _))
  | .call _ | .shutdown => isTrue trivial

end System

variable {py : Interpreter} {g g' : Pool} {p p' : Party} {turn : Turn}

/-! ## The queue after the flag is cleared -/

theorem Method.sentAll_caller (method : Method) (jobs : List Job) (ending : Ending) :
    (method.sentAll jobs ending).isPolling = false ∧ (method.sentAll jobs ending).isWorker = false ∧
      (method.sentAll jobs ending).hasExited = false := by
  cases ending <;> exact ⟨rfl, rfl, rfl⟩

/-- Once the flag is cleared, an item leaves the queue together with a worker that waits for it. -/
theorem Move.balance (h : Move py g p turn g' p') (hclosed : g.running = false) :
    g'.running = false ∧
    ((∃ method jobs work left, p = .sending method jobs (work :: left) ∧ p'.isPolling = false ∧
        g'.queue.length = g.queue.length + 1) ∨
      g.queue = [] ∧ g'.queue = [] ∨
      g'.queue.length + (if p.isPolling then 1 else 0) =
        g.queue.length + if p'.isPolling then 1 else 0) := by
  cases h with
  | enter hrunning | poll hrunning | goOn hrunning =>
    rw [hclosed] at hrunning
    cases hrunning
  | send _ => exact ⟨hclosed, .inl ⟨_, _, _, _, rfl, rfl, List.length_append⟩⟩
  | sent =>
    rw [(Method.sentAll_caller _ _ _).1]
    exact ⟨hclosed, .inr (.inr rfl)⟩
  | close => exact ⟨rfl, .inr (.inr rfl)⟩
  | receive hqueue =>
    refine ⟨hclosed, .inr (.inr ?_)⟩
    rw [hqueue]
    rfl
  | timeOut hqueue => exact ⟨hclosed, .inr (.inl ⟨hqueue, hqueue⟩)⟩
  | _ => exact ⟨hclosed, .inr (.inr rfl)⟩

theorem Move.closes (h : Move py g p turn g' p') (hrunning : g.running = true)
    (hclosed : g'.running = false) : p = .closing ∧ p' = .closed ∧ g'.queue = g.queue := by
  cases h with
  | close => exact ⟨rfl, rfl, rfl⟩
  | _ => exact absurd (hrunning.symm.trans hclosed) (by decide)

namespace System

variable {c c' : System} {a : Action}

theorem polling_append (c : System) (hp : p.isPolling = false) :
    polling ⟨c.shared, c.threads ++ [p]⟩ = c.polling := by
  unfold polling
  rw [List.countP_append, List.countP_singleton, hp]
  rfl

/-- Every queued item has a worker waiting for it. -/
def Balanced (c : System) : Prop := c.shared.running = false → c.shared.queue.length ≤ c.polling

theorem Balanced.step (h : c.Balanced) (hstep : step py c a = some c') (htimely : Timely py c a) :
    c'.Balanced := by
  rcases step_cases hstep with ⟨p, rfl, hp⟩ | ⟨i, turn, p, g, p', rfl, hi, hmove, rfl⟩
  · have hpolling : p.isPolling = false := by
      rcases hp with ⟨method, -, rfl⟩ | ⟨-, rfl⟩ <;> rfl
    intro hclosed
    rw [polling_append c hpolling]
    exact h hclosed
  · intro hclosed
    have hcount := countP_set_add Party.isPolling hi p'
    change g.queue.length ≤ (c.threads.set i p').countP Party.isPolling
    replace htimely := htimely p hi
    by_cases hrunning : c.shared.running = false
    · have hle : c.shared.queue.length ≤ c.threads.countP Party.isPolling := h hrunning
      obtain ⟨-, ⟨method, jobs, work, left, rfl, hp', hlength⟩ | ⟨-, hempty⟩ | hkept⟩ :=
        hmove.balance hrunning
      · have hlt : c.shared.queue.length < c.threads.countP Party.isPolling := htimely hrunning
        rw [hp'] at hcount
        change _ + 0 = _ + 0 at hcount
        omega
      · rw [hempty]
        exact Nat.zero_le _
      · omega
    · rw [Bool.not_eq_false] at hrunning
      obtain ⟨rfl, rfl, hqueue⟩ := hmove.closes hrunning hclosed
      have hsame : (c.threads.set i .closed).countP Party.isPolling = c.polling :=
        countP_set_of_eq Party.isPolling hi rfl
      rw [hqueue, hsame]
      exact htimely hrunning

theorem takes_of_polling {i : Nat} (hi : c.threads[i]? = some .polling) {job : Job}
    {queue : List Job} (hqueue : c.shared.queue = job :: queue) : Takes py c i := by
  refine ⟨job, ⟨{ c.shared with queue := queue }, c.threads.set i (.executing job)⟩, ?_, hqueue⟩
  change stepThread (fun _ => Party.next py) c i .run = _
  refine stepThread_eq_some.mpr ⟨_, _, _, hi, ?_, rfl⟩
  simp only [Party.next, hqueue]

theorem Balanced.canDrain (h : c.Balanced) : CanDrain py c := by
  intro hclosed hne
  obtain ⟨job, queue, hqueue⟩ := List.exists_cons_of_ne_nil hne
  have hle := h hclosed
  rw [hqueue] at hle
  have hpos : 0 < c.threads.countP Party.isPolling :=
    Nat.lt_of_lt_of_le (Nat.succ_pos _) hle
  obtain ⟨p, hp, hpolling⟩ := List.countP_pos_iff.mp hpos
  obtain ⟨i, hi⟩ := List.mem_iff_getElem?.mp hp
  cases p with
  | polling => exact ⟨i, takes_of_polling hi hqueue⟩
  | _ => cases hpolling

/-- More items are queued than workers wait for one. -/
def Starved (c : System) : Prop := c.shared.running = false ∧ c.polling < c.shared.queue.length

theorem Starved.step (h : c.Starved) (hstep : step py c a = some c') : c'.Starved := by
  obtain ⟨hclosed, hlt⟩ := h
  rcases step_cases hstep with ⟨p, rfl, hp⟩ | ⟨i, turn, p, g, p', rfl, hi, hmove, rfl⟩
  · have hpolling : p.isPolling = false := by
      rcases hp with ⟨method, -, rfl⟩ | ⟨-, rfl⟩ <;> rfl
    refine ⟨hclosed, ?_⟩
    rw [polling_append c hpolling]
    exact hlt
  · have hcount := countP_set_add Party.isPolling hi p'
    change c.threads.countP Party.isPolling < c.shared.queue.length at hlt
    obtain ⟨hclosed', hqueue⟩ := hmove.balance hclosed
    refine ⟨hclosed', ?_⟩
    change (c.threads.set i p').countP Party.isPolling < g.queue.length
    rcases hqueue with ⟨method, jobs, work, left, rfl, hp', hlength⟩ | ⟨hempty, -⟩ | hkept
    · rw [hp'] at hcount
      change _ + 0 = _ + 0 at hcount
      omega
    · rw [hempty] at hlt
      cases hlt
    · omega

/-- An item that nobody waits for stays in the queue in every run. -/
theorem Starved.forever (h : c.Starved) (hreaches : Reaches (System.step py) c c') : c'.Starved :=
  hreaches.invariant (fun _ _ _ h hstep => h.step hstep) h

end System

/-! ## The results -/

/-- What holds of a thread when no work panics. Once a worker has stopped, the queue has only work
that was sent after the shutdown. -/
def Party.Safe (g : Pool) : Party → Prop
  | .stopping => g.running = false
  | .stopped => g.running = false ∧ ∀ job ∈ g.queue, g.accepted ≤ job.receiver
  | .executed _ outcome => outcome ≠ .error .panicked
  | .crashed => False
  | _ => True

structure Pool.Safe (g : Pool) : Prop where
  accepted_le : g.accepted ≤ g.sent.length
  running : g.running = true → g.accepted = g.sent.length
  results : ∀ r, g.results r ≠ some (.error .panicked)

theorem Pool.Safe.send (h : g.Safe) (work : WorkItem) : (g.send work).Safe := by
  have hlength : (g.send work).sent.length = g.sent.length + 1 := List.length_append
  refine ⟨?_, fun hrunning => ?_, h.results⟩
  · rw [hlength]
    change (if g.running then g.accepted + 1 else g.accepted) ≤ _
    have hle := h.accepted_le
    split_ifs <;> omega
  · change g.running = true at hrunning
    change (if g.running then g.accepted + 1 else g.accepted) = _
    rw [if_pos hrunning, hlength, h.running hrunning]

theorem Pool.Safe.deliver (h : g.Safe) (job : Job) {outcome : Outcome}
    (houtcome : outcome ≠ .error .panicked) : (g.deliver job outcome).Safe := by
  refine ⟨h.accepted_le, h.running, fun r hr => ?_⟩
  change Function.update g.results job.receiver (some outcome) r = _ at hr
  rw [Function.update_apply] at hr
  split_ifs at hr
  · exact houtcome (Option.some.inj hr)
  · exact h.results r hr

theorem Move.pool_safe (h : Move py g p turn g' p') (hg : g.Safe) (hp : p.Safe g)
    (hpanic : ∀ job, p = .executing job → executeWork py job.work ≠ .error .panicked) :
    g'.Safe := by
  cases h with
  | send _ => exact hg.send _
  | close => exact ⟨hg.accepted_le, nofun, hg.results⟩
  | receive _ => exact ⟨hg.accepted_le, hg.running, hg.results⟩
  | panic h => exact absurd h (hpanic _ rfl)
  | deliver => exact hg.deliver _ hp
  | _ => exact hg

/-- The queue of a closed pool gets no item that was accepted before. -/
theorem Move.late (h : Move py g p turn g' p') (hg : g.Safe) (hclosed : g.running = false)
    (hlate : ∀ job ∈ g.queue, g.accepted ≤ job.receiver) :
    ∀ job ∈ g'.queue, g'.accepted ≤ job.receiver := by
  cases h with
  | @send _ _ work _ _ =>
    have haccepted : (g.send work).accepted = g.accepted := by
      change (if g.running then g.accepted + 1 else g.accepted) = g.accepted
      rw [if_neg (Bool.eq_false_iff.mp hclosed)]
    rw [haccepted]
    exact forall_mem_concat hlate hg.accepted_le
  | receive hqueue =>
    rw [hqueue] at hlate
    exact fun job hjob => hlate job (List.mem_cons_of_mem _ hjob)
  | _ => exact hlate

theorem Move.frame_safe {q : Party} (h : Move py g p turn g' p') (hg : g.Safe) (hq : q.Safe g) :
    q.Safe g' := by
  cases q with
  | stopping => exact (h.balance hq).1
  | stopped => exact ⟨(h.balance hq.1).1, h.late hg hq.1 hq.2⟩
  | _ => exact hq

theorem Method.safe_sentAll (method : Method) (jobs : List Job) (ending : Ending) :
    (method.sentAll jobs ending).Safe g := by
  cases ending <;> trivial

theorem Move.party_safe (h : Move py g p turn g' p') (hp : p.Safe g)
    (hpanic : ∀ job, p = .executing job → executeWork py job.work ≠ .error .panicked) :
    p'.Safe g' := by
  cases h with
  | sent => exact Method.safe_sentAll _ _ _
  | leave hclosed => exact hclosed
  | stop hqueue =>
    refine ⟨hp, fun job hjob => ?_⟩
    rw [hqueue] at hjob
    cases hjob
  | panic h => exact hpanic _ rfl h
  | execute h => exact h
  | _ => trivial

/-- Channel `r` has its work item in the queue or its result. -/
def Pool.Has (g : Pool) (r : Nat) : Prop :=
  (∃ job ∈ g.queue, job.receiver = r) ∨ ∃ outcome, g.results r = some outcome

theorem Pool.has_deliver (g : Pool) (job : Job) (outcome : Outcome) {r : Nat}
    (h : g.Has r ∨ some job.receiver = some r) : (g.deliver job outcome).Has r := by
  by_cases hr : r = job.receiver
  · refine .inr ⟨outcome, ?_⟩
    change Function.update g.results job.receiver (some outcome) r = some outcome
    rw [hr, Function.update_self]
  · rcases h with (hqueue | ⟨outcome', hresult⟩) | heq
    · exact .inl hqueue
    · refine .inr ⟨outcome', ?_⟩
      change Function.update g.results job.receiver (some outcome) r = some outcome'
      rw [Function.update_of_ne hr]
      exact hresult
    · exact absurd (Option.some.inj heq).symm hr

/-- A channel is accounted for by the pool or by the thread that moves, before and after. -/
theorem Move.has (h : Move py g p turn g' p') (hg : g.Safe) {r : Nat} (hr : r < g'.accepted) :
    g'.Has r ∨ r < g.accepted ∧ (g.Has r ∨ p.holds = some r → g'.Has r ∨ p'.holds = some r) := by
  cases h with
  | @send _ _ work _ _ =>
    have hmem : (⟨work, g.sent.length⟩ : Job) ∈ (g.send work).queue :=
      List.mem_append_right _ List.mem_cons_self
    by_cases hnew : r = g.sent.length
    · exact .inl (.inl ⟨_, hmem, hnew.symm⟩)
    · have hold : r < g.accepted := by
        change r < (if g.running then g.accepted + 1 else g.accepted) at hr
        split_ifs at hr with hrunning
        · have heq := hg.running hrunning
          omega
        · exact hr
      refine .inr ⟨hold, ?_⟩
      rintro ((⟨job, hjob, heq⟩ | hresult) | hholds)
      · exact .inl (.inl ⟨job, List.mem_append_left _ hjob, heq⟩)
      · exact .inl (.inr hresult)
      · cases hholds
  | @receive job queue hqueue =>
    refine .inr ⟨hr, ?_⟩
    rintro ((⟨job', hjob, heq⟩ | hresult) | hholds)
    · rw [hqueue] at hjob
      rcases List.mem_cons.mp hjob with rfl | htail
      · exact .inr (congrArg some heq)
      · exact .inl (.inl ⟨job', htail, heq⟩)
    · exact .inl (.inr hresult)
    · cases hholds
  | sent => exact .inr ⟨hr, fun h => .inl (h.resolve_right nofun)⟩
  | panic _ => exact .inr ⟨hr, fun h => .inl (Pool.has_deliver _ _ _ h)⟩
  | deliver => exact .inr ⟨hr, fun h => .inl (Pool.has_deliver _ _ _ h)⟩
  | _ => exact .inr ⟨hr, id⟩

theorem Move.isWorker (h : Move py g p turn g' p') : p'.isWorker = p.isWorker := by
  cases h with
  | sent => exact (Method.sentAll_caller _ _ _).2.1
  | _ => rfl

namespace System

variable {c c' : System} {a : Action}

structure Tracked (c : System) : Prop where
  pool : c.shared.Safe
  threads : ∀ p ∈ c.threads, p.Safe c.shared
  has : ∀ r < c.shared.accepted, c.shared.Has r ∨ ∃ p ∈ c.threads, p.holds = some r
  workers : 0 < c.threads.countP Party.isWorker

theorem Tracked.step (h : c.Tracked) (hstep : step py c a = some c') (htimely : Timely py c a) :
    c'.Tracked := by
  rcases step_cases hstep with ⟨p, rfl, hp⟩ | ⟨i, turn, p, g, p', rfl, hi, hmove, rfl⟩
  · refine ⟨h.pool, forall_mem_concat h.threads ?_, fun r hr => ?_, ?_⟩
    · rcases hp with ⟨method, -, rfl⟩ | ⟨-, rfl⟩ <;> trivial
    · refine (h.has r hr).imp_right fun ⟨q, hq, hholds⟩ => ?_
      exact ⟨q, List.mem_append_left _ hq, hholds⟩
    · rw [List.countP_append]
      exact Nat.lt_of_lt_of_le h.workers (Nat.le_add_right _ _)
  · have hpanic : ∀ job, p = .executing job → executeWork py job.work ≠ .error .panicked := by
      rintro job rfl
      exact htimely _ hi
    have hp := h.threads p (List.mem_of_getElem? hi)
    have hmem : p' ∈ c.threads.set i p' :=
      List.mem_set (List.getElem?_eq_some_iff.mp hi).1 p'
    refine ⟨hmove.pool_safe h.pool hp hpanic, ?_, fun r hr => ?_, ?_⟩
    · exact forall_mem_set (fun q hq => hmove.frame_safe h.pool (h.threads q hq))
        (hmove.party_safe hp hpanic)
    · rcases hmove.has h.pool hr with hhas | ⟨hold, hkeep⟩
      · exact .inl hhas
      · have hmoved : c.shared.Has r ∨ p.holds = some r → g.Has r ∨
            ∃ q ∈ c.threads.set i p', q.holds = some r :=
          fun h => (hkeep h).imp_right fun hholds => ⟨p', hmem, hholds⟩
        rcases h.has r hold with hhas | ⟨q, hq, hholds⟩
        · exact hmoved (.inl hhas)
        · rcases eq_or_mem_set hi hq p' with rfl | hq
          · exact hmoved (.inr hholds)
          · exact .inr ⟨q, hq, hholds⟩
    · have hsame : (c.threads.set i p').countP Party.isWorker = c.threads.countP Party.isWorker :=
        countP_set_of_eq Party.isWorker hi hmove.isWorker
      change 0 < (c.threads.set i p').countP Party.isWorker
      rw [hsame]
      exact h.workers

theorem Tracked.answered (h : c.Tracked) : c.Answered := by
  intro hexited r hr
  obtain ⟨p, hp, hworker⟩ := List.countP_pos_iff.mp h.workers
  -- a worker that has left its loop has stopped, so the queue was empty then
  have hlate : ∀ job ∈ c.shared.queue, c.shared.accepted ≤ job.receiver := by
    have hsafe := h.threads p hp
    have hleft := hexited p hp hworker
    cases p with
    | stopped => exact hsafe.2
    | crashed => exact hsafe.elim
    | _ => cases hleft
  have hqueue : ∀ job ∈ c.shared.queue, job.receiver ≠ r := by
    intro job hjob heq
    have hle := hlate job hjob
    omega
  refine ⟨hqueue, ?_⟩
  rcases h.has r hr with (⟨job, hjob, heq⟩ | ⟨outcome, hresult⟩) | ⟨q, hq, hholds⟩
  · exact absurd heq (hqueue job hjob)
  · refine ⟨outcome, hresult, ?_⟩
    rintro rfl
    exact h.pool.results r hresult
  · cases q with
    | executing job => cases hexited _ hq rfl
    | executed job outcome => cases hexited _ hq rfl
    | _ => cases hholds

theorem exitsEmpty_of_timely (htimely : Timely py c a) : ExitsEmpty py c a := by
  intro c' hstep j q q' hq hq' hbefore hafter
  rcases step_cases hstep with ⟨p, rfl, -⟩ | ⟨i, turn, p, g, p', rfl, hi, hmove, rfl⟩
  · have hold : (c.threads ++ [p])[j]? = some q := by
      rw [List.getElem?_append_left (List.getElem?_eq_some_iff.mp hq).1, hq]
    obtain rfl : q = q' := Option.some.inj (hold.symm.trans hq')
    rw [hbefore] at hafter
    cases hafter
  · rcases getElem?_set_cases hq' with ⟨rfl, rfl⟩ | ⟨-, hold⟩
    · obtain rfl : p = q := Option.some.inj (hi.symm.trans hq)
      cases hmove with
      | stop hqueue => exact hqueue
      | panic hpanic => exact absurd hpanic (htimely _ hi)
      | sent =>
        rw [(Method.sentAll_caller _ _ _).2.2] at hafter
        cases hafter
      | _ => cases hafter
    · obtain rfl : q = q' := Option.some.inj (hq.symm.trans hold)
      rw [hbefore] at hafter
      cases hafter

theorem poolSize_pos (maxThreads : Nat) (available : Option ℕ+) :
    0 < poolSize maxThreads available := by
  unfold poolSize
  split_ifs with hzero
  · cases available with
    | none => exact Nat.succ_pos 3
    | some n => exact n.pos
  · exact Nat.pos_of_ne_zero hzero

theorem tracked_start (maxThreads : Nat) (available : Option ℕ+) (queueSize : Nat) :
    (start maxThreads available queueSize).Tracked := by
  refine ⟨⟨Nat.le_refl _, fun _ => rfl, nofun⟩, fun p hp => ?_, nofun, ?_⟩
  · rw [List.eq_of_mem_replicate hp]
    trivial
  · change 0 < (List.replicate (poolSize maxThreads available) Party.looping).countP _
    rw [List.countP_replicate]
    exact poolSize_pos maxThreads available

/-- A run drains the queue if its shutdowns and its late sends find enough workers waiting. -/
theorem drains_of_timely {maxThreads queueSize : Nat} {available : Option ℕ+} {as : List Action}
    (h : Along (System.step py) (Timely py) (start maxThreads available queueSize) as) :
    Drains py (start maxThreads available queueSize) as := by
  have hbalanced : (start maxThreads available queueSize).Balanced := nofun
  have htracked := tracked_start maxThreads available queueSize
  constructor
  · exact h.always (fun _ _ _ h ht hstep => h.step hstep ht) (fun _ h => h.canDrain) hbalanced
  · exact h.mono fun _ _ => exitsEmpty_of_timely
  · exact h.always (fun _ _ _ h ht hstep => h.step hstep ht) (fun _ h => h.answered) htracked

/-- The only worker waits for work when the pool is shut down. -/
def shutdownWhilePolling : List Action :=
  [.move 0 .run, .call (.runSync ⟨.other 1, [.other 5], none⟩), .move 1 .run, .move 1 .run,
    .shutdown, .move 2 .run, .move 0 .run, .move 0 .run, .move 0 .run, .move 0 .run, .move 0 .run,
    .move 0 .run, .move 1 .run]

theorem shutdownWhilePolling_drains : Drains sample (start 1 none 0) shutdownWhilePolling :=
  drains_of_timely (by decide)

theorem Takes.polling {i : Nat} (h : Takes py c i) : c.threads[i]? = some .polling := by
  obtain ⟨job, c', hstep, hqueue⟩ := h
  rcases step_cases hstep with ⟨p, rfl, hp⟩ | ⟨j, turn, p, g, p', heq, hi, hmove, rfl⟩
  · rcases hp with ⟨method, heq, -⟩ | ⟨heq, -⟩ <;> cases heq
  · cases heq
    have hlength := congrArg List.length hqueue
    cases hmove with
    | receive _ => exact hi
    | send _ =>
      change _ = (c.shared.queue ++ [_]).length + 1 at hlength
      rw [List.length_append] at hlength
      omega
    | _ => exact absurd hlength (Nat.ne_of_lt (Nat.lt_succ_self _))

/-- The same call and shutdown while the worker is at the top of its loop. -/
def shutdownBeforePolling : List Action :=
  [.call (.runSync ⟨.other 1, [.other 5], none⟩), .move 1 .run, .move 1 .run, .shutdown,
    .move 2 .run]

theorem shutdownBeforePolling_starves : ¬ Drains sample (start 1 none 0) shutdownBeforePolling ∧
    ∃ c, exec (System.step sample) (start 1 none 0) shutdownBeforePolling = some c ∧
      ∀ c', Reaches (System.step sample) c c' → c'.shared.queue ≠ [] := by
  have hrun : (exec (System.step sample) (start 1 none 0) shutdownBeforePolling).map
      (fun c => (c.shared.running, c.shared.queue.length, c.polling)) = some (false, 1, 0) := rfl
  obtain ⟨c, hexec, heq⟩ := Option.map_eq_some_iff.mp hrun
  obtain ⟨hclosed, hlength, hpolling⟩ : c.shared.running = false ∧ c.shared.queue.length = 1 ∧
      c.polling = 0 := by simpa only [Prod.mk.injEq] using heq
  constructor
  · intro h
    have hne : c.shared.queue ≠ [] := List.ne_nil_of_length_pos (by rw [hlength]; exact Nat.one_pos)
    obtain ⟨i, htakes⟩ := h.canDrain.final hexec hclosed hne
    have hpos : 0 < c.polling := countP_pos_of_getElem? Party.isPolling htakes.polling rfl
    omega
  · refine ⟨c, hexec, fun c' hreaches hempty => ?_⟩
    have hstarved : c.Starved := ⟨hclosed, by omega⟩
    have hlt := (hstarved.forever hreaches).2
    rw [hempty] at hlt
    cases hlt

end System

end Hypern.Tasks.ThreadPool
