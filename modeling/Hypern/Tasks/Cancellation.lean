import Hypern.Tasks.Executor

/-! Cancellation: when `cancel` keeps a handler from being called, over every interleaving of
callers and workers. -/

namespace Hypern.Tasks

open Lib

inductive Thread (Py : Type)
  | submit (pc : SubmitAt Py)
  | worker (pc : WorkerAt Py)

inductive Action (Py : Type)
  | submit (handler : Py) (args : Option Py)
  | cancel (id : String)
  | move (i : Nat) (choice : Choice)

abbrev Pool (Py : Type) := Config (Executor Py) (Thread Py)

variable {Py : Type}

namespace Thread

def next (e : Executor Py) : Thread Py → Choice → Option (Executor Py × Thread Py)
  | .submit pc, choice => (pc.next e choice).map fun r => (r.1, .submit r.2)
  | .worker pc, choice => (pc.next e choice).map fun r => (r.1, .worker r.2)

/-- The task a thread has to itself. -/
def task? : Thread Py → Option (BackgroundTask Py)
  | .submit (.created task) => some task
  | .submit (.inserted task) => some task
  | .worker (.received task) => some task
  | .worker (.checked task) => some task
  | .worker (.delayed task) => some task
  | .worker (.marked task) => some task
  | .worker (.executed task _) => some task
  | _ => none

def holds (id : String) (t : Thread Py) : Bool := t.task?.any (·.id == id)

def isCalled : Thread Py → Bool
  | .submit (.called _ _) => true
  | _ => false

end Thread

namespace Pool

variable {c c' : Pool Py} {e e' : Executor Py} {t t' : Thread Py} {i : Nat} {choice : Choice}
  {a : Action Py} {id : String}

def start (numWorkers queueSize : Nat) : Pool Py :=
  ⟨.new numWorkers queueSize, List.replicate numWorkers (.worker .idle)⟩

def step (c : Pool Py) : Action Py → Option (Pool Py)
  | .submit handler args => some ⟨c.shared, c.threads ++ [.submit (.called handler args)]⟩
  | .cancel id => some ⟨c.shared.cancel id, c.threads⟩
  | .move i choice => stepThread (fun _ => Thread.next) c i choice

/-- Some task of that id had its handler called. -/
def Called (e : Executor Py) (id : String) : Prop := id ∈ e.calls.map (·.id)

/-- No handler is called twice, and none of a task whose cancellation succeeded, which stays
cancelled. -/
structure Sound (c : Pool Py) : Prop where
  once : (c.shared.calls.map (·.id)).Nodup
  cancelled : ∀ id ∈ c.shared.cancelled,
    c.shared.status id = some .cancelled ∧ ¬ Called c.shared id

/-- A step changes no status that is final. -/
def FinalKept (c : Pool Py) (a : Action Py) : Prop :=
  ∀ c', step c a = some c' → ∀ id st, c.shared.status id = some st → st.isFinal = true →
    c'.shared.status id = some st

/-- A worker that marks its task as running finds that nobody has cancelled it since the check. -/
def InTime (c : Pool Py) (a : Action Py) : Prop :=
  ∀ i now outcome task, a = .move i (.run now outcome) →
    c.threads[i]? = some (.worker (.delayed task)) → c.shared.status task.id ≠ some .cancelled

/-- The counter has not come round when an id is generated. -/
def NoWrap (c : Pool Py) : Action Py → Prop
  | .move i _ => ∀ t ∈ c.threads[i]?, t.isCalled = true → c.shared.counter < 2 ^ 64
  | _ => True

instance (a : Action Py) : Decidable (NoWrap c a) := by
  unfold NoWrap
  split <;> infer_instance

/-! ## The invariant -/

/-- Generated so far. -/
def Known (e : Executor Py) (id : String) : Prop :=
  ∃ timestamp count, count < e.counter ∧ id = taskId timestamp (count % 2 ^ 64)

def Waiting (e : Executor Py) (id : String) : Prop :=
  e.status id = some .pending ∨ e.status id = some .cancelled

structure IdOk (e : Executor Py) (id : String) : Prop where
  known : (e.status id).isSome → Known e id
  called : Called e id → ∃ st, e.status id = some st ∧ st ≠ .pending ∧ st ≠ .cancelled
  cancelled : id ∈ e.cancelled → e.status id = some .cancelled

def ThreadOk (e : Executor Py) : Thread Py → Prop
  | .submit (.created task) => e.status task.id = none
  | .submit (.inserted task) => Waiting e task.id
  | .worker (.received task) => Waiting e task.id
  | .worker (.checked task) => Waiting e task.id
  | .worker (.delayed task) => Waiting e task.id
  | .worker (.marked task) => e.status task.id = some .running ∧ ¬ Called e task.id
  | .worker (.executed task _) => e.status task.id = some .running
  | _ => True

/-- How often a task of that id is held by a thread or waits in the queue. -/
def heldCount (c : Pool Py) (id : String) : Nat :=
  c.threads.countP (·.holds id) + c.shared.queue.countP (·.id == id)

structure Inv (c : Pool Py) : Prop where
  single : ∀ id, heldCount c id ≤ 1
  known : ∀ id, 0 < heldCount c id → Known c.shared id
  ids : ∀ id, IdOk c.shared id
  threads : ∀ (i : Nat) t, c.threads[i]? = some t → ThreadOk c.shared t
  queue : ∀ task ∈ c.shared.queue, Waiting c.shared task.id
  once : (c.shared.calls.map (·.id)).Nodup

/-- Nothing changes for a task of that id. -/
structure SameAt (e e' : Executor Py) (id : String) : Prop where
  status : e'.status id = e.status id
  called : Called e' id ↔ Called e id
  cancelled : id ∈ e'.cancelled ↔ id ∈ e.cancelled

theorem SameAt.refl (e : Executor Py) (id : String) : SameAt e e id := ⟨rfl, Iff.rfl, Iff.rfl⟩

theorem Known.mono (h : Known e id) (hcounter : e.counter ≤ e'.counter) : Known e' id := by
  obtain ⟨timestamp, count, hlt, heq⟩ := h
  exact ⟨timestamp, count, Nat.lt_of_lt_of_le hlt hcounter, heq⟩

theorem SameAt.idOk (h : SameAt e e' id) (hcounter : e.counter ≤ e'.counter) (hok : IdOk e id) :
    IdOk e' id := by
  refine ⟨fun hsome => ?_, fun hcalled => ?_, fun hmem => ?_⟩
  · exact (hok.known (h.status ▸ hsome)).mono hcounter
  · rw [h.status]
    exact hok.called (h.called.mp hcalled)
  · rw [h.status]
    exact hok.cancelled (h.cancelled.mp hmem)

theorem SameAt.waiting (h : SameAt e e' id) (hw : Waiting e id) : Waiting e' id := by
  unfold Waiting
  rw [h.status]
  exact hw

theorem holds_iff : t.holds id = true ↔ ∃ task, t.task? = some task ∧ task.id = id := by
  unfold Thread.holds
  rw [Option.any_eq_true]
  simp only [beq_iff_eq]

/-- What holds of a thread depends on its own task only. -/
theorem ThreadOk.congr (h : ThreadOk e t)
    (hsame : ∀ task, t.task? = some task → SameAt e e' task.id) : ThreadOk e' t := by
  match t with
  | .submit (.called _ _) => trivial
  | .submit (.created task) => exact (hsame task rfl).status.trans h
  | .submit (.inserted task) => exact (hsame task rfl).waiting h
  | .submit (.returned _) => trivial
  | .worker .idle => trivial
  | .worker (.received task) => exact (hsame task rfl).waiting h
  | .worker (.checked task) => exact (hsame task rfl).waiting h
  | .worker (.delayed task) => exact (hsame task rfl).waiting h
  | .worker (.marked task) =>
    have hs := hsame task rfl
    exact ⟨hs.status.trans h.1, fun hcalled => h.2 (hs.called.mp hcalled)⟩
  | .worker (.executed task _) => exact (hsame task rfl).status.trans h

theorem heldCount_set_le (ht : c.threads[i]? = some t)
    (hle : (if t'.holds id then 1 else 0) + e'.queue.countP (·.id == id) ≤
      (if t.holds id then 1 else 0) + c.shared.queue.countP (·.id == id)) :
    heldCount ⟨e', c.threads.set i t'⟩ id ≤ heldCount c id := by
  have hset := countP_set_add (Thread.holds id) ht t'
  change (c.threads.set i t').countP (Thread.holds id) + e'.queue.countP _ ≤
    c.threads.countP (Thread.holds id) + _
  omega

/-- Nobody else has the task of a thread. -/
theorem not_holds_of_ne (h : Inv c) (ht : c.threads[i]? = some t) {j : Nat} {s : Thread Py}
    (hs : c.threads[j]? = some s) (hne : j ≠ i) (hholds : s.holds id = true) :
    t.holds id = false := by
  rw [← Bool.not_eq_true]
  intro hmine
  have htwo := two_le_countP (Thread.holds id) ht hs hne.symm hmine hholds
  have hsingle := h.single id
  unfold heldCount at hsingle
  change c.threads.countP (Thread.holds id) + _ ≤ 1 at hsingle
  omega

theorem not_holds_of_queued (h : Inv c) (ht : c.threads[i]? = some t) {task : BackgroundTask Py}
    (hmem : task ∈ c.shared.queue) : t.holds task.id = false := by
  rw [← Bool.not_eq_true]
  intro hmine
  have hone := countP_pos_of_getElem? (Thread.holds task.id) ht hmine
  have hqueued : 0 < c.shared.queue.countP (·.id == task.id) :=
    List.countP_pos_iff.mpr ⟨task, hmem, beq_self_eq_true task.id⟩
  have hsingle := h.single task.id
  unfold heldCount at hsingle
  change c.threads.countP (Thread.holds task.id) + _ ≤ 1 at hsingle
  omega

/-- A move in which a thread touches nothing but the entry of its own task. -/
theorem inv_move (h : Inv c) (ht : c.threads[i]? = some t)
    (hcounter : c.shared.counter ≤ e'.counter)
    (hsame : ∀ id, t.holds id = false → SameAt c.shared e' id)
    (hown : ∀ id, t.holds id = true → IdOk e' id)
    (hheld : ∀ id, heldCount ⟨e', c.threads.set i t'⟩ id ≤ heldCount c id)
    (hqueue : ∀ task ∈ e'.queue, task ∈ c.shared.queue ∨ Waiting e' task.id)
    (hok : ThreadOk e' t') (honce : (e'.calls.map (·.id)).Nodup) :
    Inv ⟨e', c.threads.set i t'⟩ := by
  refine ⟨fun id => ?_, fun id hpos => ?_, fun id => ?_, fun j s hs => ?_, fun task hmem => ?_, honce⟩
  · exact Nat.le_trans (hheld id) (h.single id)
  · exact (h.known id (Nat.lt_of_lt_of_le hpos (hheld id))).mono hcounter
  · cases hholds : t.holds id with
    | false => exact (hsame id hholds).idOk hcounter (h.ids id)
    | true => exact hown id hholds
  · rcases getElem?_set_cases hs with ⟨rfl, rfl⟩ | ⟨hij, hold⟩
    · exact hok
    · refine (h.threads j s hold).congr fun task htask => hsame task.id ?_
      exact not_holds_of_ne h ht hold hij (holds_iff.mpr ⟨task, htask, rfl⟩)
  · rcases hqueue task hmem with hold | hwaiting
    · exact (hsame task.id (not_holds_of_queued h ht hold)).waiting (h.queue task hold)
    · exact hwaiting

variable {task : BackgroundTask Py}

theorem heldCount_set_le_of_task (ht : c.threads[i]? = some t) (hqueue : e'.queue = c.shared.queue)
    (htask : t'.task? = none ∨ t'.task? = t.task?) (id : String) :
    heldCount ⟨e', c.threads.set i t'⟩ id ≤ heldCount c id := by
  refine heldCount_set_le ht ?_
  rw [hqueue]
  refine Nat.add_le_add_right ?_ _
  unfold Thread.holds
  rcases htask with hnone | hsame
  · rw [hnone]
    exact Nat.zero_le _
  · exact Nat.le_of_eq (by rw [hsame])

/-- A move that leaves the executor as it is. -/
theorem inv_quiet (h : Inv c) (ht : c.threads[i]? = some t)
    (htask : t'.task? = none ∨ t'.task? = t.task?) (hok : ThreadOk c.shared t') :
    Inv ⟨c.shared, c.threads.set i t'⟩ :=
  inv_move h ht (Nat.le_refl _) (fun id _ => .refl _ id) (fun id _ => h.ids id)
    (heldCount_set_le_of_task ht rfl htask) (fun _ hmem => .inl hmem) hok h.once

/-- A move that changes the entry of the thread's task, or that calls its handler. -/
theorem inv_touch (h : Inv c) (ht : c.threads[i]? = some t) (htask : t.task? = some task)
    (htask' : t'.task? = none ∨ t'.task? = t.task?)
    (hsame : ∀ id, id ≠ task.id → SameAt c.shared e' id) (hown : IdOk e' task.id)
    (hqueue : e'.queue = c.shared.queue) (hcounter : e'.counter = c.shared.counter)
    (hok : ThreadOk e' t') (honce : (e'.calls.map (·.id)).Nodup) :
    Inv ⟨e', c.threads.set i t'⟩ := by
  refine inv_move h ht (Nat.le_of_eq hcounter.symm) (fun id hnot => hsame id ?_) (fun id hholds => ?_)
    (heldCount_set_le_of_task ht hqueue htask') (fun x hmem => .inl (hqueue ▸ hmem)) hok honce
  · rintro rfl
    rw [holds_iff.mpr ⟨task, htask, rfl⟩] at hnot
    cases hnot
  · obtain ⟨other, hother, rfl⟩ := holds_iff.mp hholds
    obtain rfl := Option.some.inj (htask.symm.trans hother)
    exact hown

theorem known_of_task (h : Inv c) (ht : c.threads[i]? = some t) (htask : t.task? = some task) :
    Known c.shared task.id := by
  have hholds : t.holds task.id = true := holds_iff.mpr ⟨task, htask, rfl⟩
  have hpos := countP_pos_of_getElem? (Thread.holds task.id) ht hholds
  exact h.known task.id (Nat.add_pos_left hpos _)

theorem sameAt_modify (f : TaskResult → TaskResult) (hne : id ≠ task.id) :
    SameAt e (e.modify task.id f) id :=
  ⟨Executor.status_modify_of_ne e task.id f hne, Iff.rfl, Iff.rfl⟩

/-- An entry that gets a status which is neither pending nor cancelled, and was not cancelled. -/
theorem inv_modify (h : Inv c) (ht : c.threads[i]? = some t) (htask : t.task? = some task)
    (htask' : t'.task? = none ∨ t'.task? = t.task?) (f : TaskResult → TaskResult) (st : TaskStatus)
    (hf : ∀ r, (f r).status = st) (hst : st ≠ .pending ∧ st ≠ .cancelled)
    (hsome : (c.shared.status task.id).isSome)
    (hnot : c.shared.status task.id ≠ some .cancelled)
    (hok : (c.shared.modify task.id f).status task.id = some st →
      ThreadOk (c.shared.modify task.id f) t') :
    Inv ⟨c.shared.modify task.id f, c.threads.set i t'⟩ := by
  have hstatus := c.shared.status_modify_self task.id hf hsome
  refine inv_touch h ht htask htask' (fun id hne => sameAt_modify f hne) ⟨?_, ?_, ?_⟩ rfl rfl
    (hok hstatus) h.once
  · exact fun _ => (h.ids task.id).known hsome
  · exact fun _ => ⟨st, hstatus, hst⟩
  · exact fun hmem => absurd ((h.ids task.id).cancelled hmem) hnot

theorem inv_insert (h : Inv c) (ht : c.threads[i]? = some (.submit (.created task))) :
    Inv ⟨c.shared.insertPending task.id, c.threads.set i (.submit (.inserted task))⟩ := by
  have hnone : c.shared.status task.id = none := h.threads i _ ht
  have hstatus : (c.shared.insertPending task.id).status task.id = some .pending := by
    rw [Executor.status_insertPending, if_pos rfl]
  refine inv_touch h ht rfl (.inr rfl) (fun id hne => ⟨?_, Iff.rfl, Iff.rfl⟩) ⟨?_, ?_, ?_⟩ rfl rfl
    (.inl hstatus) h.once
  · rw [Executor.status_insertPending, if_neg hne]
  · exact fun _ => known_of_task h ht rfl
  · intro hcalled
    obtain ⟨st, hst, -⟩ := (h.ids task.id).called hcalled
    rw [hnone] at hst
    cases hst
  · intro hmem
    have hcancelled := (h.ids task.id).cancelled hmem
    rw [hnone] at hcancelled
    cases hcancelled

theorem sameAt_queue (queue : List (BackgroundTask Py)) (id : String) :
    SameAt e { e with queue := queue } id :=
  ⟨rfl, Iff.rfl, Iff.rfl⟩

theorem inv_send (h : Inv c) (ht : c.threads[i]? = some (.submit (.inserted task)))
    {result : Except String String} :
    Inv ⟨{ c.shared with queue := c.shared.queue ++ [task] },
      c.threads.set i (.submit (.returned result))⟩ := by
  have hwaiting : Waiting c.shared task.id := h.threads i _ ht
  refine inv_move h ht (Nat.le_refl _) (fun id _ => sameAt_queue _ id)
    (fun id _ => (sameAt_queue _ id).idOk (Nat.le_refl _) (h.ids id))
    (fun id => ?_) (fun x hmem => ?_) trivial h.once
  · refine heldCount_set_le ht ?_
    simp [Thread.holds, Thread.task?, List.countP_cons]
    omega
  · rcases List.mem_append.mp hmem with hmem | hmem
    · exact .inl hmem
    · rw [List.mem_singleton.mp hmem]
      exact .inr hwaiting

theorem inv_receive (h : Inv c) (ht : c.threads[i]? = some (.worker .idle))
    {queue : List (BackgroundTask Py)} (hqueue : c.shared.queue = task :: queue) :
    Inv ⟨{ c.shared with queue := queue }, c.threads.set i (.worker (.received task))⟩ := by
  have hwaiting : Waiting c.shared task.id := h.queue task (hqueue ▸ List.mem_cons_self ..)
  refine inv_move h ht (Nat.le_refl _) (fun id _ => sameAt_queue _ id)
    (fun id _ => (sameAt_queue _ id).idOk (Nat.le_refl _) (h.ids id))
    (fun id => ?_) (fun x hmem => .inl (hqueue ▸ List.mem_cons_of_mem _ hmem)) hwaiting h.once
  refine heldCount_set_le ht ?_
  simp [Thread.holds, Thread.task?, hqueue, List.countP_cons]
  omega

theorem inv_execute (h : Inv c) (ht : c.threads[i]? = some (.worker (.marked task)))
    (outcome : Except String String) :
    Inv ⟨{ c.shared with calls := task :: c.shared.calls },
      c.threads.set i (.worker (.executed task outcome))⟩ := by
  obtain ⟨hrunning, hnot⟩ : c.shared.status task.id = some .running ∧ ¬ Called c.shared task.id :=
    h.threads i _ ht
  have hid := h.ids task.id
  refine inv_touch h ht rfl (.inr rfl) (fun id hne => ⟨rfl, ?_, Iff.rfl⟩)
    ⟨hid.known, fun _ => ⟨.running, hrunning, nofun, nofun⟩, hid.cancelled⟩ rfl rfl hrunning ?_
  · unfold Called
    rw [List.map_cons, List.mem_cons]
    exact or_iff_right hne
  · exact List.nodup_cons.mpr ⟨hnot, h.once⟩

/-! ## New ids -/

theorem not_known_newTask (hcounter : e.counter < 2 ^ 64) (now : Nat) (handler : Py)
    (args : Option Py) : ¬ Known e (e.newTask now handler args).id := by
  rintro ⟨timestamp, count, hlt, heq⟩
  have hcount := taskId_count_eq heq
  rw [Nat.mod_eq_of_lt hcounter, Nat.mod_eq_of_lt (Nat.lt_trans hlt hcounter)] at hcount
  exact Nat.ne_of_gt hlt hcount

theorem sameAt_counter (id : String) : SameAt e { e with counter := e.counter + 1 } id :=
  ⟨rfl, Iff.rfl, Iff.rfl⟩

theorem inv_create {handler : Py} {args : Option Py} (h : Inv c)
    (ht : c.threads[i]? = some (.submit (.called handler args))) (now : Nat)
    (hcounter : c.shared.counter < 2 ^ 64) :
    Inv ⟨{ c.shared with counter := c.shared.counter + 1 },
      c.threads.set i (.submit (.created (c.shared.newTask now handler args)))⟩ := by
  have hnew := not_known_newTask hcounter now handler args
  have hstatus : c.shared.status (c.shared.newTask now handler args).id = none := by
    by_contra hsome
    exact hnew ((h.ids _).known (Option.isSome_iff_ne_none.mpr hsome))
  -- the new id is held once, and every other id as often as before
  have hheld : ∀ id, heldCount ⟨{ c.shared with counter := c.shared.counter + 1 },
      c.threads.set i (.submit (.created (c.shared.newTask now handler args)))⟩ id =
      heldCount c id + if (c.shared.newTask now handler args).id = id then 1 else 0 := by
    intro id
    have hset : (c.threads.set i (.submit (.created (c.shared.newTask now handler args)))).countP
        (Thread.holds id) + 0 = c.threads.countP (Thread.holds id) +
        if ((c.shared.newTask now handler args).id == id) = true then 1 else 0 :=
      countP_set_add (Thread.holds id) ht _
    simp only [beq_iff_eq] at hset
    change (c.threads.set i _).countP (Thread.holds id) + c.shared.queue.countP _ =
      c.threads.countP (Thread.holds id) + _ + _
    omega
  refine ⟨fun id => ?_, fun id hpos => ?_, fun id => ?_, fun j s hs => ?_, h.queue, h.once⟩
  · rw [hheld]
    split_ifs with heq
    · have hzero : heldCount c id = 0 := by
        by_contra hne
        exact hnew (heq ▸ h.known id (Nat.pos_of_ne_zero hne))
      exact Nat.le_of_eq (congrArg (· + 1) hzero)
    · exact h.single id
  · rw [hheld] at hpos
    split_ifs at hpos with heq
    · exact ⟨now, c.shared.counter, Nat.lt_succ_self _, heq.symm⟩
    · exact (h.known id hpos).mono (Nat.le_succ _)
  · exact (sameAt_counter id).idOk (Nat.le_succ _) (h.ids id)
  · rcases List.mem_or_eq_of_mem_set (List.mem_of_getElem? hs) with hmem | rfl
    · obtain ⟨k, hk⟩ := List.mem_iff_getElem?.mp hmem
      exact (h.threads k s hk).congr fun task _ => sameAt_counter task.id
    · exact hstatus

/-! ## The other actions -/

theorem inv_submit (h : Inv c) (handler : Py) (args : Option Py) :
    Inv ⟨c.shared, c.threads ++ [.submit (.called handler args)]⟩ := by
  have hheld : ∀ id, heldCount ⟨c.shared, c.threads ++ [.submit (.called handler args)]⟩ id =
      heldCount c id := by
    intro id
    change (c.threads ++ [_]).countP (Thread.holds id) + _ = c.threads.countP (Thread.holds id) + _
    rw [List.countP_append]
    rfl
  refine ⟨fun id => ?_, fun id hpos => ?_, h.ids, fun j t ht => ?_, h.queue, h.once⟩
  · rw [hheld]
    exact h.single id
  · rw [hheld] at hpos
    exact h.known id hpos
  · rcases List.mem_append.mp (List.mem_of_getElem? ht) with hmem | hmem
    · obtain ⟨k, hk⟩ := List.mem_iff_getElem?.mp hmem
      exact h.threads k t hk
    · rw [List.mem_singleton.mp hmem]
      trivial

theorem calls_cancel (e : Executor Py) (id : String) : (e.cancel id).calls = e.calls := by
  unfold Executor.cancel
  split_ifs <;> rfl

theorem counter_cancel (e : Executor Py) (id : String) : (e.cancel id).counter = e.counter := by
  unfold Executor.cancel
  split_ifs <;> rfl

theorem mem_cancelled_cancel {other : String} (h : other ∈ (e.cancel id).cancelled) :
    other ∈ e.cancelled ∨ other = id ∧ e.status id = some .pending := by
  unfold Executor.cancel at h
  split_ifs at h with hpending
  · rcases List.mem_cons.mp h with heq | hmem
    · exact .inr ⟨heq, hpending⟩
    · exact .inl hmem
  · exact .inl h

/-- Cancellation changes a pending entry only. -/
theorem status_cancel_of_ne_pending {other : String} (h : e.status other ≠ some .pending) :
    (e.cancel id).status other = e.status other := by
  rw [Executor.status_cancel]
  split_ifs with hboth
  · obtain ⟨rfl, hpending⟩ := hboth
    exact absurd hpending h
  · rfl

theorem waiting_cancel {other : String} (h : Waiting e other) : Waiting (e.cancel id) other := by
  unfold Waiting
  rw [Executor.status_cancel]
  split_ifs
  · exact .inr rfl
  · exact h

theorem not_called_of_pending (hok : IdOk e id) (h : e.status id = some .pending) :
    ¬ Called e id := by
  intro hcalled
  obtain ⟨st, hst, hne, -⟩ := hok.called hcalled
  exact hne (Option.some.inj (hst.symm.trans h))

theorem idOk_cancel {other : String} (h : IdOk e other) : IdOk (e.cancel id) other := by
  by_cases hpending : other = id ∧ e.status id = some .pending
  · obtain ⟨rfl, hpending⟩ := hpending
    have hstatus : (e.cancel other).status other = some .cancelled := by
      rw [Executor.status_cancel, if_pos ⟨rfl, hpending⟩]
    refine ⟨fun _ => ?_, fun hcalled => ?_, fun _ => hstatus⟩
    · exact (h.known (by rw [hpending]; rfl)).mono (Nat.le_of_eq (counter_cancel e other).symm)
    · unfold Called at hcalled
      rw [calls_cancel] at hcalled
      exact absurd hcalled (not_called_of_pending h hpending)
  · have hstatus : (e.cancel id).status other = e.status other := by
      rw [Executor.status_cancel, if_neg hpending]
    refine ⟨fun hsome => ?_, fun hcalled => ?_, fun hmem => ?_⟩
    · exact (h.known (hstatus ▸ hsome)).mono (Nat.le_of_eq (counter_cancel e id).symm)
    · unfold Called at hcalled
      rw [calls_cancel] at hcalled
      rw [hstatus]
      exact h.called hcalled
    · rw [hstatus]
      exact h.cancelled ((mem_cancelled_cancel hmem).resolve_right hpending)

theorem threadOk_cancel (h : ThreadOk e t) : ThreadOk (e.cancel id) t := by
  have hkeep : ∀ {other : String} {st : Option TaskStatus}, e.status other = st →
      st ≠ some .pending → (e.cancel id).status other = st := by
    rintro other st rfl hne
    exact status_cancel_of_ne_pending hne
  match t with
  | .submit (.called _ _) => trivial
  | .submit (.created task) => exact hkeep h nofun
  | .submit (.inserted task) => exact waiting_cancel h
  | .submit (.returned _) => trivial
  | .worker .idle => trivial
  | .worker (.received task) => exact waiting_cancel h
  | .worker (.checked task) => exact waiting_cancel h
  | .worker (.delayed task) => exact waiting_cancel h
  | .worker (.marked task) =>
    refine ⟨hkeep h.1 nofun, ?_⟩
    unfold Called
    rw [calls_cancel]
    exact h.2
  | .worker (.executed task _) => exact hkeep h nofun

theorem inv_cancel (h : Inv c) (id : String) : Inv ⟨c.shared.cancel id, c.threads⟩ := by
  have hheld : ∀ other, heldCount ⟨c.shared.cancel id, c.threads⟩ other = heldCount c other := by
    intro other
    unfold heldCount
    rw [Executor.queue_cancel]
  refine ⟨fun other => ?_, fun other hpos => ?_, fun other => idOk_cancel (h.ids other),
    fun j t ht => threadOk_cancel (h.threads j t ht), fun task hmem => ?_, ?_⟩
  · rw [hheld]
    exact h.single other
  · rw [hheld] at hpos
    exact (h.known other hpos).mono (Nat.le_of_eq (counter_cancel c.shared id).symm)
  · rw [Executor.queue_cancel] at hmem
    exact waiting_cancel (h.queue task hmem)
  · rw [calls_cancel]
    exact h.once

/-! ## Steps and runs -/

/-- What one step can do. -/
theorem step_cases (h : step c a = some c') :
    (∃ handler args, a = .submit handler args ∧
      c' = ⟨c.shared, c.threads ++ [.submit (.called handler args)]⟩) ∨
    (∃ id, a = .cancel id ∧ c' = ⟨c.shared.cancel id, c.threads⟩) ∨
    (∃ i choice pc e' pc', a = .move i choice ∧ c.threads[i]? = some (.submit pc) ∧
      SubmitMove c.shared pc choice e' pc' ∧ c' = ⟨e', c.threads.set i (.submit pc')⟩) ∨
    ∃ i choice pc e' pc', a = .move i choice ∧ c.threads[i]? = some (.worker pc) ∧
      WorkerMove c.shared pc choice e' pc' ∧ c' = ⟨e', c.threads.set i (.worker pc')⟩ := by
  cases a with
  | submit handler args =>
    cases h
    exact .inl ⟨handler, args, rfl, rfl⟩
  | cancel id =>
    cases h
    exact .inr (.inl ⟨id, rfl, rfl⟩)
  | move i choice =>
    change stepThread (fun _ => Thread.next) c i choice = some c' at h
    obtain ⟨t, e', t', ht, hnext, rfl⟩ := stepThread_eq_some.mp h
    cases t with
    | submit pc =>
      obtain ⟨pc', hpc, rfl⟩ := map_snd_eq_some hnext
      exact .inr (.inr (.inl ⟨i, choice, pc, _, pc', rfl, ht, .of_next hpc, rfl⟩))
    | worker pc =>
      obtain ⟨pc', hpc, rfl⟩ := map_snd_eq_some hnext
      exact .inr (.inr (.inr ⟨i, choice, pc, _, pc', rfl, ht, .of_next hpc, rfl⟩))

theorem inv_submitMove {pc pc' : SubmitAt Py} (h : Inv c) (ht : c.threads[i]? = some (.submit pc))
    (hmove : SubmitMove c.shared pc choice e' pc') (hwrap : NoWrap c (.move i choice)) :
    Inv ⟨e', c.threads.set i (.submit pc')⟩ := by
  cases hmove with
  | create => exact inv_create h ht _ (hwrap _ ht rfl)
  | insert => exact inv_insert h ht
  | refuse _ => exact inv_quiet h ht (.inl rfl) trivial
  | send _ _ => exact inv_send h ht

theorem pending_of_waiting (h : Waiting e id) (hnot : e.status id ≠ some .cancelled) :
    e.status id = some .pending :=
  h.resolve_right hnot

theorem inv_workerMove {pc pc' : WorkerAt Py} (h : Inv c) (ht : c.threads[i]? = some (.worker pc))
    (hmove : WorkerMove c.shared pc choice e' pc') (ha : InTime c (.move i choice)) :
    Inv ⟨e', c.threads.set i (.worker pc')⟩ := by
  have hok := h.threads i _ ht
  cases hmove with
  | timeOut => exact inv_quiet h ht (.inl rfl) trivial
  | receive hqueue => exact inv_receive h ht hqueue
  | skip _ => exact inv_quiet h ht (.inl rfl) trivial
  | check _ => exact inv_quiet h ht (.inr rfl) hok
  | delay => exact inv_quiet h ht (.inr rfl) hok
  | mark =>
    have hnot := ha i _ _ _ rfl ht
    have hpending := pending_of_waiting hok hnot
    have hcalled := not_called_of_pending (h.ids _) hpending
    refine inv_modify h ht rfl ?_ _ .running ?_ ⟨nofun, nofun⟩ (by rw [hpending]; rfl) hnot ?_
    · exact .inr rfl
    · exact fun _ => rfl
    · exact fun hrunning => ⟨hrunning, hcalled⟩
  | execute => exact inv_execute h ht _
  | @record task now outcome _ =>
    have hrunning : c.shared.status task.id = some .running := hok
    have hsome : (c.shared.status task.id).isSome := by
      rw [hrunning]
      rfl
    have hnot : c.shared.status task.id ≠ some .cancelled := by
      rw [hrunning]
      nofun
    cases outcome with
    | ok res =>
      exact inv_modify h ht rfl (.inl rfl) _ .completed (fun _ => rfl) ⟨nofun, nofun⟩ hsome hnot
        fun _ => trivial
    | error err =>
      exact inv_modify h ht rfl (.inl rfl) _ .failed (fun _ => rfl) ⟨nofun, nofun⟩ hsome hnot
        fun _ => trivial

theorem inv_step (h : Inv c) (hwrap : NoWrap c a) (ha : InTime c a) (hstep : step c a = some c') :
    Inv c' := by
  rcases step_cases hstep with ⟨handler, args, rfl, rfl⟩ | ⟨id, rfl, rfl⟩ |
    ⟨i, choice, pc, e', pc', rfl, ht, hmove, rfl⟩ | ⟨i, choice, pc, e', pc', rfl, ht, hmove, rfl⟩
  · exact inv_submit h handler args
  · exact inv_cancel h id
  · exact inv_submitMove h ht hmove hwrap
  · exact inv_workerMove h ht hmove ha

theorem inv_start (numWorkers queueSize : Nat) : Inv (start numWorkers queueSize : Pool Py) := by
  have hheld : ∀ id, heldCount (start numWorkers queueSize : Pool Py) id = 0 := by
    intro id
    change (List.replicate numWorkers (Thread.worker WorkerAt.idle)).countP (Thread.holds id) + 0 = 0
    rw [List.countP_replicate]
    rfl
  refine ⟨fun id => ?_, fun id hpos => ?_, fun id => ⟨nofun, nofun, nofun⟩, fun j t ht => ?_, nofun,
    List.nodup_nil⟩
  · rw [hheld]
    exact Nat.zero_le 1
  · rw [hheld] at hpos
    cases hpos
  · rw [List.eq_of_mem_replicate (List.mem_of_getElem? ht)]
    trivial

theorem sound_of_inv (h : Inv c) : Sound c := by
  refine ⟨h.once, fun id hmem => ?_⟩
  have hcancelled := (h.ids id).cancelled hmem
  refine ⟨hcancelled, fun hcalled => ?_⟩
  obtain ⟨st, hst, -, hne⟩ := (h.ids id).called hcalled
  exact hne (Option.some.inj (hst.symm.trans hcancelled))

/-- An entry that is not final may be changed without touching a final one. -/
theorem final_kept_modify {x : String} (hx : ∀ st, e.status x = some st → st.isFinal = false)
    (f : TaskResult → TaskResult) {st : TaskStatus} (hst : e.status id = some st)
    (hfinal : st.isFinal = true) : (e.modify x f).status id = some st := by
  rw [e.status_modify_of_ne x f, hst]
  rintro rfl
  rw [hx st hst] at hfinal
  cases hfinal

theorem finalKept_submitMove {pc pc' : SubmitAt Py} (h : Inv c)
    (ht : c.threads[i]? = some (.submit pc)) (hmove : SubmitMove c.shared pc choice e' pc')
    {st : TaskStatus} (hst : c.shared.status id = some st) : e'.status id = some st := by
  have hok := h.threads i _ ht
  cases hmove with
  | create => exact hst
  | @insert task _ _ =>
    have hnone : c.shared.status task.id = none := hok
    rw [Executor.status_insertPending, if_neg, hst]
    rintro rfl
    rw [hst] at hnone
    cases hnone
  | refuse _ => exact hst
  | send _ _ => exact hst

theorem finalKept_workerMove {pc pc' : WorkerAt Py} (h : Inv c)
    (ht : c.threads[i]? = some (.worker pc)) (hmove : WorkerMove c.shared pc choice e' pc')
    (ha : InTime c (.move i choice)) {st : TaskStatus} (hst : c.shared.status id = some st)
    (hfinal : st.isFinal = true) : e'.status id = some st := by
  have hok := h.threads i _ ht
  cases hmove with
  | timeOut => exact hst
  | receive _ => exact hst
  | skip _ => exact hst
  | check _ => exact hst
  | delay => exact hst
  | mark =>
    have hpending := pending_of_waiting hok (ha i _ _ _ rfl ht)
    refine final_kept_modify (fun other hother => ?_) _ hst hfinal
    rw [hpending] at hother
    cases hother
    rfl
  | execute => exact hst
  | @record task _ _ _ =>
    have hrunning : c.shared.status task.id = some .running := hok
    refine final_kept_modify (fun other hother => ?_) _ hst hfinal
    rw [hrunning] at hother
    cases hother
    rfl

theorem finalKept_of_inTime (h : Inv c) (ha : InTime c a) : FinalKept c a := by
  intro c' hstep id st hst hfinal
  rcases step_cases hstep with ⟨handler, args, rfl, rfl⟩ | ⟨other, rfl, rfl⟩ |
    ⟨i, choice, pc, e', pc', rfl, ht, hmove, rfl⟩ | ⟨i, choice, pc, e', pc', rfl, ht, hmove, rfl⟩
  · exact hst
  · refine (status_cancel_of_ne_pending ?_).trans hst
    rw [hst]
    rintro heq
    cases heq
    cases hfinal
  · exact finalKept_submitMove h ht hmove hst
  · exact finalKept_workerMove h ht hmove ha hst hfinal

/-- Marking a cancelled task as running changes a final status. -/
theorem inTime_of_finalKept (h : FinalKept c a) : InTime c a := by
  rintro i now outcome task rfl ht hcancelled
  have hstep : step c (.move i (.run now outcome)) =
      some ⟨c.shared.markRunning task.id now, c.threads.set i (.worker (.marked task))⟩ := by
    change stepThread (fun _ => Thread.next) c i _ = _
    exact stepThread_eq_some.mpr ⟨_, _, _, ht, rfl, rfl⟩
  have hkept := h _ hstep task.id .cancelled hcancelled rfl
  have hrunning : (c.shared.markRunning task.id now).status task.id = some .running :=
    c.shared.status_modify_self task.id (fun _ => rfl) (by rw [hcancelled]; rfl)
  rw [hrunning] at hkept
  cases hkept

theorem cancellation_final_iff_inTime (numWorkers queueSize : Nat) (actions : List (Action Py))
    (hwrap : Along step NoWrap (start numWorkers queueSize) actions) :
    (Always step Sound (start numWorkers queueSize) actions ∧
      Along step FinalKept (start numWorkers queueSize) actions) ↔
      Along step InTime (start numWorkers queueSize) actions := by
  constructor
  · rintro ⟨-, h⟩
    exact h.mono fun _ _ => inTime_of_finalKept
  · intro h
    have hboth := hwrap.and h
    refine ⟨?_, ?_⟩
    · exact hboth.always (fun _ _ _ hs ha hstep => inv_step hs ha.1 ha.2 hstep)
        (fun _ => sound_of_inv) (inv_start numWorkers queueSize)
    · exact hboth.strengthen (fun _ _ _ hs ha hstep => inv_step hs ha.1 ha.2 hstep)
        (fun _ _ hs ha => finalKept_of_inTime hs ha.2) (inv_start numWorkers queueSize)

/-- A task is submitted, received by the worker and cancelled after the `checks` first steps of
the worker, which then goes on. -/
def cancelledAfter (checks : Nat) : List (Action Unit) :=
  [.submit () none] ++ List.replicate 3 (.move 1 (.run 0 (.ok "None"))) ++
    List.replicate checks (.move 0 (.run 0 (.ok "None"))) ++ [.cancel (taskId 0 0)] ++
    List.replicate (5 - checks) (.move 0 (.run 0 (.ok "None")))

theorem cancelledAfter_receive_final :
    Along step NoWrap (start 1 1) (cancelledAfter 1) ∧
      ((Always step Sound (start 1 1) (cancelledAfter 1) ∧
        Along step FinalKept (start 1 1) (cancelledAfter 1)) ↔
        Along step InTime (start 1 1) (cancelledAfter 1)) :=
  ⟨by decide, cancellation_final_iff_inTime 1 1 _ (by decide)⟩

theorem cancelledAfter_check_called :
    Along step NoWrap (start 1 1) (cancelledAfter 2) ∧
      ¬ (Always step Sound (start 1 1) (cancelledAfter 2) ∧
        Along step FinalKept (start 1 1) (cancelledAfter 2)) := by
  refine ⟨by decide, ?_⟩
  rintro ⟨h, -⟩
  have hexec : (exec step (start 1 1) (cancelledAfter 2)).map
      (fun c => (c.shared.cancelled, c.shared.calls.map (·.id))) =
      some ([taskId 0 0], [taskId 0 0]) := by decide
  obtain ⟨c, hexec, heq⟩ := Option.map_eq_some_iff.mp hexec
  obtain ⟨hcancelled, hcalls⟩ := Prod.mk.inj heq
  have hsound := (h.final hexec).cancelled (taskId 0 0) (hcancelled ▸ List.mem_singleton_self _)
  have hcalled : taskId 0 0 ∈ c.shared.calls.map (·.id) := by
    rw [hcalls]
    exact List.mem_singleton_self _
  exact hsound.2 hcalled

end Pool

end Hypern.Tasks
