import Hypern.Lib.Lock
import Hypern.Tasks.Executor

/-! Submissions under the interpreter lock: a thread of Python code calls `submit` again and
again, and a worker takes the lock before it calls a handler. When can all of them wait for each
other? -/

namespace Hypern.Tasks

open Lib

/-- The executor and the number of the thread that holds the interpreter lock. -/
structure Interp (Py : Type) where
  executor : Executor Py
  gil : Option Nat

/-- The caller, with the submissions it has yet to make and the one it is at; a worker; a worker
that holds the lock to call its handler. -/
inductive Party (Py : Type)
  | caller (left : List (Py × Option Py)) (call : Option (SubmitAt Py))
  | worker (pc : WorkerAt Py)
  | attached (task : BackgroundTask Py)

/-- `switch` releases the lock or acquires it. -/
inductive Turn
  | switch
  | run (choice : Choice)

variable {Py : Type}

/-- Python code may give up the lock between two calls of `submit`, never within one. -/
def Party.next (i : Nat) (g : Interp Py) : Party Py → Turn → Option (Interp Py × Party Py)
  | .caller left none, .switch =>
    if g.gil = some i then some ({ g with gil := none }, .caller left none)
    else if g.gil = none then some ({ g with gil := some i }, .caller left none)
    else none
  | .caller ((handler, args) :: left) none, .run _ =>
    if g.gil = some i then some (g, .caller left (some (.called handler args))) else none
  | .caller left (some (.returned _)), .run _ => some (g, .caller left none)
  | .caller left (some pc), .run choice =>
    (pc.next g.executor choice).map fun r => ({ g with executor := r.1 }, .caller left (some r.2))
  | .worker (.marked task), .switch =>
    if g.gil = none then some ({ g with gil := some i }, .attached task) else none
  | .worker (.marked _), .run _ => none
  | .worker pc, .run choice =>
    (pc.next g.executor choice).map fun r => ({ g with executor := r.1 }, .worker r.2)
  | .attached task, .run choice =>
    ((WorkerAt.marked task).next g.executor choice).map fun r => (⟨r.1, none⟩, .worker r.2)
  | _, _ => none

namespace Party

def isCaller : Party Py → Bool
  | .caller _ _ => true
  | _ => false

/-- In a state that only a thread with the lock is in. -/
def isLocked : Party Py → Bool
  | .caller _ (some _) => true
  | .attached _ => true
  | _ => false

/-- In a state that a thread with the lock may be in. -/
def mayLock : Party Py → Bool
  | .worker _ => false
  | _ => true

/-- The tasks a thread has or is yet to submit. -/
def load : Party Py → Nat
  | .caller left none => left.length
  | .caller left (some (.returned _)) => left.length
  | .caller left (some _) => left.length + 1
  | .worker .idle => 0
  | .worker _ => 1
  | .attached _ => 1

end Party

abbrev Session (Py : Type) := Config (Interp Py) (Party Py)

namespace Session

variable {c c' : Session Py} {g g' : Interp Py} {p p' : Party Py} {i : Nat} {turn : Turn}
  {numWorkers queueSize : Nat}

/-- The caller has the lock, the workers are waiting for tasks. -/
def start (numWorkers queueSize : Nat) (submissions : List (Py × Option Py)) : Session Py :=
  ⟨⟨.new numWorkers queueSize, some 0⟩,
    .caller submissions none :: List.replicate numWorkers (.worker .idle)⟩

def step (c : Session Py) (a : Nat × Turn) : Option (Session Py) :=
  stepThread Party.next c a.1 a.2

/-- Wherever the threads get to, one of them can go on. -/
def NoDeadlock (numWorkers queueSize : Nat) (submissions : List (Py × Option Py)) : Prop :=
  ∀ c, Reaches step (start numWorkers queueSize submissions) c → ¬ Stuck Party.next c

/-! ## The moves, one by one -/

inductive Move (i : Nat) (g : Interp Py) : Party Py → Turn → Interp Py → Party Py → Prop
  | release {left : List (Py × Option Py)} (h : g.gil = some i) :
      Move i g (.caller left none) .switch { g with gil := none } (.caller left none)
  | acquire {left : List (Py × Option Py)} (h : g.gil = none) :
      Move i g (.caller left none) .switch { g with gil := some i } (.caller left none)
  | call {handler : Py} {args : Option Py} {left : List (Py × Option Py)} {choice : Choice}
      (h : g.gil = some i) : Move i g (.caller ((handler, args) :: left) none) (.run choice) g
        (.caller left (some (.called handler args)))
  | ret {left : List (Py × Option Py)} {result : Except String String} {choice : Choice} :
      Move i g (.caller left (some (.returned result))) (.run choice) g (.caller left none)
  | submit {left : List (Py × Option Py)} {pc pc' : SubmitAt Py} {choice : Choice}
      {e : Executor Py} (h : SubmitMove g.executor pc choice e pc') :
      Move i g (.caller left (some pc)) (.run choice) { g with executor := e }
        (.caller left (some pc'))
  | attach {task : BackgroundTask Py} (h : g.gil = none) :
      Move i g (.worker (.marked task)) .switch { g with gil := some i } (.attached task)
  | work {pc pc' : WorkerAt Py} {choice : Choice} {e : Executor Py}
      (h : WorkerMove g.executor pc choice e pc') :
      Move i g (.worker pc) (.run choice) { g with executor := e } (.worker pc')
  | execute {task : BackgroundTask Py} {choice : Choice} {e : Executor Py} {pc' : WorkerAt Py}
      (h : WorkerMove g.executor (.marked task) choice e pc') :
      Move i g (.attached task) (.run choice) ⟨e, none⟩ (.worker pc')

theorem Move.of_next (h : p.next i g turn = some (g', p')) : Move i g p turn g' p' := by
  unfold Party.next at h
  split at h
  · split_ifs at h with hmine hfree
    · cases h
      exact .release hmine
    · cases h
      exact .acquire hfree
  · split_ifs at h with hmine
    cases h
    exact .call hmine
  · cases h
    exact .ret
  · obtain ⟨⟨e, pc'⟩, hnext, heq⟩ := Option.map_eq_some_iff.mp h
    cases heq
    exact .submit (.of_next hnext)
  · split_ifs at h with hfree
    cases h
    exact .attach hfree
  · cases h
  · obtain ⟨⟨e, pc'⟩, hnext, heq⟩ := Option.map_eq_some_iff.mp h
    cases heq
    exact .work (.of_next hnext)
  · obtain ⟨⟨e, pc'⟩, hnext, heq⟩ := Option.map_eq_some_iff.mp h
    cases heq
    exact .execute (.of_next hnext)
  · cases h

/-! ## Who has the lock, and how many tasks there are -/

structure Inv (numWorkers queueSize total : Nat) (c : Session Py) : Prop where
  size : c.threads.length = numWorkers + 1
  numWorkers : c.shared.executor.numWorkers = numWorkers
  queueSize : c.shared.executor.queueSize = queueSize
  caller : ∀ (i : Nat) p, c.threads[i]? = some p → (p.isCaller = true ↔ i = 0)
  lock : LockInv Party.isLocked Party.mayLock c.shared.gil c.threads
  load : c.shared.executor.queue.length + (c.threads.map Party.load).sum ≤ total

/-- What a move does to the roles, the lock and the tasks. -/
structure Keeps (i : Nat) (g : Interp Py) (p : Party Py) (g' : Interp Py) (p' : Party Py) : Prop where
  numWorkers : g'.executor.numWorkers = g.executor.numWorkers
  queueSize : g'.executor.queueSize = g.executor.queueSize
  caller : p'.isCaller = p.isCaller
  lock : LockMove Party.isLocked Party.mayLock i g.gil g'.gil p'
  load : g'.executor.queue.length + p'.load ≤ g.executor.queue.length + p.load

theorem SubmitMove.keeps {e e' : Executor Py} {pc pc' : SubmitAt Py} {choice : Choice}
    (h : SubmitMove e pc choice e' pc') (left : List (Py × Option Py)) :
    e'.numWorkers = e.numWorkers ∧ e'.queueSize = e.queueSize ∧
      e'.queue.length + (Party.caller left (some pc')).load ≤
        e.queue.length + (Party.caller left (some pc)).load := by
  cases h with
  | create => exact ⟨rfl, rfl, Nat.le_refl _⟩
  | insert => exact ⟨rfl, rfl, Nat.le_refl _⟩
  | refuse _ => exact ⟨rfl, rfl, Nat.le_succ _⟩
  | send _ _ =>
    refine ⟨rfl, rfl, ?_⟩
    simp only [List.length_append, List.length_singleton, Party.load]
    omega

theorem WorkerMove.keeps {e e' : Executor Py} {pc pc' : WorkerAt Py} {choice : Choice}
    (h : WorkerMove e pc choice e' pc') :
    e'.numWorkers = e.numWorkers ∧ e'.queueSize = e.queueSize ∧
      e'.queue.length + (Party.worker pc').load ≤ e.queue.length + (Party.worker pc).load := by
  cases h with
  | receive hqueue =>
    refine ⟨rfl, rfl, ?_⟩
    rw [hqueue]
    exact Nat.le_refl _
  | skip _ => exact ⟨rfl, rfl, Nat.le_succ _⟩
  | record => exact ⟨rfl, rfl, Nat.le_succ _⟩
  | timeOut | check _ | delay | mark | execute => exact ⟨rfl, rfl, Nat.le_refl _⟩

theorem Move.keeps (h : Move i g p turn g' p') (hmust : p.isLocked = true → g.gil = some i)
    (hmay : g.gil = some i → p.mayLock = true) : Keeps i g p g' p' := by
  cases h with
  | release hmine => exact ⟨rfl, rfl, rfl, .release hmine rfl, Nat.le_refl _⟩
  | acquire hfree => exact ⟨rfl, rfl, rfl, .acquire hfree rfl, Nat.le_refl _⟩
  | call hmine => exact ⟨rfl, rfl, rfl, .keep (fun _ => hmine) fun _ => rfl, Nat.le_refl _⟩
  | ret => exact ⟨rfl, rfl, rfl, .keep nofun fun _ => rfl, Nat.le_refl _⟩
  | @submit left pc pc' choice e hmove =>
    obtain ⟨hworkers, hsize, hload⟩ := SubmitMove.keeps hmove left
    exact ⟨hworkers, hsize, rfl, .keep (fun _ => hmust rfl) fun _ => rfl, hload⟩
  | attach hfree => exact ⟨rfl, rfl, rfl, .acquire hfree rfl, Nat.le_refl _⟩
  | work hmove =>
    obtain ⟨hworkers, hsize, hload⟩ := WorkerMove.keeps hmove
    exact ⟨hworkers, hsize, rfl, .keep nofun hmay, hload⟩
  | execute hmove =>
    obtain ⟨hworkers, hsize, hload⟩ := WorkerMove.keeps hmove
    exact ⟨hworkers, hsize, rfl, .release (hmust rfl) rfl, hload⟩

variable {total : Nat}

theorem inv_step {a : Nat × Turn} (h : Inv numWorkers queueSize total c) (hstep : step c a = some c') :
    Inv numWorkers queueSize total c' := by
  obtain ⟨i, turn⟩ := a
  change stepThread Party.next c i turn = some c' at hstep
  obtain ⟨p, g', p', hp, hnext, rfl⟩ := stepThread_eq_some.mp hstep
  have hkeeps := (Move.of_next hnext).keeps (h.lock.must i p hp) (h.lock.may_of_eq hp)
  refine ⟨?_, ?_, ?_, ?_, h.lock.move hp hkeeps.lock, ?_⟩
  · rw [List.length_set]
    exact h.size
  · exact hkeeps.numWorkers.trans h.numWorkers
  · exact hkeeps.queueSize.trans h.queueSize
  · refine forall_getElem?_set h.caller ?_
    rw [hkeeps.caller]
    exact h.caller i p hp
  · have hsum := sum_map_set_add Party.load hp p'
    have hload := hkeeps.load
    have hbefore := h.load
    change g'.executor.queue.length + ((c.threads.set i p').map Party.load).sum ≤ total
    omega

theorem inv_start (numWorkers queueSize : Nat) (submissions : List (Py × Option Py)) :
    Inv numWorkers queueSize submissions.length (start numWorkers queueSize submissions) := by
  refine ⟨?_, rfl, rfl, fun i p hp => ?_, ⟨fun i p hp hlocked => ?_, fun i hi => ?_⟩, ?_⟩
  · exact congrArg (· + 1) List.length_replicate
  · cases i with
    | zero =>
      cases hp
      exact iff_of_true rfl rfl
    | succ i =>
      obtain rfl := List.eq_of_mem_replicate (List.mem_of_getElem? hp)
      exact iff_of_false nofun nofun
  · cases i with
    | zero => rfl
    | succ i =>
      obtain rfl := List.eq_of_mem_replicate (List.mem_of_getElem? hp)
      cases hlocked
  · cases hi
    exact ⟨_, rfl, rfl⟩
  · change 0 + ((Party.caller submissions none :: List.replicate numWorkers (.worker .idle)).map
      Party.load).sum ≤ _
    rw [List.map_cons, List.map_replicate, List.sum_cons]
    simp [Party.load]

/-! ## Progress -/

/-- Wherever a worker is, it can go on, unless it waits for the lock. -/
theorem worker_moves (i : Nat) (g : Interp Py) (pc : WorkerAt Py) (hpc : ∀ task, pc ≠ .marked task) :
    ∃ turn r, (Party.worker pc).next i g turn = some r := by
  cases pc with
  | idle => exact ⟨.run .timeout, _, rfl⟩
  | received task => exact ⟨.run (.run 0 (.ok "")), _, rfl⟩
  | checked task => exact ⟨.run (.run 0 (.ok "")), _, rfl⟩
  | delayed task => exact ⟨.run (.run 0 (.ok "")), _, rfl⟩
  | marked task => exact absurd rfl (hpc task)
  | executed task outcome => exact ⟨.run (.run 0 (.ok "")), _, rfl⟩

/-- The caller with the lock can go on, unless it waits for room in the queue. -/
theorem caller_moves (i : Nat) {g : Interp Py} (hgil : g.gil = some i)
    (left : List (Py × Option Py)) (call : Option (SubmitAt Py))
    (hroom : ∀ task, call = some (.inserted task) → g.executor.hasRoom) :
    ∃ turn r, (Party.caller left call).next i g turn = some r := by
  match call with
  | none => exact ⟨.switch, _, if_pos hgil⟩
  | some (.called _ _) => exact ⟨.run (.run 0 (.ok "")), _, rfl⟩
  | some (.created _) => exact ⟨.run (.run 0 (.ok "")), _, rfl⟩
  | some (.returned _) => exact ⟨.run (.run 0 (.ok "")), _, rfl⟩
  | some (.inserted task) =>
    have hroom := hroom task rfl
    refine ⟨.run (.run 0 (.ok "")), ?_⟩
    by_cases hworkers : g.executor.numWorkers = 0
    · simp only [Party.next, SubmitAt.next, if_pos hworkers]
      exact ⟨_, rfl⟩
    · simp only [Party.next, SubmitAt.next, if_neg hworkers, if_pos hroom]
      exact ⟨_, rfl⟩

theorem sum_load_marked {workers : List (Party Py)}
    (h : ∀ p ∈ workers, ∃ task, p = .worker (.marked task)) :
    (workers.map Party.load).sum = workers.length := by
  induction workers with
  | nil => rfl
  | cons p workers ih =>
    rw [List.forall_mem_cons] at h
    obtain ⟨⟨task, rfl⟩, hrest⟩ := h
    rw [List.map_cons, List.sum_cons, ih hrest, List.length_cons, Nat.add_comm]
    rfl

/-- A worker that cannot go on while the caller has the lock waits for the lock. -/
theorem marked_of_blocked (h : Inv numWorkers queueSize total c) (hgil : c.shared.gil = some 0)
    (hp : c.threads[i + 1]? = some p)
    (hblocked : ¬ ∃ turn r, p.next (i + 1) c.shared turn = some r) :
    ∃ task, p = .worker (.marked task) := by
  cases p with
  | caller left call => cases (h.caller _ _ hp).mp rfl
  | attached task =>
    have hmine := h.lock.must _ _ hp rfl
    rw [hgil] at hmine
    cases hmine
  | worker pc =>
    by_contra hnot
    refine hblocked (worker_moves (i + 1) c.shared pc fun task heq => hnot ⟨task, ?_⟩)
    rw [heq]

/-- If all threads wait, there are more tasks than workers and places in the queue. -/
theorem total_of_stuck (h : Inv numWorkers queueSize total c) (hstuck : Stuck Party.next c) :
    numWorkers + queueSize < total := by
  have hblocked : ∀ (i : Nat) p, c.threads[i]? = some p →
      ¬ ∃ turn r, p.next i c.shared turn = some r := fun _ _ => hstuck.no_move
  obtain ⟨p, workers, hthreads⟩ := List.exists_cons_of_length_eq_add_one h.size
  have hp : c.threads[0]? = some p := by rw [hthreads]; rfl
  have hworkers : workers.length = numWorkers := by
    have hsize := h.size
    rw [hthreads] at hsize
    exact Nat.succ.inj hsize
  cases p with
  | worker pc => cases (h.caller 0 _ hp).mpr rfl
  | attached task => cases (h.caller 0 _ hp).mpr rfl
  | caller left call =>
    cases hgil : c.shared.gil with
    | none =>
      -- the caller can take the lock
      cases call with
      | none =>
        have hnext : (Party.caller left none).next 0 c.shared .switch = some _ :=
          (if_neg (by rw [hgil]; nofun)).trans (if_pos hgil)
        exact absurd ⟨.switch, _, hnext⟩ (hblocked 0 _ hp)
      | some pc =>
        have hmine := h.lock.must 0 _ hp rfl
        rw [hgil] at hmine
        cases hmine
    | some j =>
      by_cases hj : j = 0
      · -- it has the lock and waits for room, and the workers for the lock
        subst hj
        have hfull : ∃ task, call = some (.inserted task) ∧ ¬ c.shared.executor.hasRoom := by
          by_contra hnone
          refine hblocked 0 _ hp (caller_moves 0 hgil left call fun task heq => ?_)
          by_contra hroom
          exact hnone ⟨task, heq, hroom⟩
        obtain ⟨task, rfl, hroom⟩ := hfull
        have hmarked : ∀ q ∈ workers, ∃ task, q = .worker (.marked task) := by
          intro q hq
          obtain ⟨i, hi⟩ := List.mem_iff_getElem?.mp hq
          have hq : c.threads[i + 1]? = some q := by rw [hthreads]; exact hi
          exact marked_of_blocked h hgil hq (hblocked _ _ hq)
        have hload := h.load
        rw [hthreads, List.map_cons, List.sum_cons, sum_load_marked hmarked, hworkers] at hload
        unfold Executor.hasRoom at hroom
        rw [h.queueSize] at hroom
        simp only [Party.load] at hload
        omega
      · -- a worker that has the lock calls its handler
        obtain ⟨q, hq, hmay⟩ := h.lock.may j hgil
        cases q with
        | worker pc => cases hmay
        | caller left' call' => exact absurd ((h.caller j _ hq).mp rfl) hj
        | attached task => exact absurd ⟨.run (.run 0 (.ok "")), _, rfl⟩ (hblocked j _ hq)

/-! ## The deadlock -/

section Deadlock

variable {e : Executor Py} {x : Py × Option Py} {left : List (Py × Option Py)}

/-- One step of the choices that lead into the deadlock. -/
def goOn : Turn := .run (.run 0 (.ok "None"))

theorem reaches_caller {p p' : Party Py} {rest : List (Party Py)}
    (hnext : p.next 0 g goOn = some (g', p')) (h : Reaches step ⟨g', p' :: rest⟩ c) :
    Reaches step ⟨g, p :: rest⟩ c :=
  .head (a := (0, goOn)) (stepThread_append [] rest hnext) h

theorem reaches_worker {before after : List (Party Py)} {p p' : Party Py}
    (hnext : p.next before.length g goOn = some (g', p'))
    (h : Reaches step ⟨g', before ++ p' :: after⟩ c) :
    Reaches step ⟨g, before ++ p :: after⟩ c :=
  .head (a := (before.length, goOn)) (stepThread_append before after hnext) h

/-- The executor when the next submission is about to be sent. -/
def inserted (e : Executor Py) (x : Py × Option Py) : Executor Py :=
  Executor.insertPending { e with counter := e.counter + 1 } (e.newTask 0 x.1 x.2).id

def submitted (e : Executor Py) (x : Py × Option Py) : Executor Py :=
  { inserted e x with queue := e.queue ++ [e.newTask 0 x.1 x.2] }

@[simp] theorem queue_inserted (x : Py × Option Py) : (inserted e x).queue = e.queue :=
  Executor.queue_insertPending ..

@[simp] theorem numWorkers_inserted (x : Py × Option Py) :
    (inserted e x).numWorkers = e.numWorkers :=
  Executor.numWorkers_insertPending ..

@[simp] theorem queueSize_inserted (x : Py × Option Py) :
    (inserted e x).queueSize = e.queueSize :=
  Executor.queueSize_insertPending ..

@[simp] theorem length_queue_submitted (x : Py × Option Py) :
    (submitted e x).queue.length = e.queue.length + 1 :=
  List.length_append

@[simp] theorem numWorkers_submitted (x : Py × Option Py) :
    (submitted e x).numWorkers = e.numWorkers :=
  numWorkers_inserted x

@[simp] theorem queueSize_submitted (x : Py × Option Py) :
    (submitted e x).queueSize = e.queueSize :=
  queueSize_inserted x

theorem reaches_inserted (e : Executor Py) (x : Py × Option Py) (left : List (Py × Option Py))
    (rest : List (Party Py)) :
    Reaches step ⟨⟨e, some 0⟩, .caller (x :: left) none :: rest⟩
      ⟨⟨inserted e x, some 0⟩, .caller left (some (.inserted (e.newTask 0 x.1 x.2))) :: rest⟩ := by
  obtain ⟨handler, args⟩ := x
  refine reaches_caller rfl ?_
  refine reaches_caller rfl ?_
  exact reaches_caller rfl (.refl _)

theorem reaches_submitted (hworkers : e.numWorkers ≠ 0) (hroom : e.hasRoom) (x : Py × Option Py)
    (left : List (Py × Option Py)) (rest : List (Party Py)) :
    Reaches step ⟨⟨e, some 0⟩, .caller (x :: left) none :: rest⟩
      ⟨⟨submitted e x, some 0⟩, .caller left none :: rest⟩ := by
  have hsend : (SubmitAt.inserted (e.newTask 0 x.1 x.2)).next (inserted e x) (.run 0 (.ok "None")) =
      some (submitted e x, .returned (.ok (e.newTask 0 x.1 x.2).id)) :=
    (if_neg hworkers).trans (if_pos hroom)
  have hnext : (Party.caller left (some (.inserted (e.newTask 0 x.1 x.2)))).next 0
      ⟨inserted e x, some 0⟩ goOn = some (⟨submitted e x, some 0⟩,
        .caller left (some (.returned (.ok (e.newTask 0 x.1 x.2).id)))) := by
    simp only [Party.next, goOn, hsend]
    rfl
  refine (reaches_inserted e x left rest).trans ?_
  refine reaches_caller hnext ?_
  exact reaches_caller rfl (.refl _)

/-- A worker takes the only task of the queue up to the point where it needs the lock. -/
theorem reaches_marked (hqueue : e.queue = []) (x : Py × Option Py)
    (before after : List (Party Py)) :
    Reaches step ⟨⟨submitted e x, some 0⟩, before ++ .worker .idle :: after⟩
      ⟨⟨(inserted e x).markRunning (e.newTask 0 x.1 x.2).id 0, some 0⟩,
        before ++ .worker (.marked (e.newTask 0 x.1 x.2)) :: after⟩ := by
  have hpending : (inserted e x).status (e.newTask 0 x.1 x.2).id ≠ some .cancelled := by
    unfold inserted
    rw [Executor.status_insertPending, if_pos rfl]
    nofun
  have hreceive : (Party.worker .idle).next before.length ⟨submitted e x, some 0⟩ goOn =
      some (⟨inserted e x, some 0⟩, .worker (.received (e.newTask 0 x.1 x.2))) := by
    simp only [Party.next, WorkerAt.next, goOn, submitted, inserted, Executor.insertPending, hqueue,
      List.nil_append, Option.map_some]
  have hcheck : (Party.worker (.received (e.newTask 0 x.1 x.2))).next before.length
      ⟨inserted e x, some 0⟩ goOn =
      some (⟨inserted e x, some 0⟩, .worker (.checked (e.newTask 0 x.1 x.2))) := by
    simp only [Party.next, WorkerAt.next, goOn, if_neg hpending, Option.map_some]
  refine reaches_worker hreceive ?_
  refine reaches_worker hcheck ?_
  refine reaches_worker rfl ?_
  exact reaches_worker rfl (.refl _)

/-- The caller with the lock, the workers that wait for it with a task each, and the idle ones. -/
def stalled (e : Executor Py) (left : List (Py × Option Py)) (marked : List (BackgroundTask Py))
    (idle : Nat) : Session Py :=
  ⟨⟨e, some 0⟩, .caller left none ::
    (marked.map (fun task => .worker (.marked task)) ++ List.replicate idle (.worker .idle))⟩

/-- One more worker waits for the lock. -/
theorem reaches_stalled_succ (hqueue : e.queue = []) (hworkers : e.numWorkers ≠ 0)
    (x : Py × Option Py) (left : List (Py × Option Py)) (marked : List (BackgroundTask Py))
    (idle : Nat) :
    ∃ e' marked', Reaches step (stalled e (x :: left) marked (idle + 1))
        (stalled e' left marked' idle) ∧
      e'.queue = [] ∧ e'.numWorkers = e.numWorkers ∧ e'.queueSize = e.queueSize := by
  have hroom : e.hasRoom := by
    unfold Executor.hasRoom
    rw [hqueue]
    exact Nat.lt_of_lt_of_le Nat.one_pos (Nat.le_max_right _ _)
  have hmarked := reaches_marked hqueue x
    (.caller left none :: marked.map (fun task => .worker (.marked task)))
    (List.replicate idle (.worker .idle))
  refine ⟨(inserted e x).markRunning (e.newTask 0 x.1 x.2).id 0, marked ++ [e.newTask 0 x.1 x.2],
    (reaches_submitted hworkers hroom x left _).trans ?_, ?_, ?_, ?_⟩
  · unfold stalled
    rw [List.map_append, List.append_assoc]
    exact hmarked
  · rw [Executor.queue_markRunning, queue_inserted, hqueue]
  · rw [Executor.numWorkers_markRunning, numWorkers_inserted]
  · rw [Executor.queueSize_markRunning, queueSize_inserted]

theorem reaches_all_marked (idle : Nat) (left : List (Py × Option Py)) (hleft : idle ≤ left.length)
    (hqueue : e.queue = []) (hworkers : e.numWorkers ≠ 0) (marked : List (BackgroundTask Py)) :
    ∃ e' left' marked', Reaches step (stalled e left marked idle) (stalled e' left' marked' 0) ∧
      e'.queue = [] ∧ e'.numWorkers = e.numWorkers ∧ e'.queueSize = e.queueSize ∧
      left'.length + idle = left.length := by
  induction idle generalizing e left marked with
  | zero => exact ⟨e, left, marked, .refl _, hqueue, rfl, rfl, rfl⟩
  | succ idle ih =>
    cases left with
    | nil => cases hleft
    | cons x left =>
      obtain ⟨e₁, marked₁, hfirst, hqueue₁, hworkers₁, hsize₁⟩ :=
        reaches_stalled_succ hqueue hworkers x left marked idle
      obtain ⟨e', left', marked', hreach, hqueue', hworkers', hsize', hlength⟩ :=
        ih left (Nat.le_of_succ_le_succ hleft) hqueue₁ (hworkers₁ ▸ hworkers) marked₁
      refine ⟨e', left', marked', hfirst.trans hreach, hqueue', hworkers'.trans hworkers₁,
        hsize'.trans hsize₁, ?_⟩
      rw [List.length_cons]
      omega

/-- Once no worker takes tasks any more, the queue fills. -/
theorem reaches_full (room : Nat) (left : List (Py × Option Py)) (hleft : room ≤ left.length)
    (hroom : e.queue.length + room = max e.queueSize 1) (hworkers : e.numWorkers ≠ 0)
    (marked : List (BackgroundTask Py)) :
    ∃ e' left', Reaches step (stalled e left marked 0) (stalled e' left' marked 0) ∧
      ¬ e'.hasRoom ∧ e'.numWorkers ≠ 0 ∧ left'.length + room = left.length := by
  induction room generalizing e left with
  | zero =>
    refine ⟨e, left, .refl _, ?_, hworkers, rfl⟩
    unfold Executor.hasRoom
    omega
  | succ room ih =>
    cases left with
    | nil => cases hleft
    | cons x left =>
      have hnow : e.hasRoom := by
        unfold Executor.hasRoom
        omega
      have hfirst : Reaches step (stalled e (x :: left) marked 0)
          (stalled (submitted e x) left marked 0) := reaches_submitted hworkers hnow x left _
      have hnext : (submitted e x).queue.length + room = max (submitted e x).queueSize 1 := by
        rw [length_queue_submitted, queueSize_submitted]
        omega
      have hworkers₁ : (submitted e x).numWorkers ≠ 0 := by
        rw [numWorkers_submitted]
        exact hworkers
      obtain ⟨e', left', hreach, hfull, hworkers', hlength⟩ :=
        ih left (Nat.le_of_succ_le_succ hleft) hnext hworkers₁
      refine ⟨e', left', hfirst.trans hreach, hfull, hworkers', ?_⟩
      rw [List.length_cons]
      omega

/-- The caller waits for room while it has the lock, and every worker waits for the lock. -/
theorem stuck_of_full (hfull : ¬ e.hasRoom) (hworkers : e.numWorkers ≠ 0)
    (task : BackgroundTask Py) (left : List (Py × Option Py)) (marked : List (BackgroundTask Py)) :
    Stuck Party.next ⟨⟨e, some 0⟩, .caller left (some (.inserted task)) ::
      (marked.map (fun task => Party.worker (.marked task)))⟩ := by
  refine stuck_iff.mpr fun i p hp turn => ?_
  rcases List.mem_cons.mp (List.mem_of_getElem? hp) with rfl | hmem
  · cases turn with
    | switch => rfl
    | run choice =>
      cases choice with
      | timeout => rfl
      | run now outcome =>
        simp only [Party.next, SubmitAt.next, if_neg hworkers, if_neg hfull, Option.map_none]
  · obtain ⟨other, -, rfl⟩ := List.mem_map.mp hmem
    cases turn with
    | switch => rfl
    | run choice => rfl

theorem not_noDeadlock_of_lt (hworkers : 1 ≤ numWorkers) (hsize : 1 ≤ queueSize)
    {submissions : List (Py × Option Py)} (h : numWorkers + queueSize < submissions.length) :
    ¬ NoDeadlock numWorkers queueSize submissions := by
  intro hnone
  have hstart : (Executor.new numWorkers queueSize : Executor Py).numWorkers ≠ 0 :=
    Nat.pos_iff_ne_zero.mp hworkers
  obtain ⟨e, left, marked, hmarked, hqueue, hnum, hbound, hlength⟩ :=
    reaches_all_marked numWorkers submissions (by omega) rfl hstart []
  have hroom : e.queue.length + queueSize = max e.queueSize 1 := by
    rw [hqueue, hbound]
    change 0 + queueSize = max queueSize 1
    omega
  obtain ⟨e', left', hfilled, hfull, hnum', hlength'⟩ :=
    reaches_full queueSize left (by omega) hroom (hnum ▸ hstart) marked
  cases left' with
  | nil =>
    rw [List.length_nil] at hlength'
    omega
  | cons x left' =>
    have hlast := reaches_inserted e' x left' (marked.map fun task => .worker (.marked task))
    refine hnone _ ((hmarked.trans hfilled).trans ?_)
      (stuck_of_full (e := inserted e' x) hfull hnum' (e'.newTask 0 x.1 x.2) left' marked)
    unfold stalled
    rw [List.replicate_zero, List.append_nil]
    exact hlast

end Deadlock

theorem noDeadlock_iff_length_le (hworkers : 1 ≤ numWorkers) (hsize : 1 ≤ queueSize)
    (submissions : List (Py × Option Py)) :
    NoDeadlock numWorkers queueSize submissions ↔
      submissions.length ≤ numWorkers + queueSize := by
  constructor
  · intro h
    by_contra hlt
    exact not_noDeadlock_of_lt hworkers hsize (Nat.lt_of_not_le hlt) h
  · intro hle c hreach hstuck
    have hinv := hreach.invariant (fun _ _ _ => inv_step)
      (inv_start numWorkers queueSize submissions)
    exact absurd (total_of_stuck hinv hstuck) (Nat.not_lt_of_le hle)

theorem noDeadlock_two_submissions :
    1 ≤ 1 ∧ (NoDeadlock 1 1 (List.replicate 2 ((), (none : Option Unit))) ↔
      (List.replicate 2 ((), (none : Option Unit))).length ≤ 1 + 1) :=
  ⟨by decide, noDeadlock_iff_length_le (by decide) (by decide) _⟩

/-- One task at the worker, one in the queue, and a third to be sent. -/
theorem deadlock_three_submissions : ¬ NoDeadlock 1 1 (List.replicate 3 ((), (none : Option Unit))) :=
  not_noDeadlock_of_lt (by decide) (by decide) (by decide)

end Session

end Hypern.Tasks
