import Hypern.Lib.Run

/-! The parent process of `Server::start`: its loop over the reload and shutdown flags, the
branches that leave the loop, and the workers it spawns, signals and waits for. Signals arrive,
workers exit and the limit of `wait_for_workers` expires at any point. -/

namespace Hypern.Reload

open Lib

inductive Signal
  | int | term | usr1 | usr2 | kill
  deriving DecidableEq

/-- The signals that end a worker. -/
def Signal.ends : Signal → Bool
  | .term => true
  | .kill => true
  | _ => false

/-- What the parent does to its workers and learns of them. A worker is spawned before the loop
or by a reload. -/
inductive Event
  | spawned (pid : Nat) (byReload : Bool)
  | received (sig : Signal)
  | exited (pid : Nat)
  | sent (sig : Signal) (pid : Nat)
  deriving DecidableEq

/-- The statements of the loop (`again` is the sleep at its end) and of its branches. -/
inductive Instr
  | checkGraceful | checkHot | checkShutdown | poll | again
  | sleep
  | kill (sig : Signal) (pid : Nat)
  | startTimer
  | wait (pid : Nat)
  | reap (pid : Nat)
  | bindSocket
  | fork (left : Nat)
  | awaitNew
  deriving DecidableEq

def loop : List Instr := [.checkGraceful, .checkHot, .checkShutdown, .poll, .again]

def terminateWorkers (pids : List Nat) : List Instr := pids.map (.kill .term)

def waitForWorkers (pids : List Nat) : List Instr := .startTimer :: pids.map .wait

/-- New workers are spawned and waited for; after the `break` the old ones are waited for. -/
def respawn (numProcesses : Nat) (pids : List Nat) : List Instr :=
  [.bindSocket, .fork numProcesses, .awaitNew] ++ waitForWorkers pids

def gracefulReload (numProcesses : Nat) (pids : List Nat) : List Instr :=
  pids.map (.kill .usr1) ++ [.sleep] ++ terminateWorkers pids ++ waitForWorkers pids ++
    respawn numProcesses pids

def hotReload (numProcesses : Nat) (pids : List Nat) : List Instr :=
  pids.map (.kill .kill) ++ waitForWorkers pids ++ respawn numProcesses pids

def shutDown (pids : List Nat) : List Instr :=
  pids.map (.kill .usr1) ++ [.sleep] ++ terminateWorkers pids ++ waitForWorkers pids

def workerExited (pids : List Nat) : List Instr := terminateWorkers pids ++ waitForWorkers pids

/-- `todo` is the rest of the parent's program and `log` its history, the latest event first. Of
its children, `running` are alive and `zombies` have exited without having been waited for. -/
structure Parent where
  numProcesses : Nat
  pids : List Nat
  newPids : List Nat
  graceful : Bool
  hot : Bool
  shutdown : Bool
  expired : Bool
  running : List Nat
  zombies : List Nat
  nextPid : Nat
  todo : List Instr
  log : List Event
  deriving DecidableEq

/-- How a statement ends: `failed` when the socket cannot be bound or the fork fails, `child pid`
when `waitpid(-1)` returns `pid`. -/
inductive Outcome
  | done | failed
  | child (pid : Nat)
  deriving DecidableEq

inductive Parent.Action
  | arrive (sig : Signal)
  | exit (pid : Nat)
  | expire
  | run (outcome : Outcome)
  deriving DecidableEq

namespace Parent

/-- The parent when it enters its loop: the first workers are spawned, no flag is set. -/
def start (numProcesses : Nat) : Parent where
  numProcesses := numProcesses
  pids := List.range numProcesses
  newPids := []
  graceful := false
  hot := false
  shutdown := false
  expired := false
  running := List.range numProcesses
  zombies := []
  nextPid := numProcesses
  todo := loop
  log := ((List.range numProcesses).map (.spawned · false)).reverse

def handleSignal (p : Parent) (sig : Signal) : Parent :=
  match sig with
  | .usr1 => { p with graceful := true, log := .received sig :: p.log }
  | .usr2 => { p with hot := true, log := .received sig :: p.log }
  | _ => { p with shutdown := true, log := .received sig :: p.log }

def reaped (p : Parent) (pid : Nat) : Parent :=
  { p with zombies := p.zombies.erase pid, log := .exited pid :: p.log }

def goto (p : Parent) (todo : List Instr) : Parent := { p with todo := todo }

def runInstr (p : Parent) (rest : List Instr) : Instr → Outcome → Option Parent
  | .checkGraceful, .done =>
    if p.graceful then
      some { p with graceful := false, todo := gracefulReload p.numProcesses p.pids }
    else some (p.goto rest)
  | .checkHot, .done =>
    if p.hot then some { p with hot := false, todo := hotReload p.numProcesses p.pids }
    else some (p.goto rest)
  | .checkShutdown, .done => some (p.goto (if p.shutdown then shutDown p.pids else rest))
  | .poll, .done => if p.zombies = [] then some (p.goto rest) else none
  | .poll, .child pid =>
    if pid ∈ p.zombies then some ((p.reaped pid).goto (workerExited p.pids)) else none
  | .again, .done => some (p.goto loop)
  | .sleep, .done => some (p.goto rest)
  | .kill sig pid, .done => some { p with todo := rest, log := .sent sig pid :: p.log }
  | .startTimer, .done => some { p with todo := rest, expired := false }
  | .wait pid, .done =>
    if p.expired then some (p.goto (.kill .kill pid :: .reap pid :: rest))
    else if pid ∈ p.zombies then some ((p.reaped pid).goto rest)
    else if pid ∈ p.running then some p
    else some (p.goto rest)
  | .reap pid, .done =>
    if pid ∈ p.running then none
    else if pid ∈ p.zombies then some ((p.reaped pid).goto rest)
    else some (p.goto rest)
  | .bindSocket, .done => some (p.goto rest)
  | .bindSocket, .failed => some (p.goto [])
  | .fork 0, .done => some (p.goto rest)
  | .fork (left + 1), .done =>
    some { p with newPids := p.newPids ++ [p.nextPid], running := p.nextPid :: p.running,
                  nextPid := p.nextPid + 1, todo := .fork left :: rest,
                  log := .spawned p.nextPid true :: p.log }
  | .fork (_ + 1), .failed => some (p.goto [])
  | .awaitNew, .done => some (p.goto (waitForWorkers p.newPids ++ rest))
  | _, _ => none

def step (p : Parent) : Action → Option Parent
  | .arrive sig => if sig = .kill then none else some (p.handleSignal sig)
  | .exit pid =>
    if pid ∈ p.running then
      some { p with running := p.running.erase pid, zombies := pid :: p.zombies }
    else none
  | .expire => some { p with expired := true }
  | .run outcome =>
    match p.todo with
    | [] => none
    | instr :: rest => p.runInstr rest instr outcome

variable {p p' : Parent} {a : Action} {pid : Nat} {sig : Signal} {e : Event}
  {log : List Event} {instr : Instr} {rest : List Instr} {outcome : Outcome}

/-! ## What the parent must keep to -/

/-- Since the spawn of the worker, a signal was received or a worker was seen to exit. -/
def TriggeredSince (pid : Nat) : List Event → Prop
  | [] => False
  | .spawned other _ :: rest => other ≠ pid ∧ TriggeredSince pid rest
  | .received _ :: _ => True
  | .exited _ :: _ => True
  | .sent _ _ :: rest => TriggeredSince pid rest

/-- No worker was ended without a reason younger than itself. -/
def KillsJustified : List Event → Prop
  | [] => True
  | .sent sig pid :: rest => (sig.ends = true → TriggeredSince pid rest) ∧ KillsJustified rest
  | _ :: rest => KillsJustified rest

/-- The program leads back to the loop, and the worker is one of those the loop looks after
whenever it is there. -/
def Supervised (p : Parent) (pid : Nat) : Prop :=
  .again ∈ p.todo ∧ (p.todo <:+ loop → pid ∈ p.pids)

structure Sound (p : Parent) : Prop where
  kills : KillsJustified p.log
  reloaded : ∀ pid ∈ p.running, .spawned pid true ∈ p.log → p.Supervised pid

/-- No reload gets as far as to fork a worker. -/
def NoRespawn (p : Parent) (a : Action) : Prop :=
  ∀ left rest, a = .run .done → p.todo ≠ .fork (left + 1) :: rest

/-- What one step can do. -/
theorem step_cases (h : step p a = some p') :
    (∃ sig, a = .arrive sig ∧ p' = p.handleSignal sig) ∨
    (∃ pid, a = .exit pid ∧
      p' = { p with running := p.running.erase pid, zombies := pid :: p.zombies }) ∨
    (a = .expire ∧ p' = { p with expired := true }) ∨
    ∃ outcome instr rest, a = .run outcome ∧ p.todo = instr :: rest ∧
      p.runInstr rest instr outcome = some p' := by
  cases a with
  | arrive sig =>
    simp only [step] at h
    split_ifs at h
    cases h
    exact .inl ⟨sig, rfl, rfl⟩
  | exit pid =>
    simp only [step] at h
    split_ifs at h
    cases h
    exact .inr (.inl ⟨pid, rfl, rfl⟩)
  | expire =>
    cases h
    exact .inr (.inr (.inl ⟨rfl, rfl⟩))
  | run outcome =>
    simp only [step] at h
    cases htodo : p.todo with
    | nil =>
      rw [htodo] at h
      cases h
    | cons instr rest =>
      rw [htodo] at h
      exact .inr (.inr (.inr ⟨outcome, instr, rest, rfl, rfl, h⟩))

/-! ## Inside the loop and after it -/

/-- The history once the loop has been left, as long as no reload has forked a worker. -/
structure Ending (log : List Event) : Prop where
  triggered : ∀ pid, TriggeredSince pid log
  kills : KillsJustified log
  initial : ∀ pid, .spawned pid true ∉ log

structure Inv (p : Parent) : Prop where
  control : p.todo <:+ loop ∨ .again ∉ p.todo ∧ Ending p.log
  flags : (p.graceful || p.hot || p.shutdown) = true → Ending p.log
  kills : KillsJustified p.log
  initial : ∀ pid, .spawned pid true ∉ p.log

def Event.IsTrigger : Event → Prop
  | .received _ => True
  | .exited _ => True
  | _ => False

theorem Ending.of_trigger (he : Event.IsTrigger e) (hkills : KillsJustified log)
    (hinitial : ∀ pid, .spawned pid true ∉ log) : Ending (e :: log) := by
  cases e with
  | spawned | sent => exact he.elim
  | received | exited =>
    refine ⟨fun _ => trivial, hkills, fun pid hmem => ?_⟩
    rcases List.mem_cons.mp hmem with heq | hmem
    · cases heq
    · exact hinitial pid hmem

theorem Ending.sent (h : Ending log) (sig : Signal) (pid : Nat) : Ending (.sent sig pid :: log) := by
  refine ⟨h.triggered, ⟨fun _ => h.triggered pid, h.kills⟩, fun other hmem => ?_⟩
  rcases List.mem_cons.mp hmem with heq | hmem
  · cases heq
  · exact h.initial other hmem

theorem Inv.of_ending (hend : Ending p.log) (hagain : .again ∉ p.todo) : Inv p :=
  ⟨.inr ⟨hagain, hend⟩, fun _ => hend, hend.kills, hend.initial⟩

/-- Of the branches that leave the loop none leads back to it. -/
theorem again_notMem_waitForWorkers (pids : List Nat) : .again ∉ waitForWorkers pids := by
  simp [waitForWorkers]

theorem again_notMem_workerExited (pids : List Nat) : .again ∉ workerExited pids := by
  simp [workerExited, terminateWorkers, waitForWorkers]

theorem again_notMem_shutDown (pids : List Nat) : .again ∉ shutDown pids := by
  simp [shutDown, terminateWorkers, waitForWorkers]

theorem again_notMem_hotReload (n : Nat) (pids : List Nat) : .again ∉ hotReload n pids := by
  simp [hotReload, respawn, waitForWorkers]

theorem again_notMem_gracefulReload (n : Nat) (pids : List Nat) :
    .again ∉ gracefulReload n pids := by
  simp [gracefulReload, respawn, terminateWorkers, waitForWorkers]

/-- A statement of the loop leads on, or out of the loop for a reason. -/
theorem inv_loop (h : Inv p) (htodo : instr :: rest <:+ loop)
    (hrun : p.runInstr rest instr outcome = some p') : Inv p' := by
  have hmem : instr ∈ loop := htodo.mem (List.mem_cons_self ..)
  have hrest : rest <:+ loop := (List.suffix_cons instr rest).trans htodo
  have hnext : Inv (p.goto rest) := ⟨.inl hrest, h.flags, h.kills, h.initial⟩
  simp only [loop, List.mem_cons, List.not_mem_nil, or_false] at hmem
  rcases hmem with rfl | rfl | rfl | rfl | rfl <;> cases outcome <;>
    simp only [runInstr, reduceCtorEq] at hrun
  · split_ifs at hrun with hgraceful
    · cases hrun
      have hend : Ending p.log := h.flags (by rw [hgraceful]; rfl)
      exact .of_ending hend (again_notMem_gracefulReload _ _)
    · cases hrun
      exact hnext
  · split_ifs at hrun with hhot
    · cases hrun
      have hend : Ending p.log := h.flags (by rw [hhot, Bool.or_true]; rfl)
      exact .of_ending hend (again_notMem_hotReload _ _)
    · cases hrun
      exact hnext
  · cases hrun
    split_ifs with hshutdown
    · have hend : Ending p.log := h.flags (by rw [hshutdown, Bool.or_true])
      exact .of_ending hend (again_notMem_shutDown _)
    · exact hnext
  · split_ifs at hrun
    cases hrun
    exact hnext
  · split_ifs at hrun
    cases hrun
    exact .of_ending (.of_trigger trivial h.kills h.initial) (again_notMem_workerExited _)
  · cases hrun
    exact ⟨.inl List.suffix_rfl, h.flags, h.kills, h.initial⟩

/-- After the loop, the parent goes on without it. -/
theorem ending_run (hend : Ending p.log) (hagain : .again ∉ instr :: rest)
    (hnofork : ∀ left, outcome = .done → instr ≠ .fork (left + 1))
    (htodo : p.todo = instr :: rest)
    (hrun : p.runInstr rest instr outcome = some p') : Ending p'.log ∧ .again ∉ p'.todo := by
  have hrest : .again ∉ rest := fun hmem => hagain (List.mem_cons_of_mem _ hmem)
  unfold runInstr at hrun
  split at hrun
  · split_ifs at hrun <;> cases hrun
    · exact ⟨hend, again_notMem_gracefulReload _ _⟩
    · exact ⟨hend, hrest⟩
  · split_ifs at hrun <;> cases hrun
    · exact ⟨hend, again_notMem_hotReload _ _⟩
    · exact ⟨hend, hrest⟩
  · cases hrun
    refine ⟨hend, ?_⟩
    change _ ∉ ite _ _ _
    split_ifs
    · exact again_notMem_shutDown _
    · exact hrest
  · split_ifs at hrun
    cases hrun
    exact ⟨hend, hrest⟩
  · split_ifs at hrun
    cases hrun
    exact ⟨.of_trigger trivial hend.kills hend.initial, again_notMem_workerExited _⟩
  -- the loop is not entered again
  · exact absurd (List.mem_cons_self ..) hagain
  · cases hrun
    exact ⟨hend, hrest⟩
  · cases hrun
    exact ⟨hend.sent .., hrest⟩
  · cases hrun
    exact ⟨hend, hrest⟩
  · split_ifs at hrun <;> cases hrun
    · refine ⟨hend, ?_⟩
      simpa [goto] using hrest
    · exact ⟨.of_trigger trivial hend.kills hend.initial, hrest⟩
    · exact ⟨hend, htodo ▸ hagain⟩
    · exact ⟨hend, hrest⟩
  · split_ifs at hrun <;> cases hrun
    · exact ⟨.of_trigger trivial hend.kills hend.initial, hrest⟩
    · exact ⟨hend, hrest⟩
  · cases hrun
    exact ⟨hend, hrest⟩
  · cases hrun
    exact ⟨hend, nofun⟩
  · cases hrun
    exact ⟨hend, hrest⟩
  · exact absurd rfl (hnofork _ rfl)
  · cases hrun
    exact ⟨hend, nofun⟩
  · cases hrun
    refine ⟨hend, fun hmem => ?_⟩
    rcases List.mem_append.mp hmem with hmem | hmem
    · exact again_notMem_waitForWorkers _ hmem
    · exact hrest hmem
  · cases hrun

theorem handleSignal_log (p : Parent) (sig : Signal) :
    (p.handleSignal sig).log = .received sig :: p.log := by
  unfold handleSignal
  split <;> rfl

theorem handleSignal_todo (p : Parent) (sig : Signal) : (p.handleSignal sig).todo = p.todo := by
  unfold handleSignal
  split <;> rfl

theorem inv_step (h : Inv p) (ha : NoRespawn p a) (hstep : step p a = some p') : Inv p' := by
  rcases step_cases hstep with ⟨sig, rfl, rfl⟩ | ⟨pid, rfl, rfl⟩ | ⟨rfl, rfl⟩ |
    ⟨outcome, instr, rest, rfl, htodo, hrun⟩
  · have hend : Ending (p.handleSignal sig).log := by
      rw [handleSignal_log]
      exact .of_trigger trivial h.kills h.initial
    refine ⟨?_, fun _ => hend, hend.kills, hend.initial⟩
    rw [handleSignal_todo]
    exact h.control.imp_right fun hleft => ⟨hleft.1, hend⟩
  · exact ⟨h.control, h.flags, h.kills, h.initial⟩
  · exact ⟨h.control, h.flags, h.kills, h.initial⟩
  · have hnofork : ∀ left, outcome = .done → instr ≠ .fork (left + 1) := by
      rintro left rfl rfl
      exact ha left rest rfl htodo
    rcases h.control with hloop | ⟨hagain, hend⟩
    · exact inv_loop h (htodo ▸ hloop) hrun
    · obtain ⟨hend', hagain'⟩ := ending_run hend (htodo ▸ hagain) hnofork htodo hrun
      exact .of_ending hend' hagain'

theorem sound_of_inv (h : Inv p) : Sound p :=
  ⟨h.kills, fun pid _ hmem => absurd hmem (h.initial pid)⟩

theorem killsJustified_initial (pids : List Nat) :
    KillsJustified (pids.map (Event.spawned · false)) := by
  induction pids with
  | nil => trivial
  | cons pid pids ih => exact ih

theorem inv_start (numProcesses : Nat) : Inv (start numProcesses) := by
  refine ⟨.inl List.suffix_rfl, nofun, ?_, fun pid hmem => ?_⟩
  · change KillsJustified (List.reverse _)
    rw [← List.map_reverse]
    exact killsJustified_initial _
  · obtain ⟨_, _, heq⟩ := List.mem_map.mp (List.mem_reverse.mp hmem)
    cases heq

/-- A worker that a reload forks runs with nobody to look after it: the loop is left. -/
theorem not_sound_of_fork {left : Nat} (h : Inv p) (htodo : p.todo = .fork (left + 1) :: rest)
    (hstep : step p (.run .done) = some p') : ¬ Sound p' := by
  intro hsound
  have hagain : .again ∉ p.todo := by
    rcases h.control with hloop | hleft
    · rw [htodo] at hloop
      have hmem : Instr.fork (left + 1) ∈ loop := hloop.mem (List.mem_cons_self ..)
      simp [loop] at hmem
    · exact hleft.1
  unfold step at hstep
  rw [htodo] at hstep hagain
  cases hstep
  have hsupervised := hsound.reloaded p.nextPid (List.mem_cons_self ..) (List.mem_cons_self ..)
  rcases List.mem_cons.mp hsupervised.1 with heq | hmem
  · cases heq
  · exact hagain (List.mem_cons_of_mem _ hmem)

theorem noRespawn_of_sound (h : Inv p) (hstep : step p a = some p') (hsound : Sound p') :
    NoRespawn p a := by
  rintro left rest rfl htodo
  exact not_sound_of_fork h htodo hstep hsound

/-- The fork of a reload is never blocked. -/
theorem noRespawn_of_enabled (h : ∀ p', step p a = some p' → NoRespawn p a) : NoRespawn p a := by
  rintro left rest rfl htodo
  have hstep : ∃ p', step p (.run .done) = some p' := by
    simp only [step, htodo]
    exact ⟨_, rfl⟩
  obtain ⟨p', hstep⟩ := hstep
  exact h p' hstep left rest rfl htodo

theorem sound_iff_noRespawn (numProcesses : Nat) (actions : List Action) :
    Always step Sound (start numProcesses) actions ↔
      Along step NoRespawn (start numProcesses) actions := by
  have hiff : Always step Sound (start numProcesses) actions ↔ Along step
      (fun p a => ∀ p', step p a = some p' → NoRespawn p a) (start numProcesses) actions :=
    always_iff_along_of_inv Inv (inv_start numProcesses) (fun _ => sound_of_inv)
      (fun _ _ _ => inv_step) (fun _ _ _ => noRespawn_of_sound)
  rw [hiff]
  constructor
  · exact Along.mono fun _ _ => noRespawn_of_enabled
  · exact Along.mono fun _ _ h _ _ => h

/-- One graceful reload, the new worker running quietly until the limit expires. -/
def quietReload : List Action :=
  [.arrive .usr1, .run .done, .run .done, .run .done, .run .done, .run .done, .exit 0, .run .done,
    .run .done, .run .done, .run .done, .run .done, .run .done, .expire, .run .done, .run .done]

theorem quietReload_kills_new_worker : ¬ Always step Sound (start 1) quietReload := by
  intro h
  have hexec : (exec step (start 1) quietReload).map (·.log) =
      some [.sent .kill 1, .spawned 1 true, .exited 0, .sent .term 0, .sent .usr1 0,
        .received .usr1, .spawned 0 false] := by decide
  obtain ⟨p, hexec, hlog⟩ := Option.map_eq_some_iff.mp hexec
  have hkills := (h.final hexec).kills
  rw [hlog] at hkills
  exact (hkills.1 rfl).1 rfl

end Parent

end Hypern.Reload
