import Mathlib.Tactic.ByContra
import Hypern.Lib.Threads
import Hypern.Scheduler.Loop

/-! The record behind the id that a wrapper returns. `_execute_with_retry` takes an id of its own
and stores its result there, so the record of the wrapper stays as it was made. -/

namespace Hypern.Scheduler

open Lib

variable {F V : Type}

/-- Submission `k`, which has returned `id`, is executed as it was called, and the record of `id`
says how. -/
def TaskScheduler.Reports (g : TaskScheduler F V) (k : Nat) (sub : Submission F V) (id : String) :
    Prop :=
  ∃ ex, (k, ex) ∈ g.executions ∧ ex.calls = List.replicate ex.result.attempts sub.call ∧
    ∃ result, g.getResult id = some result ∧
      (ex.result.state = .completed ∧ result.state = .completed ∧
          result.result = ex.result.result ∨
        ex.result.state = .failed ∧ result.state = .failed ∧ result.error = ex.result.error)

/-- Once the loop has processed the submission, its id reports the execution. -/
def System.Promised (c : System F V) (k : Nat) : Prop :=
  ∀ sub number, c.producers[k]? = some (.returned sub number) →
    (∃ ex, (k, ex) ∈ c.shared.executions) → c.shared.Reports k sub (taskId number)

/-! ## The numbers of the ids -/

def Producer.number? : Producer F V → Option Nat
  | .called _ => none
  | .numbered _ number => some number
  | .timed _ number _ => some number
  | .appended _ number _ => some number
  | .returned _ number => some number

def LoopAt.number? : LoopAt F V → Option Nat
  | .executing _ _ job => some job.number
  | _ => none

/-- The record of the wrapper is still pending. -/
def TaskScheduler.Pending (g : TaskScheduler F V) (number : Nat) : Prop :=
  ∃ result, g.getResult (taskId number) = some result ∧ result.state = .pending

variable {g g' : TaskScheduler F V} {l l' : LoopAt F V} {env : Environment V}
  {p p' : Producer F V} {k : Nat}

theorem TaskScheduler.Pending.store_pending {number : Nat} (h : g.Pending number)
    (sub : Submission F V) (other : Nat) (runAt : ℤ) :
    (g.store (taskId other) (sub.pending other runAt)).Pending number := by
  obtain ⟨result, hresult, hstate⟩ := h
  unfold Pending
  rw [getResult_store]
  split_ifs
  · exact ⟨_, rfl, rfl⟩
  · exact ⟨result, hresult, hstate⟩

theorem TaskScheduler.Pending.store_of_ne {number other : Nat} (h : g.Pending number)
    (hne : number ≠ other) (result : ScheduledTaskResult V) :
    (g.store (taskId other) result).Pending number := by
  unfold Pending
  rw [getResult_store, if_neg fun heq => hne (taskId_injective heq)]
  exact h

/-- The result of an execution goes under the id of its job. -/
theorem TaskScheduler.Pending.record {number : Nat} (h : g.Pending number) (place : Place F V)
    (job : Job F V) (env : Environment V) (hne : number ≠ job.number) :
    (g.record place (executeWithRetry job env)).Pending number := by
  unfold TaskScheduler.record
  simp only [taskId_executeWithRetry]
  split_ifs
  · exact TaskScheduler.Pending.store_of_ne h hne _
  · exact h

theorem TaskScheduler.counter_record (place : Place F V) (ex : Execution F V) :
    (g.record place ex).counter = g.counter := by
  unfold TaskScheduler.record
  split_ifs <;> rfl

/-- What a move of the loop does to the numbers: it takes the next one or keeps its own. -/
theorem LoopMove.numbers (h : LoopMove g l env g' l') : g.counter ≤ g'.counter ∧
    (l'.number? = none ∨ l'.number? = some (g.counter + 1) ∧ g'.counter = g.counter + 1) := by
  cases h with
  | finish _ | exit _ =>
    rw [TaskScheduler.counter_record]
    exact ⟨Nat.le_refl _, .inl rfl⟩
  | cronFire _ _ | oneShotTake _ _ => exact ⟨Nat.le_succ _, .inr ⟨rfl, rfl⟩⟩
  | intervalRun _ hnumber => exact ⟨Nat.le_succ _, .inr ⟨congrArg some hnumber, rfl⟩⟩
  | _ => exact ⟨Nat.le_refl _, .inl rfl⟩

theorem LoopMove.pending (h : LoopMove g l env g' l') {number : Nat} (hp : g.Pending number)
    (hne : l.number? ≠ some number) : g'.Pending number := by
  cases h with
  | finish _ | exit _ => exact hp.record _ _ _ fun heq => hne (congrArg some heq.symm)
  | _ => exact hp

namespace System

variable {c c' : System F V}

structure NumberInv (c : System F V) : Prop where
  producers : ∀ p ∈ c.producers, ∀ n, p.number? = some n → n ≤ c.shared.counter
  loop : ∀ n, c.loop.number? = some n → n ≤ c.shared.counter ∧
    ∀ p ∈ c.producers, p.number? ≠ some n
  pending : ∀ sub n, .returned sub n ∈ c.producers → c.shared.Pending n

theorem numberInv_start (clock : Reading) : NumberInv (start clock : System F V) :=
  ⟨fun _ h => absurd h List.not_mem_nil, nofun, fun _ _ h => absurd h List.not_mem_nil⟩

theorem NumberInv.loop_step (h : NumberInv c) (hmove : LoopMove c.shared c.loop env g l) :
    NumberInv ⟨g, l, c.producers⟩ := by
  obtain ⟨hle, hnumber⟩ := hmove.numbers
  refine ⟨fun p hp n hn => Nat.le_trans (h.producers p hp n hn) hle, fun n hn => ?_, ?_⟩
  · rcases hnumber with hnone | ⟨hsome, hcounter⟩
    · rw [hnone] at hn
      cases hn
    · obtain rfl : c.shared.counter + 1 = n := Option.some.inj (hsome.symm.trans hn)
      refine ⟨Nat.le_of_eq hcounter.symm, fun p hp heq => ?_⟩
      exact Nat.not_succ_le_self _ (h.producers p hp _ heq)
  · intro sub n hmem
    exact hmove.pending (h.pending sub n hmem) fun heq => (h.loop n heq).2 _ hmem rfl

/-- A wrapper takes the next number, or keeps its number and stores a pending record. -/
theorem producer_numbers (h : p.next g k = some (g', p')) : g.counter ≤ g'.counter ∧
    (p'.number? = p.number? ∨ p'.number? = some (g.counter + 1) ∧ g'.counter = g.counter + 1) ∧
    (∀ n, g.Pending n → g'.Pending n) ∧ ∀ sub n, p' = .returned sub n → g'.Pending n := by
  cases p with
  | called sub =>
    cases h
    exact ⟨Nat.le_succ _, .inr ⟨rfl, rfl⟩, fun _ => id, nofun⟩
  | numbered sub number =>
    cases h
    exact ⟨Nat.le_refl _, .inl rfl, fun _ => id, nofun⟩
  | timed sub number runAt =>
    cases h
    exact ⟨Nat.le_refl _, .inl rfl, fun _ => id, nofun⟩
  | appended sub number runAt =>
    cases h
    refine ⟨Nat.le_refl _, .inl rfl, fun n hn => hn.store_pending sub number runAt, ?_⟩
    rintro sub' n heq
    cases heq
    refine ⟨sub.pending number runAt, ?_, rfl⟩
    rw [TaskScheduler.getResult_store, if_pos rfl]
  | returned sub number => cases h

theorem NumberInv.produce (h : NumberInv c) (hp : c.producers[k]? = some p)
    (hnext : p.next c.shared k = some (g, p')) :
    NumberInv ⟨g, c.loop, c.producers.set k p'⟩ := by
  obtain ⟨hle, hnumber, hkeep, hreturned⟩ := producer_numbers hnext
  have hmem := List.mem_of_getElem? hp
  refine ⟨forall_mem_set ?_ ?_, fun n hn => ⟨Nat.le_trans (h.loop n hn).1 hle, ?_⟩, ?_⟩
  · exact fun q hq n hn => Nat.le_trans (h.producers q hq n hn) hle
  · intro n hn
    rcases hnumber with hsame | ⟨hsome, hcounter⟩
    · exact Nat.le_trans (h.producers p hmem n (hsame.symm.trans hn)) hle
    · obtain rfl : c.shared.counter + 1 = n := Option.some.inj (hsome.symm.trans hn)
      exact Nat.le_of_eq hcounter.symm
  · refine forall_mem_set (h.loop n hn).2 fun heq => ?_
    rcases hnumber with hsame | ⟨hsome, -⟩
    · exact (h.loop n hn).2 p hmem (hsame.symm.trans heq)
    · obtain rfl : c.shared.counter + 1 = n := Option.some.inj (hsome.symm.trans heq)
      exact Nat.not_succ_le_self _ (h.loop _ hn).1
  · intro sub n hsub
    rcases List.mem_or_eq_of_mem_set hsub with hold | hnew
    · exact hkeep n (h.pending sub n hold)
    · exact hreturned sub n hnew.symm

theorem NumberInv.step {a : Action F V} (h : NumberInv c) (hstep : step c a = some c') :
    NumberInv c' := by
  cases a with
  | loop env =>
    obtain ⟨g, l, hmove, rfl⟩ := step_loop hstep
    exact h.loop_step hmove
  | produce k =>
    obtain ⟨p, g, p', hp, hnext, rfl⟩ := step_produce hstep
    exact h.produce hp hnext
  | submit sub =>
    cases hstep
    refine ⟨forall_mem_concat h.producers nofun, fun n hn => ?_, fun s n hs => ?_⟩
    · exact ⟨(h.loop n hn).1, forall_mem_concat (h.loop n hn).2 nofun⟩
    · rcases List.mem_append.mp hs with hold | hnew
      · exact h.pending s n hold
      · cases List.mem_singleton.mp hnew
  | tick reading =>
    obtain ⟨-, -, rfl⟩ := step_tick hstep
    exact ⟨h.producers, h.loop, h.pending⟩
  | cron task | interval task | stop =>
    cases hstep
    exact ⟨h.producers, h.loop, h.pending⟩

/-- The id of a processed submission never reports its execution: its record stays pending. -/
theorem not_promised {clock : Reading} {sub : Submission F V} {number : Nat}
    (h : Reaches System.step (start clock) c)
    (hreturned : c.producers[k]? = some (.returned sub number))
    (hprocessed : ∃ ex, (k, ex) ∈ c.shared.executions) : ¬ c.Promised k := by
  intro hpromised
  have hinv : NumberInv c := h.invariant (fun _ _ _ h hstep => h.step hstep) (numberInv_start clock)
  obtain ⟨result, hresult, hpending⟩ := hinv.pending sub number (List.mem_of_getElem? hreturned)
  obtain ⟨ex, -, -, result', hresult', hfinal⟩ := hpromised sub number hreturned hprocessed
  obtain rfl : result = result' := Option.some.inj (hresult.symm.trans hresult')
  rw [hpending] at hfinal
  rcases hfinal with ⟨-, hcompleted, -⟩ | ⟨-, hfailed, -⟩
  · cases hcompleted
  · cases hfailed

/-- The call `greet(5)` of a function with the default arguments of `task`. -/
def greet : Submission Unit Nat := ⟨⟨(), [5], []⟩, none, 0, "greet"⟩

def greetRun : List (Action Unit Nat) :=
  [.submit greet, .produce 0, .produce 0, .produce 0, .produce 0, .loop quiet, .loop quiet,
    .loop quiet, .loop quiet, .loop quiet, .loop quiet]

def greetJob : Job Unit Nat := ⟨.runner greet.call, [5], .noRetries, "greet", 2⟩

theorem greetRun_state : ∃ c, exec System.step (start newYear) greetRun = some c ∧
    c.producers[0]? = some (.returned greet 1) ∧
    c.shared.executions = [(0, executeWithRetry greetJob quiet)] ∧
    (∃ ex, (0, ex) ∈ c.shared.executions) ∧
    c.shared.getResult (taskId 1) =
      some ⟨taskId 1, "greet", .pending, none, none, 0, some 100⟩ := by
  have hrun : (exec System.step (start newYear) greetRun).map
      (fun c => (c.producers[0]?, c.shared.executions, c.shared.getResult (taskId 1))) =
        some (some (.returned greet 1), [(0, executeWithRetry greetJob quiet)],
          some ⟨taskId 1, "greet", .pending, none, none, 0, some 100⟩) := rfl
  obtain ⟨c, hexec, heq⟩ := Option.map_eq_some_iff.mp hrun
  rw [Prod.mk.injEq, Prod.mk.injEq] at heq
  obtain ⟨hreturned, hexecutions, hpending⟩ := heq
  refine ⟨c, hexec, hreturned, hexecutions, ?_, hpending⟩
  rw [hexecutions]
  exact ⟨_, List.mem_singleton_self _⟩

theorem greet_not_promised : ∃ c,
    Reaches System.step (start newYear) c ∧ c.producers[0]? = some (.returned greet 1) ∧
      ¬ c.Promised 0 := by
  obtain ⟨c, hexec, hreturned, -, hprocessed, -⟩ := greetRun_state
  exact ⟨c, ⟨_, hexec⟩, hreturned, not_promised ⟨_, hexec⟩ hreturned hprocessed⟩

/-- `greet` is not called at all: its closure takes no argument. The failure is recorded under
another id. -/
theorem greet_stays_pending : ∃ c, exec System.step (start newYear) greetRun = some c ∧
    (∃ ex, c.shared.executions = [(0, ex)] ∧ ex.calls = [] ∧ ex.result.taskId = taskId 2 ∧
      ex.result.state = .failed ∧ ex.result.error = some (runnerTypeError 1).text) ∧
    ¬ c.Promised 0 := by
  obtain ⟨c, hexec, hreturned, hexecutions, hprocessed, hpending⟩ := greetRun_state
  refine ⟨c, hexec, ⟨_, hexecutions, rfl, rfl, rfl, rfl⟩, fun hpromised => ?_⟩
  obtain ⟨ex, -, -, result, hresult, hfinal⟩ := hpromised greet 1 hreturned hprocessed
  cases hpending.symm.trans hresult
  rcases hfinal with ⟨-, hcompleted, -⟩ | ⟨-, hfailed, -⟩
  · cases hcompleted
  · cases hfailed

end System

end Hypern.Scheduler
