import Mathlib.Data.List.Perm.Basic
import Mathlib.Data.List.Nodup
import Mathlib.Tactic.ByContra
import Hypern.Lib.Threads
import Hypern.Scheduler.Loop

/-! What the loop does with tasks that are registered while it runs. A one-shot task appended
between the end of the loop over the list and the assignment of the new list is lost, and an
interval task registered after the last runs were sized ends the loop. -/

namespace Hypern.Scheduler

open Lib

variable {F V : Type}

namespace System

/-- Every one-shot task is still in the list or is taken up for execution, at most once and not
before its time, the loop has not ended by an exception, and it goes on until it is stopped. -/
structure Lossless (c : System F V) : Prop where
  kept : ∀ task ∈ c.shared.submitted,
    task ∈ c.shared.oneShotTasks ∨ ∃ now, (task, now) ∈ c.shared.taken
  once : ∀ k, c.shared.taken.countP (fun entry => entry.1.origin = k) ≤ 1
  due : ∀ entry ∈ c.shared.taken, entry.1.runAt ≤ entry.2
  alive : ∀ error, c.loop ≠ .dead error
  goesOn : c.loop ≠ .stopped → ∀ env, ∃ c', step c (.loop env) = some c'

/-- A pass that goes on to the one-shot tasks has considered every interval task. -/
def Considers (c : System F V) : Action F V → Prop
  | .loop _ => ∀ pass i, c.loop = .visiting pass (.interval i) →
    c.shared.intervalTasks[i]? = none → ∀ j < c.shared.intervalTasks.length, j ∈ pass.considered
  | _ => True

structure LosesNothing (c : System F V) (as : List (Action F V)) : Prop where
  lossless : Always step Lossless c as
  considers : Along step Considers c as

end System

def Producer.isTimed : Producer F V → Bool
  | .timed _ _ _ => true
  | _ => false

def LoopAt.isSwapping : LoopAt F V → Bool
  | .swapping _ _ => true
  | _ => false

def LoopAt.isIdle : LoopAt F V → Bool
  | .starting | .stopped => true
  | _ => false

/-- One-shot tasks are not appended just before the list is replaced, and interval tasks are
registered before the loop starts or after it has stopped. -/
def System.InTime (c : System F V) : Action F V → Prop
  | .produce k => ∀ p, c.producers[k]? = some p → p.isTimed = true → c.loop.isSwapping = false
  | .interval _ => c.loop.isIdle = true
  | _ => True

instance System.InTime.decidable (c : System F V) : (a : Action F V) → Decidable (c.InTime a)
  | .produce k => inferInstanceAs (Decidable (∀ p, c.producers[k]? = some p → _))
  | .interval _ => inferInstanceAs (Decidable (_ = true))
  | .loop _ | .cron _ | .submit _ | .stop | .tick _ => isTrue trivial

/-- No call and no hook raises something that is no `Exception`. -/
structure Environment.NoExit (env : Environment V) : Prop where
  outcome : ∀ attempt, env.outcome attempt ≠ .exit
  before : env.beforeExits = false
  after : env.afterExits = false
  error : ∀ attempt, env.errorExits attempt = false

def Action.NoExit : Action F V → Prop
  | .loop env => env.NoExit
  | _ => True

def System.Undisturbed (c : System F V) (a : Action F V) : Prop := c.InTime a ∧ a.NoExit

variable {g g' : TaskScheduler F V} {l l' : LoopAt F V} {env : Environment V}

theorem Execution.outcome_ne_exit (h : env.NoExit) (job : Job F V) (attempt : Nat) :
    outcome job env attempt ≠ .exit := by
  unfold outcome
  cases job.callable.apply job.args with
  | ok call => exact h.outcome attempt
  | error exc => exact nofun

theorem Execution.ending_attempts (h : env.NoExit) (job : Job F V) (left attempt : Nat)
    {ex : Execution F V} (hex : ex.ending ≠ .exited) :
    (attempts job env left attempt ex).ending ≠ .exited := by
  induction left generalizing attempt ex with
  | zero => exact hex
  | succ left ih =>
    rw [attempts]
    cases houtcome : outcome job env attempt with
    | exit => exact absurd houtcome (outcome_ne_exit h job attempt)
    | value v =>
      dsimp only
      rw [h.after]
      exact hex
    | exception exc =>
      dsimp only
      cases exc.text with
      | none => exact nofun
      | some error =>
        dsimp only
        rw [h.error, if_neg Bool.false_ne_true]
        split_ifs
        · exact nofun
        · exact ih _ hex
        · exact hex

theorem ending_executeWithRetry (h : env.NoExit) (job : Job F V) :
    (executeWithRetry job env).ending ≠ .exited := by
  unfold executeWithRetry
  rw [h.before]
  exact Execution.ending_attempts h job _ _ nofun

/-! ## The one-shot tasks -/

/-- How far the loop over the one-shot tasks has come, and what it keeps for the next pass. -/
def LoopAt.progress (g : TaskScheduler F V) : LoopAt F V → Nat × List (OneShotTask F V)
  | .visiting _ (.oneShot i pending) => (i, pending)
  | .executing _ (.oneShot i pending) _ => (i + 1, pending)
  | .swapping _ pending => (g.oneShotTasks.length, pending)
  | _ => (0, [])

/-- The tasks that are yet to be executed. -/
def LoopAt.outstanding (g : TaskScheduler F V) (l : LoopAt F V) : List (OneShotTask F V) :=
  (l.progress g).2 ++ g.oneShotTasks.drop (l.progress g).1

/-- `l` has come to its place in the list, and every outstanding task is in it. -/
structure LoopAt.Within (g : TaskScheduler F V) (l : LoopAt F V) : Prop where
  le : (l.progress g).1 ≤ g.oneShotTasks.length
  mem : ∀ task ∈ (l.progress g).2, task ∈ g.oneShotTasks

structure OneShotInv (g : TaskScheduler F V) (l : LoopAt F V) : Prop extends l.Within g where
  perm : (l.outstanding g ++ g.taken.map Prod.fst).Perm g.submitted
  due : ∀ entry ∈ g.taken, entry.1.runAt ≤ entry.2

theorem LoopAt.progress_congr (h : g'.oneShotTasks = g.oneShotTasks) :
    l.progress g' = l.progress g := by
  cases l with
  | swapping pass pending => exact congrArg (fun tasks => (List.length tasks, pending)) h
  | visiting pass place => cases place <;> rfl
  | executing pass place job => cases place <;> rfl
  | _ => rfl

theorem OneShotInv.congr (h : OneShotInv g l) (htasks : g'.oneShotTasks = g.oneShotTasks)
    (htaken : g'.taken = g.taken) (hsubmitted : g'.submitted = g.submitted)
    (hprogress : l'.progress g' = l.progress g) : OneShotInv g' l' := by
  have houtstanding : l'.outstanding g' = l.outstanding g := by
    unfold LoopAt.outstanding
    rw [hprogress, htasks]
  refine ⟨⟨?_, ?_⟩, ?_, ?_⟩
  · rw [hprogress, htasks]
    exact h.le
  · rw [hprogress, htasks]
    exact h.mem
  · rw [houtstanding, htaken, hsubmitted]
    exact h.perm
  · rw [htaken]
    exact h.due

section OneShot

variable {pass : Pass} {i : Nat} {pending : List (OneShotTask F V)} {task : OneShotTask F V}

theorem drop_eq_cons (h : g.oneShotTasks[i]? = some task) :
    g.oneShotTasks.drop i = task :: g.oneShotTasks.drop (i + 1) := by
  obtain ⟨hlt, rfl⟩ := List.getElem?_eq_some_iff.mp h
  exact List.drop_eq_getElem_cons hlt

theorem OneShotInv.keep (h : OneShotInv g (.visiting pass (.oneShot i pending)))
    (htask : g.oneShotTasks[i]? = some task) :
    OneShotInv g (.visiting pass (.oneShot (i + 1) (pending ++ [task]))) := by
  refine ⟨⟨(List.getElem?_eq_some_iff.mp htask).1, ?_⟩, ?_, h.due⟩
  · exact forall_mem_concat h.mem (List.mem_of_getElem? htask)
  · have hperm := h.perm
    unfold LoopAt.outstanding LoopAt.progress at hperm ⊢
    rw [List.append_assoc pending, List.singleton_append, ← drop_eq_cons htask]
    exact hperm

theorem OneShotInv.take (h : OneShotInv g (.visiting pass (.oneShot i pending)))
    (htask : g.oneShotTasks[i]? = some task) (hdue : task.runAt ≤ pass.now) (job : Job F V) :
    OneShotInv { g.nextId with taken := (task, pass.now) :: g.taken }
      (.executing pass (.oneShot i pending) job) := by
  refine ⟨⟨(List.getElem?_eq_some_iff.mp htask).1, h.mem⟩, ?_, ?_⟩
  · have hperm := h.perm
    unfold LoopAt.outstanding LoopAt.progress at hperm ⊢
    rw [drop_eq_cons htask] at hperm
    refine List.Perm.trans ?_ hperm
    simp only [List.map_cons, List.append_assoc, List.cons_append]
    exact List.Perm.append_left pending List.perm_middle
  · exact List.forall_mem_cons.mpr ⟨hdue, h.due⟩

/-- At the end of the list nothing is left but what is kept. -/
theorem OneShotInv.reachEnd (h : OneShotInv g (.visiting pass (.oneShot i pending)))
    (hend : g.oneShotTasks[i]? = none) : OneShotInv g (.swapping pass pending) := by
  have hle : i ≤ g.oneShotTasks.length := h.le
  have hge := List.getElem?_eq_none_iff.mp hend
  refine h.congr rfl rfl rfl ?_
  change (g.oneShotTasks.length, pending) = (i, pending)
  rw [Nat.le_antisymm hge hle]

theorem OneShotInv.swap (h : OneShotInv g (.swapping pass pending)) (last : Option Nat)
    (lastRun : List ℤ) : OneShotInv { g with oneShotTasks := pending } (.sleeping last lastRun) := by
  refine ⟨⟨Nat.zero_le _, fun _ hx => absurd hx List.not_mem_nil⟩, ?_, h.due⟩
  have hperm := h.perm
  unfold LoopAt.outstanding LoopAt.progress at hperm ⊢
  rw [List.drop_length, List.append_nil] at hperm
  exact hperm

/-- A task is appended while the loop is not about to replace the list. -/
theorem OneShotInv.append (h : OneShotInv g l) (hl : l.isSwapping = false)
    (task : OneShotTask F V) : OneShotInv { g with
      oneShotTasks := g.oneShotTasks ++ [task]
      submitted := task :: g.submitted } l := by
  have hprogress : ∀ g' : TaskScheduler F V, l.progress g' = l.progress g := by
    intro g'
    cases l with
    | swapping pass pending => cases hl
    | visiting pass place => cases place <;> rfl
    | executing pass place job => cases place <;> rfl
    | _ => rfl
  refine ⟨⟨?_, ?_⟩, ?_, h.due⟩
  · rw [hprogress, List.length_append]
    exact Nat.le_trans h.le (Nat.le_add_right _ _)
  · rw [hprogress]
    exact fun x hx => List.mem_append_left _ (h.mem x hx)
  · have hperm := h.perm
    unfold LoopAt.outstanding at hperm ⊢
    rw [hprogress, List.drop_append_of_le_length h.le, ← List.append_assoc]
    refine List.Perm.trans ?_ (hperm.cons task)
    rw [List.append_assoc _ [task], List.singleton_append]
    exact List.perm_middle

end OneShot

theorem TaskScheduler.record_lists (place : Place F V) (ex : Execution F V) :
    (g.record place ex).oneShotTasks = g.oneShotTasks ∧ (g.record place ex).taken = g.taken ∧
      (g.record place ex).submitted = g.submitted ∧
      (g.record place ex).intervalTasks = g.intervalTasks := by
  unfold TaskScheduler.record
  split_ifs <;> exact ⟨rfl, rfl, rfl, rfl⟩

theorem LoopMove.submitted_eq (h : LoopMove g l env g' l') : g'.submitted = g.submitted := by
  cases h with
  | finish _ | exit _ => exact (TaskScheduler.record_lists _ _).2.2.1
  | _ => rfl

theorem LoopMove.oneShotInv (h : LoopMove g l env g' l') (hinv : OneShotInv g l)
    (hexit : env.NoExit) : OneShotInv g' l' := by
  cases h with
  | oneShotEnd hend => exact hinv.reachEnd hend
  | oneShotKeep htask => exact hinv.keep htask
  | oneShotTake htask hdue => exact hinv.take htask hdue _
  | swap => exact hinv.swap _ _
  | @finish pass place job _ _ =>
    obtain ⟨htasks, htaken, hsubmitted, -⟩ :=
      g.record_lists place (executeWithRetry job env)
    refine hinv.congr htasks htaken hsubmitted ?_
    cases place <;> rfl
  | exit hexited => exact absurd hexited (ending_executeWithRetry hexit _)
  | _ => exact hinv.congr rfl rfl rfl rfl

/-! ## The interval tasks -/

/-- There is a last run for every interval task, and the tasks up to the index of the loop have
been considered. -/
def LoopAt.Sized (g : TaskScheduler F V) : LoopAt F V → Prop
  | .starting => True
  | .top _ intervalLastRun => intervalLastRun.length = g.intervalTasks.length
  | .visiting pass (.interval i) => pass.intervalLastRun.length = g.intervalTasks.length ∧
    ∀ j < i, j ∈ pass.considered
  | .visiting pass _ => pass.intervalLastRun.length = g.intervalTasks.length
  | .executing pass (.interval i) _ => pass.intervalLastRun.length = g.intervalTasks.length ∧
    ∀ j < i + 1, j ∈ pass.considered
  | .executing pass _ _ => pass.intervalLastRun.length = g.intervalTasks.length
  | .swapping pass _ => pass.intervalLastRun.length = g.intervalTasks.length
  | .sleeping _ intervalLastRun => intervalLastRun.length = g.intervalTasks.length
  | .stopped => True
  | .dead _ => False

theorem LoopAt.Sized.congr (h : l.Sized g) (heq : g'.intervalTasks = g.intervalTasks) :
    l.Sized g' := by
  cases l with
  | starting | stopped => trivial
  | dead error => exact h
  | visiting pass place =>
    cases place with
    | interval i => exact ⟨h.1.trans (congrArg _ heq.symm), h.2⟩
    | _ => exact Eq.trans h (congrArg _ heq.symm)
  | executing pass place job =>
    cases place with
    | interval i => exact ⟨h.1.trans (congrArg _ heq.symm), h.2⟩
    | _ => exact Eq.trans h (congrArg _ heq.symm)
  | _ => exact Eq.trans h (congrArg _ heq.symm)

theorem LoopAt.sized_of_isIdle (h : l.isIdle = true) : l.Sized g := by
  cases l with
  | starting | stopped => trivial
  | _ => cases h

theorem considered_succ {i : Nat} {considered : List Nat} (h : ∀ j < i, j ∈ considered) :
    ∀ j < i + 1, j ∈ i :: considered := by
  intro j hj
  rcases Nat.lt_succ_iff_lt_or_eq.mp hj with hlt | rfl
  · exact List.mem_cons_of_mem _ (h j hlt)
  · exact List.mem_cons_self

theorem LoopMove.sized (h : LoopMove g l env g' l') (hl : l.Sized g) (hexit : env.NoExit) :
    l'.Sized g' := by
  cases h with
  | size => exact List.length_replicate
  | enterSame _ _ => exact ⟨hl, nofun⟩
  | cronEnd _ => exact ⟨hl, nofun⟩
  | intervalEnd _ => exact hl.1
  | intervalDie hlt hlast =>
    rw [hl.1] at hlast
    exact absurd hlt (Nat.not_lt.mpr hlast)
  | intervalSkip _ => exact ⟨hl.1, considered_succ hl.2⟩
  | intervalRun _ _ =>
    refine ⟨?_, considered_succ hl.2⟩
    rw [List.length_set]
    exact hl.1
  | @finish pass place job _ _ =>
    obtain ⟨-, -, -, hintervals⟩ := g.record_lists place (executeWithRetry job env)
    refine LoopAt.Sized.congr (g := g) ?_ hintervals
    cases place <;> exact hl
  | exit hexited => exact ending_executeWithRetry hexit _ hexited
  | stop _ => trivial
  | _ => exact hl

/-! ## Every run -/

def Producer.hasAppended : Producer F V → Bool
  | .appended _ _ _ => true
  | .returned _ _ => true
  | _ => false

/-- The lists of tasks and their histories are the same. -/
structure TaskScheduler.SameLists (g g' : TaskScheduler F V) : Prop where
  oneShotTasks : g'.oneShotTasks = g.oneShotTasks
  taken : g'.taken = g.taken
  submitted : g'.submitted = g.submitted
  intervalTasks : g'.intervalTasks = g.intervalTasks

/-- A wrapper appends its task, or leaves the lists as they are. -/
theorem Producer.next_cases {p p' : Producer F V} {k : Nat} (h : p.next g k = some (g', p')) :
    (∃ sub number runAt, p = .timed sub number runAt ∧ p' = .appended sub number runAt ∧
      g' = { g with
        oneShotTasks := g.oneShotTasks ++ [sub.task runAt k]
        submitted := sub.task runAt k :: g.submitted }) ∨
    g.SameLists g' ∧ (p.hasAppended = true → p'.hasAppended = true) := by
  cases p with
  | timed sub number runAt =>
    cases h
    exact .inl ⟨sub, number, runAt, rfl, rfl, rfl⟩
  | returned sub number => cases h
  | _ =>
    cases h
    exact .inr ⟨⟨rfl, rfl, rfl, rfl⟩, fun h => h⟩

namespace System

variable {c c' : System F V} {a : Action F V}

/-- A wrapper has appended its task once, if at all. -/
structure Distinct (c : System F V) : Prop where
  nodup : (c.shared.submitted.map OneShotTask.origin).Nodup
  appended : ∀ task ∈ c.shared.submitted, ∃ p, c.producers[task.origin]? = some p ∧
    p.hasAppended = true

structure LosslessInv (c : System F V) : Prop extends Distinct c where
  oneShot : OneShotInv c.shared c.loop
  sized : c.loop.Sized c.shared

theorem step_loop_some (halive : ∀ error, c.loop ≠ .dead error) (hrunning : c.loop ≠ .stopped)
    (env : Environment V) : ∃ c', step c (.loop env) = some c' := by
  obtain ⟨g, l, producers⟩ := c
  cases l with
  | stopped => exact absurd rfl hrunning
  | dead error => exact absurd rfl (halive error)
  | visiting pass place => cases place <;> exact ⟨_, rfl⟩
  | _ => exact ⟨_, rfl⟩

theorem LosslessInv.lossless (h : LosslessInv c) : Lossless c := by
  have halive : ∀ error, c.loop ≠ .dead error := by
    intro error heq
    have hsized := h.sized
    rw [heq] at hsized
    exact hsized
  refine ⟨fun task htask => ?_, fun k => ?_, h.oneShot.due, halive, step_loop_some halive⟩
  · rcases List.mem_append.mp (h.oneShot.perm.mem_iff.mpr htask) with hout | htaken
    · refine .inl ?_
      rcases List.mem_append.mp hout with hkept | hrest
      · exact h.oneShot.mem task hkept
      · exact List.mem_of_mem_drop hrest
    · obtain ⟨⟨task', now⟩, hmem, rfl⟩ := List.mem_map.mp htaken
      exact .inr ⟨now, hmem⟩
  · have hnodup := (h.oneShot.perm.map OneShotTask.origin).nodup_iff.mpr h.nodup
    rw [List.map_append, List.map_map] at hnodup
    have hcount := List.nodup_iff_count_le_one.mp hnodup.of_append_right k
    rw [List.count, List.countP_map] at hcount
    exact hcount

theorem LosslessInv.considers (h : LosslessInv c) : Considers c a := by
  cases a with
  | loop env =>
    intro pass i hloop hend j hj
    have hsized := h.sized
    rw [hloop] at hsized
    exact hsized.2 j (Nat.lt_of_lt_of_le hj (List.getElem?_eq_none_iff.mp hend))
  | _ => trivial

theorem LosslessInv.same (h : LosslessInv c) (hsame : c.shared.SameLists g)
    {producers : List (Producer F V)} (hproducers : ∀ (k : Nat) p, c.producers[k]? = some p →
      p.hasAppended = true → ∃ q, producers[k]? = some q ∧ q.hasAppended = true) :
    LosslessInv ⟨g, c.loop, producers⟩ := by
  refine ⟨⟨?_, ?_⟩, ?_, h.sized.congr hsame.intervalTasks⟩
  · rw [hsame.submitted]
    exact h.nodup
  · rw [hsame.submitted]
    intro task htask
    obtain ⟨p, hp, hdone⟩ := h.appended task htask
    exact hproducers _ p hp hdone
  · refine h.oneShot.congr hsame.oneShotTasks hsame.taken hsame.submitted ?_
    exact LoopAt.progress_congr hsame.oneShotTasks

theorem LosslessInv.append {k number : Nat} {sub : Submission F V} {runAt : ℤ} (h : LosslessInv c)
    (hquiet : c.loop.isSwapping = false)
    (hp : c.producers[k]? = some (.timed sub number runAt)) :
    LosslessInv ⟨{ c.shared with
      oneShotTasks := c.shared.oneShotTasks ++ [sub.task runAt k]
      submitted := sub.task runAt k :: c.shared.submitted }, c.loop,
      c.producers.set k (.appended sub number runAt)⟩ := by
  have hlt := (List.getElem?_eq_some_iff.mp hp).1
  -- the wrapper has not appended a task before
  have hnew : ∀ task ∈ c.shared.submitted, k ≠ task.origin := by
    rintro task htask rfl
    obtain ⟨p, hp', hdone⟩ := h.appended task htask
    cases hp.symm.trans hp'
    cases hdone
  refine ⟨⟨?_, List.forall_mem_cons.mpr ⟨?_, fun task htask => ?_⟩⟩, ?_, h.sized.congr rfl⟩
  · refine List.nodup_cons.mpr ⟨fun hmem => ?_, h.nodup⟩
    obtain ⟨task, htask, heq⟩ := List.mem_map.mp hmem
    exact hnew task htask heq.symm
  · exact ⟨_, List.getElem?_set_self hlt, rfl⟩
  · obtain ⟨p, hp', hdone⟩ := h.appended task htask
    refine ⟨p, ?_, hdone⟩
    rw [List.getElem?_set_ne (hnew task htask), hp']
  · exact h.oneShot.append hquiet _

theorem LosslessInv.produce {k : Nat} {p p' : Producer F V} (h : LosslessInv c)
    (hquiet : c.InTime (.produce k)) (hp : c.producers[k]? = some p)
    (hnext : p.next c.shared k = some (g, p')) :
    LosslessInv ⟨g, c.loop, c.producers.set k p'⟩ := by
  rcases Producer.next_cases hnext with ⟨sub, number, runAt, rfl, rfl, rfl⟩ | ⟨hsame, hdone⟩
  · exact h.append (hquiet _ hp rfl) hp
  · refine h.same hsame fun j q hq hqdone => ?_
    by_cases heq : k = j
    · subst heq
      obtain rfl : p = q := Option.some.inj (hp.symm.trans hq)
      exact ⟨p', List.getElem?_set_self (List.getElem?_eq_some_iff.mp hp).1, hdone hqdone⟩
    · refine ⟨q, ?_, hqdone⟩
      rw [List.getElem?_set_ne heq, hq]

theorem LosslessInv.step (h : LosslessInv c) (hquiet : Undisturbed c a)
    (hstep : step c a = some c') : LosslessInv c' := by
  have hkept : ∀ (k : Nat) p, c.producers[k]? = some p → p.hasAppended = true →
      ∃ q, c.producers[k]? = some q ∧ q.hasAppended = true := fun _ p hp hdone => ⟨p, hp, hdone⟩
  cases a with
  | loop env =>
    obtain ⟨g, l, hmove, rfl⟩ := step_loop hstep
    refine ⟨⟨?_, ?_⟩, hmove.oneShotInv h.oneShot hquiet.2, hmove.sized h.sized hquiet.2⟩
    · rw [hmove.submitted_eq]
      exact h.nodup
    · rw [hmove.submitted_eq]
      exact h.appended
  | produce k =>
    obtain ⟨p, g, p', hp, hnext, rfl⟩ := step_produce hstep
    exact h.produce hquiet.1 hp hnext
  | tick reading =>
    obtain ⟨-, -, rfl⟩ := step_tick hstep
    refine h.same ?_ hkept
    exact ⟨rfl, rfl, rfl, rfl⟩
  | interval task =>
    cases hstep
    refine ⟨⟨h.nodup, h.appended⟩, h.oneShot.congr rfl rfl rfl ?_, ?_⟩
    · exact LoopAt.progress_congr rfl
    · exact LoopAt.sized_of_isIdle hquiet.1
  | submit sub =>
    cases hstep
    refine h.same ⟨rfl, rfl, rfl, rfl⟩ fun k p hp hdone => ⟨p, ?_, hdone⟩
    rw [List.getElem?_append_left (List.getElem?_eq_some_iff.mp hp).1, hp]
  | cron task | stop =>
    cases hstep
    refine h.same ?_ hkept
    exact ⟨rfl, rfl, rfl, rfl⟩

theorem losslessInv_start (clock : Reading) : LosslessInv (start clock : System F V) :=
  ⟨⟨List.nodup_nil, fun _ h => absurd h List.not_mem_nil⟩,
    ⟨⟨Nat.le_refl _, fun _ h => absurd h List.not_mem_nil⟩, .nil,
      fun _ h => absurd h List.not_mem_nil⟩, trivial⟩

/-- A run loses nothing if no task is registered at a wrong time and none exits. -/
theorem losesNothing_of_undisturbed {clock : Reading} {as : List (Action F V)}
    (h : Along System.step Undisturbed (start clock) as) :
    LosesNothing (start clock) as := by
  constructor
  · exact h.always (fun _ _ _ h hquiet hstep => h.step hquiet hstep) (fun _ h => h.lossless)
      (losslessInv_start clock)
  · exact h.strengthen (fun _ _ _ h hquiet hstep => h.step hquiet hstep)
      (fun _ _ h _ => h.considers) (losslessInv_start clock)

theorem quiet_noExit : quiet.NoExit := ⟨nofun, rfl, rfl, fun _ => rfl⟩

def report : Submission Unit Nat := ⟨⟨(), [], []⟩, none, 0, "report"⟩

def heartbeat : IntervalTask Unit := ⟨30000000000, (), .noRetries, "heartbeat"⟩

/-- The task is appended before the loop comes to the list. -/
def earlyRun : List (Action Unit Nat) :=
  [.interval heartbeat, .submit report, .produce 0, .produce 0, .loop quiet, .produce 0,
    .produce 0] ++ List.replicate 10 (.loop quiet)

theorem earlyRun_losesNothing : LosesNothing (start newYear) earlyRun := by
  have hexits : ∀ a ∈ earlyRun, a.NoExit := by
    intro a ha
    rcases List.mem_append.mp ha with hhead | htail
    · simp only [List.mem_cons, List.not_mem_nil, or_false] at hhead
      rcases hhead with rfl | rfl | rfl | rfl | rfl | rfl | rfl <;>
        first | trivial | exact quiet_noExit
    · rw [List.eq_of_mem_replicate htail]
      exact quiet_noExit
  have htime : Along System.step InTime (start newYear) earlyRun := by decide
  exact losesNothing_of_undisturbed (htime.and (.of_forall (fun a ha _ => hexits a ha) _))

/-- The task is appended when the loop has seen the end of the list. -/
def lostRun : List (Action Unit Nat) :=
  [.submit report, .produce 0, .produce 0] ++ List.replicate 5 (.loop quiet) ++
    [.produce 0, .loop quiet]

/-- An interval task is registered when the loop has begun. -/
def lateRun : List (Action Unit Nat) :=
  [.loop quiet, .interval heartbeat, .loop quiet, .loop quiet, .loop quiet]

theorem lostRun_and_lateRun_lose : ¬ LosesNothing (start newYear) lostRun ∧
    ¬ LosesNothing (start newYear) lateRun := by
  constructor
  · intro h
    have hrun : (exec System.step (start newYear) lostRun).map
        (fun c => (c.shared.submitted, c.shared.oneShotTasks, c.shared.taken)) =
          some ([report.task 100 0], [], []) := rfl
    obtain ⟨c, hexec, heq⟩ := Option.map_eq_some_iff.mp hrun
    rw [Prod.mk.injEq, Prod.mk.injEq] at heq
    obtain ⟨hsubmitted, htasks, htaken⟩ := heq
    have hkept := (h.lossless.final hexec).kept (report.task 100 0)
    rw [hsubmitted, htasks, htaken] at hkept
    rcases hkept (List.mem_singleton_self _) with hmem | ⟨now, hmem⟩
    · cases hmem
    · cases hmem
  · intro h
    have hrun : (exec System.step (start newYear) lateRun).map (fun c => c.loop) =
        some (.dead (some indexError)) := rfl
    obtain ⟨c, hexec, hdead⟩ := Option.map_eq_some_iff.mp hrun
    exact (h.lossless.final hexec).alive _ hdead

end System

end Hypern.Scheduler
