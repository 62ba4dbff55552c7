import Mathlib.Tactic.ByContra
import Hypern.Scheduler.Loop

/-! Cron tasks and calendar minutes. A pass compares each task with the clock at that moment, while
`last_cron_minute` is the minute in which the pass began: a task that is reached after a minute has
ended may be executed in this pass and again in the next. -/

namespace Hypern.Scheduler

open Lib

variable {F V : Type}

/-- No cron task is executed twice for one minute, and the expression of each task executed in a
pass matches the minute of the pass. -/
structure TaskScheduler.FiresOnce (g : TaskScheduler F V) : Prop where
  once : g.fired.Pairwise fun f f' => ¬ (f.index = f'.index ∧ f.reading = f'.reading)
  inPass : ∀ f ∈ g.fired, ∃ task, g.cronTasks[f.index]? = some task ∧
    task.expr.matchesNow f.pass = true

/-- A task whose expression matches is compared within the minute of the pass. -/
def LoopAt.InMinute (g : TaskScheduler F V) : LoopAt F V → Prop
  | .visiting pass (.cron i) => ∀ task, g.cronTasks[i]? = some task →
    task.expr.matchesNow g.clock.tm = true → g.clock.tm = pass.tm
  | _ => True

instance LoopAt.InMinute.decidable (g : TaskScheduler F V) :
    (l : LoopAt F V) → Decidable (l.InMinute g)
  | .visiting _ (.cron i) => inferInstanceAs (Decidable (∀ task, g.cronTasks[i]? = some task → _))
  | .visiting _ (.interval _) | .visiting _ (.oneShot _ _) | .starting | .top _ _ |
    .executing _ _ _ | .swapping _ _ | .sleeping _ _ | .stopped | .dead _ => isTrue trivial

def System.InMinute (c : System F V) : Action F V → Prop
  | .loop _ => c.loop.InMinute c.shared
  | _ => True

instance System.InMinute.decidable (c : System F V) : (a : Action F V) → Decidable (c.InMinute a)
  | .loop _ => inferInstanceAs (Decidable (c.loop.InMinute c.shared))
  | .cron _ | .interval _ | .submit _ | .stop | .tick _ | .produce _ => isTrue trivial

/-! ## The minutes of the passes -/

/-- Outside of the loop over the cron tasks: what was executed was executed in earlier minutes, or
in the last minute that was looked at. -/
def TaskScheduler.Settled (g : TaskScheduler F V) (lastCronMinute : Option Nat) : Prop :=
  ∀ f ∈ g.fired, f.pass < g.clock.tm ∨ lastCronMinute = some f.pass.minuteOfDay

/-- Within it, before task `i`. -/
structure TaskScheduler.InCron (g : TaskScheduler F V) (pass : Pass) (i : Nat) : Prop where
  le : pass.tm ≤ g.clock.tm
  last : pass.lastCronMinute = some pass.tm.minuteOfDay
  before : ∀ f ∈ g.fired, f.pass < pass.tm ∨ f.pass = pass.tm ∧ f.index < i

def LoopAt.Good (g : TaskScheduler F V) : LoopAt F V → Prop
  | .starting => g.fired = []
  | .top lastCronMinute _ => g.Settled lastCronMinute
  | .visiting pass (.cron i) => g.InCron pass i
  | .visiting pass _ => g.Settled pass.lastCronMinute
  | .executing pass (.cron i) _ => g.InCron pass (i + 1)
  | .executing pass _ _ => g.Settled pass.lastCronMinute
  | .swapping pass _ => g.Settled pass.lastCronMinute
  | .sleeping lastCronMinute _ => g.Settled lastCronMinute
  | .stopped => True
  | .dead _ => True

/-- What is known of the executed tasks, wherever the loop is. -/
structure TaskScheduler.FiringInv (g : TaskScheduler F V) : Prop extends g.FiresOnce where
  le : ∀ f ∈ g.fired, f.pass ≤ g.clock.tm
  reading : ∀ f ∈ g.fired, f.reading = f.pass

variable {g g' : TaskScheduler F V} {l l' : LoopAt F V} {env : Environment V}

namespace TaskScheduler

variable {pass : Pass} {i : Nat} {lastCronMinute : Option Nat}

theorem InCron.succ (h : g.InCron pass i) : g.InCron pass (i + 1) :=
  ⟨h.le, h.last, fun f hf => (h.before f hf).imp_right fun h => ⟨h.1, Nat.lt_succ_of_lt h.2⟩⟩

theorem InCron.settled (h : g.InCron pass i) : g.Settled pass.lastCronMinute := by
  intro f hf
  rcases h.before f hf with hlt | ⟨heq, -⟩
  · exact .inl (lt_of_lt_of_le hlt h.le)
  · rw [h.last, heq]
    exact .inr rfl

/-- A pass with a new minute of the day is later than every execution before it. -/
theorem Settled.enter (h : g.Settled lastCronMinute) (hinv : g.FiringInv)
    (hminute : lastCronMinute ≠ some g.clock.tm.minuteOfDay) :
    ∀ f ∈ g.fired, f.pass < g.clock.tm := by
  intro f hf
  rcases h f hf with hlt | hlast
  · exact hlt
  · refine lt_of_le_of_ne (hinv.le f hf) fun heq => ?_
    rw [heq] at hlast
    exact hminute hlast

/-- Executing a task within the minute of the pass. -/
theorem FiringInv.fire (h : g.FiringInv) (hcron : g.InCron pass i) {task : CronTask F}
    (htask : g.cronTasks[i]? = some task) (hnow : task.expr.matchesNow g.clock.tm = true)
    (hminute : g.clock.tm = pass.tm) :
    FiringInv { g.nextId with fired := ⟨i, pass.tm, g.clock.tm⟩ :: g.fired } := by
  refine ⟨⟨List.pairwise_cons.mpr ⟨fun f hf => ?_, h.once⟩, ?_⟩, ?_, ?_⟩
  · rintro ⟨hindex, hreading⟩
    change i = f.index at hindex
    change g.clock.tm = f.reading at hreading
    rw [h.reading f hf, hminute] at hreading
    rcases hcron.before f hf with hlt | ⟨-, hlt⟩
    · exact lt_irrefl _ (hreading ▸ hlt)
    · omega
  · refine List.forall_mem_cons.mpr ⟨⟨task, htask, ?_⟩, h.inPass⟩
    rw [← hminute]
    exact hnow
  · exact List.forall_mem_cons.mpr ⟨hcron.le, h.le⟩
  · exact List.forall_mem_cons.mpr ⟨hminute, h.reading⟩

theorem InCron.fire (h : g.InCron pass i) (reading : LocalTime) :
    InCron { g.nextId with fired := ⟨i, pass.tm, reading⟩ :: g.fired } pass (i + 1) := by
  refine ⟨h.le, h.last, List.forall_mem_cons.mpr ⟨.inr ⟨rfl, Nat.lt_succ_self i⟩, ?_⟩⟩
  exact h.succ.before

/-- Nothing is executed, the clock does not go back and tasks are only added. -/
structure Kept (g g' : TaskScheduler F V) : Prop where
  fired : g'.fired = g.fired
  clock : g.clock.tm ≤ g'.clock.tm
  cronTasks : g.cronTasks <+: g'.cronTasks

theorem Kept.of_eq (hfired : g'.fired = g.fired) (hclock : g'.clock = g.clock)
    (hcron : g'.cronTasks = g.cronTasks) : g.Kept g' := by
  refine ⟨hfired, ?_, ?_⟩
  · rw [hclock]
  · rw [hcron]

theorem kept_record (g : TaskScheduler F V) (place : Place F V) (ex : Execution F V) :
    g.Kept (g.record place ex) := by
  unfold record
  split_ifs <;> exact .of_eq rfl rfl rfl

theorem Settled.kept (h : g.Settled lastCronMinute) (hk : g.Kept g') :
    g'.Settled lastCronMinute := by
  unfold Settled
  rw [hk.fired]
  exact fun f hf => (h f hf).imp_left fun hlt => lt_of_lt_of_le hlt hk.clock

theorem InCron.kept (h : g.InCron pass i) (hk : g.Kept g') : g'.InCron pass i := by
  refine ⟨le_trans h.le hk.clock, h.last, ?_⟩
  rw [hk.fired]
  exact h.before

theorem FiringInv.kept (h : g.FiringInv) (hk : g.Kept g') : g'.FiringInv := by
  refine ⟨⟨?_, fun f hf => ?_⟩, fun f hf => ?_, fun f hf => ?_⟩
  · rw [hk.fired]
    exact h.once
  · rw [hk.fired] at hf
    obtain ⟨task, htask, hnow⟩ := h.inPass f hf
    obtain ⟨more, hmore⟩ := hk.cronTasks
    refine ⟨task, ?_, hnow⟩
    rw [← hmore, List.getElem?_append_left (List.getElem?_eq_some_iff.mp htask).1, htask]
  · rw [hk.fired] at hf
    exact le_trans (h.le f hf) hk.clock
  · rw [hk.fired] at hf
    exact h.reading f hf

end TaskScheduler

open TaskScheduler

theorem LoopAt.Good.kept (h : l.Good g) (hk : g.Kept g') : l.Good g' := by
  cases l with
  | starting => exact hk.fired.trans h
  | visiting pass place =>
    cases place with
    | cron i => exact InCron.kept h hk
    | _ => exact Settled.kept h hk
  | executing pass place job =>
    cases place with
    | cron i => exact InCron.kept h hk
    | _ => exact Settled.kept h hk
  | stopped | dead _ => trivial
  | _ => exact Settled.kept h hk

theorem LoopMove.good (h : LoopMove g l env g' l') (hinv : g.FiringInv) (hl : l.Good g) :
    l'.Good g' := by
  cases h with
  | size =>
    intro f hf
    rw [show g.fired = [] from hl] at hf
    cases hf
  | enter _ hminute => exact ⟨le_refl _, rfl, fun f hf => .inl (hl.enter hinv hminute f hf)⟩
  | cronEnd _ => exact hl.settled
  | cronSkip _ _ => exact hl.succ
  | cronFire _ _ => exact hl.fire _
  | @finish pass place job _ _ =>
    have hk := g.kept_record place (executeWithRetry job env)
    cases place with
    | cron i => exact InCron.kept hl hk
    | _ => exact Settled.kept hl hk
  | stop _ | intervalDie _ _ | exit _ => trivial
  | _ => exact hl

theorem LoopMove.firingInv (h : LoopMove g l env g' l') (hinv : g.FiringInv) (hl : l.Good g)
    (hminute : l.InMinute g) : g'.FiringInv := by
  cases h with
  | cronFire htask hnow => exact hinv.fire hl htask hnow (hminute _ htask hnow)
  | finish _ | exit _ => exact hinv.kept (g.kept_record _ _)
  | intervalRun _ _ | oneShotTake _ _ | swap => exact hinv.kept (.of_eq rfl rfl rfl)
  | _ => exact hinv

theorem Producer.kept {p p' : Producer F V} {k : Nat} (h : p.next g k = some (g', p')) :
    g.Kept g' := by
  cases p with
  | returned sub number => cases h
  | _ =>
    cases h
    exact .of_eq rfl rfl rfl

namespace System

variable {c c' : System F V} {a : Action F V}

structure FiringInv (c : System F V) : Prop where
  shared : c.shared.FiringInv
  loop : c.loop.Good c.shared

theorem FiringInv.kept (h : FiringInv c) (hk : c.shared.Kept g) (producers : List (Producer F V)) :
    FiringInv ⟨g, c.loop, producers⟩ :=
  ⟨h.shared.kept hk, h.loop.kept hk⟩

theorem FiringInv.step (h : FiringInv c) (hminute : c.InMinute a) (hstep : step c a = some c') :
    FiringInv c' := by
  cases a with
  | loop env =>
    obtain ⟨g, l, hmove, rfl⟩ := step_loop hstep
    exact ⟨hmove.firingInv h.shared h.loop hminute, hmove.good h.shared h.loop⟩
  | produce k =>
    obtain ⟨p, g, p', -, hnext, rfl⟩ := step_produce hstep
    exact h.kept (Producer.kept hnext) _
  | tick reading =>
    obtain ⟨-, hle, rfl⟩ := step_tick hstep
    refine h.kept ?_ _
    exact ⟨rfl, hle, List.prefix_rfl⟩
  | cron task =>
    cases hstep
    refine h.kept ?_ _
    exact ⟨rfl, le_refl _, List.prefix_append _ _⟩
  | interval task | submit sub | stop =>
    cases hstep
    refine h.kept ?_ _
    exact .of_eq rfl rfl rfl

theorem firingInv_start (clock : Reading) : FiringInv (start clock : System F V) :=
  ⟨⟨⟨.nil, fun _ h => absurd h List.not_mem_nil⟩, fun _ h => absurd h List.not_mem_nil,
    fun _ h => absurd h List.not_mem_nil⟩, rfl⟩

/-- A run in which every matching comparison is made within the minute of its pass executes no cron
task twice for one minute, and none in the pass of a minute it does not match. -/
theorem firesOnce_of_inMinute {clock : Reading} {as : List (Action F V)}
    (h : Along System.step InMinute (start clock) as) :
    Always System.step (fun c => c.shared.FiresOnce) (start clock) as :=
  h.always (fun _ _ _ h hminute hstep => h.step hminute hstep)
    (fun _ h => h.shared.toFiresOnce) (firingInv_start clock)

/-- One minute into the year. -/
def minuteLater : Reading := ⟨60000000100, ⟨2025, 0, 0, 1, newYear.tm.day_lt⟩⟩

/-- `0 0 1 1 3` and `1 0 1 1 3`. -/
def greeting : CronTask Unit := ⟨⟨{0}, {0}, {1}, {1}, {3}⟩, (), .noRetries, "greeting"⟩

def afterwards : CronTask Unit := ⟨⟨{1}, {0}, {1}, {1}, {3}⟩, (), .noRetries, "afterwards"⟩

/-- The first pass ends within its minute. -/
def punctualRun : List (Action Unit Nat) :=
  [.cron greeting, .cron afterwards] ++ List.replicate 9 (.loop quiet) ++
    [.tick minuteLater] ++ List.replicate 5 (.loop quiet)

theorem punctualRun_firesOnce :
    Always System.step (fun c => c.shared.FiresOnce) (start newYear) punctualRun :=
  firesOnce_of_inMinute (by decide)

/-- The first task takes until the next minute. -/
def crossingRun : List (Action Unit Nat) :=
  [.cron greeting, .cron afterwards] ++ List.replicate 3 (.loop quiet) ++
    [.tick minuteLater] ++ List.replicate 11 (.loop quiet)

theorem crossingRun_fires_twice :
    ¬ Always System.step (fun c => c.shared.FiresOnce) (start newYear) crossingRun := by
  intro h
  have hrun : (exec System.step (start newYear) crossingRun).map (fun c => c.shared.fired) =
      some [⟨1, minuteLater.tm, minuteLater.tm⟩, ⟨1, newYear.tm, minuteLater.tm⟩,
        ⟨0, newYear.tm, newYear.tm⟩] := rfl
  obtain ⟨c, hexec, hfired⟩ := Option.map_eq_some_iff.mp hrun
  have honce := (h.final hexec).once
  rw [hfired] at honce
  exact (List.pairwise_cons.mp honce).1 _ List.mem_cons_self ⟨rfl, rfl⟩

end System

end Hypern.Scheduler
