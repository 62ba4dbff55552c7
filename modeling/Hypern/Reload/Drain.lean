import Hypern.Reload.InFlight

/-! Draining: what the result of `wait_for_drain` says about the requests of a worker. -/

namespace Hypern.Reload

open Lib

/-- The request that took the counter to zero, before it has woken the waiters. -/
def Task.isPending : Task → Bool
  | .request (.decremented remaining) => remaining == 0
  | .request .notifying => true
  | _ => false

def Task.isRegistered : Task → Bool
  | .wait (.registered _) => true
  | _ => false

namespace Worker

variable {c c' : Worker} {m m' : Manager} {t t' : Task} {i : Nat} {choice : Choice}

/-- The actions of requests that run to completion, of `start_drain` and of `wait_for_drain`. -/
def OfDrain : Action → Prop
  | .spawn .reset => False
  | .move _ .abandon => False
  | _ => True

/-- Once `wait_for_drain` has returned `true` on a draining worker, no request is active. -/
def Drained (c : Worker) : Prop := .wait (.returned true true) ∈ c.threads → c.active = 0

/-- If `wait_for_drain` is about to return `false`, a request is active. -/
def BusyAtTimeout (c : Worker) (a : Action) : Prop :=
  ∀ i calls, a = .move i .timeout → c.threads[i]? = some (.wait (.registered calls)) →
    0 < c.active

/-- The order in which the steps must come: `wait_for_drain` looks at the counter when every
request that passed the draining check is counted, and finds requests in flight only after
`start_drain`; a wake-up for the last request neither falls between that look and the
registration nor reaches a waiter while a request is active; and the timeout fires neither after
a wake-up nor while one is due. -/
def InOrder (c : Worker) : Task → Choice → Prop
  | .request .passed, .run => c.active + 1 < 2 ^ 64
  | .wait .called, .run =>
    (c.shared.draining = true → .request .passed ∉ c.threads) ∧
    (c.shared.inFlight ≠ 0 → c.shared.draining = true)
  | .request .notifying, .run =>
    (c.active = 0 → .wait .checked ∉ c.threads) ∧
    (c.active ≠ 0 → ∀ t ∈ c.threads, t.isRegistered = false)
  | .wait (.registered calls), .timeout =>
    c.shared.notifyCalls = calls ∧ ∀ t ∈ c.threads, t.isPending = false
  | _, _ => True

def Orderly (c : Worker) : Action → Prop
  | .spawn _ => True
  | .move i choice => ∀ t ∈ c.threads[i]?, InOrder c t choice

instance (a : Action) : Decidable (OfDrain a) := by
  unfold OfDrain
  split <;> infer_instance

instance (t : Task) (choice : Choice) : Decidable (InOrder c t choice) := by
  unfold InOrder
  split <;> infer_instance

instance (a : Action) : Decidable (Orderly c a) := by
  unfold Orderly
  split <;> infer_instance

/-! ## The invariant -/

/-- The flag is up, and nobody passed the draining check without being counted since. -/
def Settled (c : Worker) : Prop := c.shared.draining = true ∧ .request .passed ∉ c.threads

/-- Some request is about to wake the waiters. -/
def Due (c : Worker) : Prop := ∃ t ∈ c.threads, t.isPending = true

def TaskOk (c : Worker) : Task → Prop
  | .wait .checked => Settled c ∧ (c.active = 0 → Due c)
  | .wait (.registered calls) => Settled c ∧
      (calls < c.shared.notifyCalls ∧ c.active = 0 ∨
        calls = c.shared.notifyCalls ∧ (c.active = 0 → Due c))
  | .wait (.returned true true) => Settled c ∧ c.active = 0
  | .reset _ => False
  | _ => True

structure DrainInv (c : Worker) : Prop where
  counted : InFlightExact c
  tasks : ∀ t ∈ c.threads, TaskOk c t

/-- What a step must keep of a settled worker for the tasks that do not move. -/
theorem TaskOk.mono (h : TaskOk c t) (hsettled : Settled c → Settled c')
    (hcalls : Settled c → c'.shared.notifyCalls = c.shared.notifyCalls)
    (hzero : Settled c → (c'.active = 0 ↔ c.active = 0)) (hdue : Settled c → Due c → Due c') :
    TaskOk c' t := by
  unfold TaskOk at *
  split at h
  · exact ⟨hsettled h.1, fun hz => hdue h.1 (h.2 ((hzero h.1).mp hz))⟩
  · rw [hcalls h.1, hzero h.1]
    exact ⟨hsettled h.1, h.2.imp_right fun hsame => ⟨hsame.1, fun hz => hdue h.1 (hsame.2 hz)⟩⟩
  · exact ⟨hsettled h.1, (hzero h.1).mpr h.2⟩
  · exact h
  · trivial

/-- Before the worker is settled, nobody waits for a wake-up or was told that it is drained. -/
theorem TaskOk.of_not_settled (h : TaskOk c t) (hnot : ¬ Settled c) : TaskOk c' t :=
  h.mono (absurd · hnot) (absurd · hnot) (absurd · hnot) (absurd · hnot)

theorem taskOk_start {kind : Kind} (h : OfDrain (.spawn kind)) : TaskOk c kind.start := by
  cases kind with
  | reset => exact h
  | _ => trivial

theorem taskOk_returned {draining : Bool} (h : draining = true → Settled c ∧ c.active = 0) :
    TaskOk c (.wait (.returned true draining)) := by
  cases draining with
  | false => trivial
  | true => exact h rfl

theorem settled_set (h : Settled c) (hdrain : m.draining = c.shared.draining)
    (ht' : t' ≠ .request .passed) : Settled ⟨m, c.threads.set i t'⟩ := by
  refine ⟨hdrain.trans h.1, fun hmem => ?_⟩
  rcases List.mem_or_eq_of_mem_set hmem with hmem | heq
  · exact h.2 hmem
  · exact ht' heq.symm

/-- A task that was about to wake the waiters still is, unless it is the one that moved. -/
theorem due_set (ht : c.threads[i]? = some t) (h : Due c)
    (hmoved : t.isPending = true → t'.isPending = true) : Due ⟨m, c.threads.set i t'⟩ := by
  obtain ⟨x, hx, hpending⟩ := h
  have hmem := List.mem_set (List.getElem?_eq_some_iff.mp ht).1 t'
  rcases eq_or_mem_set ht hx t' with rfl | hx
  · exact ⟨t', hmem, hmoved hpending⟩
  · exact ⟨x, hx, hpending⟩

theorem active_set_of_eq (ht : c.threads[i]? = some t) (h : t'.isActive = t.isActive) :
    active ⟨m, c.threads.set i t'⟩ = c.active :=
  countP_set_of_eq Task.isActive ht h

/-! ## The moves -/

/-- A move that changes neither the flag nor the calls nor what is active. -/
theorem tasks_quiet (h : DrainInv c) (ht : c.threads[i]? = some t)
    (hactive : t'.isActive = t.isActive) (hdrain : m.draining = c.shared.draining)
    (hcalls : m.notifyCalls = c.shared.notifyCalls) (hpassed : t' ≠ .request .passed)
    (hpending : c.shared.draining = true → t.isPending = true → t'.isPending = true)
    (hok : TaskOk ⟨m, c.threads.set i t'⟩ t') :
    ∀ x ∈ c.threads.set i t', TaskOk ⟨m, c.threads.set i t'⟩ x := by
  refine forall_mem_set (fun x hx => ?_) hok
  refine (h.tasks x hx).mono (fun hs => settled_set hs hdrain hpassed) (fun _ => hcalls) ?_ ?_
  · intro _
    rw [active_set_of_eq ht hactive]
  · exact fun hs hdue => due_set ht hdue (hpending hs.1)

/-- A move of a worker that is not settled wakes nobody. -/
theorem tasks_not_settled (h : DrainInv c) (hnot : ¬ Settled c) (hok : TaskOk c' t') :
    ∀ x ∈ c.threads.set i t', TaskOk c' x :=
  forall_mem_set (fun x hx => (h.tasks x hx).of_not_settled hnot) hok

theorem remaining_eq_zero_iff (h : 0 < m.inFlight.toNat) :
    m.remaining = 0 ↔ m.decrementInFlight.inFlight = 0 := by
  have hne : m.inFlight ≠ 0 := by
    rintro heq
    rw [heq] at h
    exact absurd h (Nat.lt_irrefl 0)
  unfold Manager.remaining
  rw [if_neg hne]
  rfl

/-- The request that leaves no other active one behind is about to wake the waiters. -/
theorem tasks_complete (h : DrainInv c) (ht : c.threads[i]? = some (.request .handled))
    (hcounted : InFlightExact ⟨c.shared.decrementInFlight,
      c.threads.set i (.request (.decremented c.shared.remaining))⟩) :
    ∀ x ∈ c.threads.set i (.request (.decremented c.shared.remaining)),
      TaskOk ⟨c.shared.decrementInFlight,
        c.threads.set i (.request (.decremented c.shared.remaining))⟩ x := by
  have hpos : 0 < c.active := active_pos ht rfl
  have hmem := List.mem_set (List.getElem?_eq_some_iff.mp ht).1
    (.request (.decremented c.shared.remaining))
  have hlast : active ⟨c.shared.decrementInFlight,
      c.threads.set i (.request (.decremented c.shared.remaining))⟩ = 0 →
      Due ⟨c.shared.decrementInFlight,
        c.threads.set i (.request (.decremented c.shared.remaining))⟩ := by
    intro hzero
    refine ⟨_, hmem, beq_iff_eq.mpr ?_⟩
    rw [remaining_eq_zero_iff (h.counted ▸ hpos)]
    exact UInt64.toNat_inj.mp (hcounted.trans hzero)
  refine forall_mem_set (fun x hx => ?_) trivial
  have hx := h.tasks x hx
  unfold TaskOk at hx ⊢
  split at hx
  · exact ⟨settled_set hx.1 rfl nofun, hlast⟩
  · rcases hx.2 with hwoken | hsame
    · exact absurd hwoken.2 (Nat.pos_iff_ne_zero.mp hpos)
    · exact ⟨settled_set hx.1 rfl nofun, .inr ⟨hsame.1, hlast⟩⟩
  · exact absurd hx.2 (Nat.pos_iff_ne_zero.mp hpos)
  · exact hx
  · trivial

/-- The wake-up reaches everybody who waits. -/
theorem tasks_notify (h : DrainInv c) (ht : c.threads[i]? = some (.request .notifying))
    (ha : InOrder c (.request .notifying) .run) :
    ∀ x ∈ c.threads.set i (.request .responded),
      TaskOk ⟨{ c.shared with notifyCalls := c.shared.notifyCalls + 1 },
        c.threads.set i (.request .responded)⟩ x := by
  obtain ⟨hlost, hstale⟩ := ha
  refine forall_mem_set (fun x hmem => ?_) trivial
  have hx := h.tasks x hmem
  have hactive : active ⟨{ c.shared with notifyCalls := c.shared.notifyCalls + 1 },
      c.threads.set i (.request .responded)⟩ = c.active := active_set_of_eq ht rfl
  unfold TaskOk at hx ⊢
  rw [hactive]
  split at hx
  · exact ⟨settled_set hx.1 rfl nofun, fun hzero => absurd hmem (hlost hzero)⟩
  · have hzero : c.active = 0 := by
      by_contra hne
      cases hstale hne _ hmem
    refine ⟨settled_set hx.1 rfl nofun, .inl ⟨?_, hzero⟩⟩
    rcases hx.2 with hwoken | hsame
    · exact Nat.lt_succ_of_lt hwoken.1
    · exact hsame.1 ▸ Nat.lt_succ_self _
  · exact ⟨settled_set hx.1 rfl nofun, hx.2⟩
  · exact hx
  · trivial

theorem counted_move (h : DrainInv c) (ht : c.threads[i]? = some t)
    (hmove : Move c.shared t choice m t') (ha : InOrder c t choice)
    (hdomain : OfDrain (.move i choice)) : InFlightExact ⟨m, c.threads.set i t'⟩ := by
  refine (exact_move_iff h.counted ht hmove).mpr ((completes_move ht).mpr ⟨?_, ?_⟩)
  · rintro rfl
    exact hdomain.elim
  · rintro rfl rfl
    exact ha

theorem tasks_move (h : DrainInv c) (ht : c.threads[i]? = some t)
    (hmove : Move c.shared t choice m t') (ha : InOrder c t choice)
    (hdomain : OfDrain (.move i choice)) :
    ∀ x ∈ c.threads.set i t', TaskOk ⟨m, c.threads.set i t'⟩ x := by
  have hmoved : TaskOk c t := h.tasks t (List.mem_of_getElem? ht)
  have hcounted : m.inFlight.toNat = _ := counted_move h ht hmove ha hdomain
  have hactive : t'.isActive = t.isActive → active ⟨m, c.threads.set i t'⟩ = c.active :=
    active_set_of_eq ht
  cases hmove with
  | reject hdrain => exact tasks_quiet h ht rfl rfl rfl nofun nofun trivial
  | pass hdrain =>
    -- a request passes the check only while the flag is down, when no waiter is settled
    refine tasks_not_settled h (fun hs => ?_) trivial
    rw [hs.1] at hdrain
    cases hdrain
  | enter => exact tasks_not_settled h (fun hs => hs.2 (List.mem_of_getElem? ht)) trivial
  | handle => exact tasks_quiet h ht rfl rfl rfl nofun nofun trivial
  | complete => exact tasks_complete h ht hcounted
  | last hdrain hzero => exact tasks_quiet h ht rfl rfl rfl nofun (fun _ _ => rfl) trivial
  | respond hnot =>
    refine tasks_quiet h ht rfl rfl rfl nofun (fun hdrain hpending => ?_) trivial
    rcases hnot with hflag | hne
    · rw [hflag] at hdrain
      cases hdrain
    · exact absurd (beq_iff_eq.mp hpending) hne
  | notify => exact tasks_notify h ht ha
  | dropArrived | dropHandling | dropHandled => exact hdomain.elim
  | drainAgain hdrain => exact tasks_quiet h ht rfl rfl rfl nofun nofun trivial
  | takeFlag hflag =>
    refine tasks_not_settled h (fun hs => ?_) trivial
    rw [hs.1] at hflag
    cases hflag
  | markDraining => exact tasks_quiet h ht rfl rfl rfl nofun nofun trivial
  | idle hzero =>
    refine tasks_quiet h ht rfl rfl rfl nofun nofun (taskOk_returned fun hdrain => ?_)
    refine ⟨settled_set ⟨hdrain, ha.1 hdrain⟩ rfl nofun, ?_⟩
    rw [hactive rfl, ← h.counted, hzero]
    rfl
  | busy hne =>
    have hdrain := ha.2 hne
    refine tasks_quiet h ht rfl rfl rfl nofun nofun
      ⟨settled_set ⟨hdrain, ha.1 hdrain⟩ rfl nofun, fun hzero => ?_⟩
    have hinFlight : c.shared.inFlight.toNat = 0 := hcounted.trans hzero
    exact absurd (UInt64.toNat_inj.mp hinFlight) hne
  | register =>
    refine tasks_quiet h ht rfl rfl rfl nofun nofun
      ⟨settled_set hmoved.1 rfl nofun, .inr ⟨rfl, fun hzero => ?_⟩⟩
    have hbefore : c.active = 0 := (hactive rfl).symm.trans hzero
    exact due_set ht (hmoved.2 hbefore) nofun
  | wake hne =>
    refine tasks_quiet h ht rfl rfl rfl nofun nofun (taskOk_returned fun _ => ?_)
    refine ⟨settled_set hmoved.1 rfl nofun, ?_⟩
    -- a waiter is woken only after the last request, and none is admitted any more
    rcases hmoved.2 with hwoken | hsame
    · exact (hactive rfl).trans hwoken.2
    · exact absurd hsame.1.symm hne
  | timeOut => exact tasks_quiet h ht rfl rfl rfl nofun nofun trivial
  | clearFlag | resetHealthy => exact hmoved.elim
  | markHealthy => exact tasks_quiet h ht rfl rfl rfl nofun nofun trivial
  | answer => exact tasks_quiet h ht rfl rfl rfl nofun nofun trivial

theorem drainInv_spawn {kind : Kind} (h : DrainInv c) (hdomain : OfDrain (.spawn kind)) :
    DrainInv ⟨c.shared, c.threads ++ [kind.start]⟩ := by
  have hactive := active_spawn (c := c) kind
  refine ⟨h.counted.trans hactive.symm, fun t ht => ?_⟩
  rcases List.mem_append.mp ht with ht | ht
  · refine (h.tasks t ht).mono (fun hs => ⟨hs.1, fun hmem => ?_⟩) (fun _ => rfl)
      (fun _ => hactive ▸ Iff.rfl) ?_
    · rcases List.mem_append.mp hmem with hmem | hmem
      · exact hs.2 hmem
      · cases kind <;> simp [Kind.start] at hmem
    · rintro - ⟨x, hx, hpending⟩
      exact ⟨x, List.mem_append_left _ hx, hpending⟩
  · rw [List.mem_singleton.mp ht]
    exact taskOk_start hdomain

theorem drainInv_step {a : Action} (h : DrainInv c) (ha : Orderly c a) (hdomain : OfDrain a)
    (hstep : step c a = some c') : DrainInv c' := by
  rcases step_cases hstep with ⟨kind, rfl, rfl⟩ | ⟨i, choice, t, m, t', rfl, ht, hmove, rfl⟩
  · exact drainInv_spawn h hdomain
  · exact ⟨counted_move h ht hmove (ha t ht) hdomain, tasks_move h ht hmove (ha t ht) hdomain⟩

theorem drainInv_start : DrainInv start := by
  refine ⟨exact_start, fun t ht => ?_⟩
  rw [List.mem_singleton.mp ht]
  trivial

theorem drained (h : DrainInv c) : Drained c := fun hmem => (h.tasks _ hmem).2

/-- A waiter that has not been woken, with no wake-up due, still waits for a request. -/
theorem busyAtTimeout {a : Action} (h : DrainInv c) (ha : Orderly c a) : BusyAtTimeout c a := by
  intro i calls hmove ht
  subst hmove
  obtain ⟨hcalls, hpending⟩ := ha _ ht
  have hok := h.tasks _ (List.mem_of_getElem? ht)
  rcases hok.2 with hwoken | hsame
  · exact absurd hcalls.symm (Nat.ne_of_lt hwoken.1)
  · refine Nat.pos_of_ne_zero fun hzero => ?_
    obtain ⟨x, hx, hdue⟩ := hsame.2 hzero
    rw [hpending x hx] at hdue
    cases hdue

theorem drain_sound_of_orderly (actions : List Action) (hdomain : ∀ a ∈ actions, OfDrain a)
    (h : Along step Orderly start actions) :
    Always step Drained start actions ∧ Along step BusyAtTimeout start actions := by
  have hall := (Along.of_forall (fun a ha _ => hdomain a ha) start).and h
  refine ⟨?_, ?_⟩
  · exact hall.always (fun _ _ _ hs ha hstep => drainInv_step hs ha.2 ha.1 hstep)
      (fun _ => drained) drainInv_start
  · exact hall.strengthen (fun _ _ _ hs ha hstep => drainInv_step hs ha.2 ha.1 hstep)
      (fun _ _ hs ha => busyAtTimeout hs ha.2) drainInv_start

/-- A request is handled while the worker drains, and wakes the waiter when it is done. -/
def drainedRun : List Action :=
  [.spawn .request, .move 1 .run, .move 1 .run, .spawn .drain, .move 2 .run, .move 2 .run,
    .spawn .wait, .move 3 .run, .move 3 .run, .move 1 .run, .move 1 .run, .move 1 .run,
    .move 1 .run, .move 3 .run]

theorem drainedRun_sound :
    (∀ a ∈ drainedRun, OfDrain a) ∧ Along step Orderly start drainedRun ∧
      Always step Drained start drainedRun ∧ Along step BusyAtTimeout start drainedRun :=
  ⟨by decide, by decide, drain_sound_of_orderly drainedRun (by decide) (by decide)⟩

/-- The request passes the draining check before `start_drain`, and is counted only after
`wait_for_drain` has returned `true`. -/
def admittedLate : List Action :=
  [.spawn .request, .move 1 .run, .spawn .drain, .move 2 .run, .move 2 .run, .spawn .wait,
    .move 3 .run, .move 1 .run]

theorem admittedLate_not_drained :
    (∀ a ∈ admittedLate, OfDrain a) ∧
      ¬ (Always step Drained start admittedLate ∧ Along step BusyAtTimeout start admittedLate) := by
  refine ⟨by decide, ?_⟩
  rintro ⟨h, -⟩
  have hfinal : Drained ⟨⟨.draining, 1, true, 0⟩, [.graceTimer false, .request .handling,
      .drain .done, .wait (.returned true true)]⟩ := h.final rfl
  exact absurd (hfinal (by decide)) (by decide)

end Worker

end Hypern.Reload
