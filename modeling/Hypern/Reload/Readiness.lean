import Hypern.Reload.Worker

/-! The draining flag and the health status are two variables: when the readiness probe
follows the flag. -/

namespace Hypern.Reload.Worker

open Lib

variable {c c' : Worker} {m : Manager} {t t' : Task} {i : Nat} {choice : Choice}

/-- A call of `reset_after_reload` has returned, and none is between its two writes. -/
def AfterReset (c : Worker) : Prop :=
  .reset .done ∈ c.threads ∧ .reset .cleared ∉ c.threads

structure ReadinessSound (c : Worker) : Prop where
  draining : c.shared.draining = true → c.shared.readinessCode = 503
  reset : AfterReset c → c.shared.draining = false → c.shared.status ≠ .draining

/-- The flag is taken while the status is not `Healthy`, `Healthy` is written while the flag is
down, and `Draining` is not written after a reset that took the flag down. -/
def Coordinated (c : Worker) (a : Action) : Prop :=
  ∀ i, a = .move i .run →
    (c.threads[i]? = some (.drain .called) → c.shared.draining = false →
      c.shared.status ≠ .healthy) ∧
    (c.threads[i]? = some (.graceTimer false) ∨ c.threads[i]? = some (.reset .cleared) →
      c.shared.draining = false) ∧
    (c.threads[i]? = some (.drain .taken) → AfterReset c → c.shared.draining = true)

theorem readinessCode_eq_503 (m : Manager) : m.readinessCode = 503 ↔ m.status ≠ .healthy := by
  unfold Manager.readinessCode HealthStatus.isReady
  cases m.status <;> simp

theorem coordinated_move (ht : c.threads[i]? = some t) :
    Coordinated c (.move i choice) ↔ (choice = .run →
      (t = .drain .called → c.shared.draining = false → c.shared.status ≠ .healthy) ∧
      (t = .graceTimer false ∨ t = .reset .cleared → c.shared.draining = false) ∧
      (t = .drain .taken → AfterReset c → c.shared.draining = true)) := by
  constructor
  · rintro h rfl
    have hi := h i rfl
    rw [ht] at hi
    simpa only [Option.some.injEq] using hi
  · intro h j hj
    cases hj
    rw [ht]
    simpa only [Option.some.injEq] using h rfl

/-- Only `reset_after_reload` itself changes where its calls are. -/
theorem afterReset_set (ht : c.threads[i]? = some t) (hold : ∀ pc, t ≠ .reset pc)
    (hnew : ∀ pc, t' ≠ .reset pc) : AfterReset ⟨m, c.threads.set i t'⟩ ↔ AfterReset c := by
  unfold AfterReset
  rw [mem_set_iff_of_ne ht (hold _).symm (hnew _).symm,
    mem_set_iff_of_ne ht (hold _).symm (hnew _).symm]

theorem readiness_frame (h : ReadinessSound c) (hstatus : m.status = c.shared.status)
    (hdraining : m.draining = c.shared.draining) {threads : List Task}
    (hreset : AfterReset ⟨m, threads⟩ ↔ AfterReset c) : ReadinessSound ⟨m, threads⟩ := by
  refine ⟨fun hdrain => ?_, fun hafter hdrain => ?_⟩
  · rw [readinessCode_eq_503, hstatus, ← readinessCode_eq_503]
    exact h.draining (hdraining ▸ hdrain)
  · rw [hstatus]
    exact h.reset (hreset.mp hafter) (hdraining ▸ hdrain)

theorem readiness_move_iff (h : ReadinessSound c) (ht : c.threads[i]? = some t)
    (hmove : Move c.shared t choice m t') :
    ReadinessSound ⟨m, c.threads.set i t'⟩ ↔ Coordinated c (.move i choice) := by
  rw [coordinated_move ht]
  have hi := (List.getElem?_eq_some_iff.mp ht).1
  cases hmove with
  | takeFlag hflag =>
    constructor
    · intro h'
      exact fun _ => ⟨fun _ _ => (readinessCode_eq_503 _).mp (h'.draining rfl), nofun, nofun⟩
    · intro hC
      exact ⟨fun _ => (readinessCode_eq_503 _).mpr ((hC rfl).1 rfl hflag), nofun⟩
  | markDraining =>
    have hreset : AfterReset ⟨{ c.shared with status := .draining },
        c.threads.set i (.drain .done)⟩ ↔ AfterReset c := afterReset_set ht nofun nofun
    constructor
    · intro h' _
      refine ⟨nofun, nofun, fun _ hafter => ?_⟩
      by_contra hdrain
      exact h'.reset (hreset.mpr hafter) (Bool.eq_false_iff.mpr hdrain) rfl
    · intro hC
      refine ⟨fun _ => rfl, fun hafter hdrain => ?_⟩
      have htrue := (hC rfl).2.2 rfl (hreset.mp hafter)
      rw [show c.shared.draining = false from hdrain] at htrue
      cases htrue
  | clearFlag =>
    refine iff_of_true ⟨nofun, fun hafter _ => ?_⟩ fun _ => ⟨nofun, nofun, nofun⟩
    exact absurd (List.mem_set hi _) hafter.2
  | resetHealthy | markHealthy =>
    constructor
    · intro h' _
      refine ⟨nofun, fun _ => ?_, nofun⟩
      by_contra hdrain
      exact (readinessCode_eq_503 _).mp (h'.draining ((Bool.not_eq_false _).mp hdrain)) rfl
    · intro hC
      refine ⟨fun hdrain => ?_, fun _ _ => nofun⟩
      have hfalse := (hC rfl).2.1 (by simp)
      rw [show c.shared.draining = true from hdrain] at hfalse
      cases hfalse
  | drainAgain hflag =>
    refine iff_of_true ?_ fun _ => ⟨fun _ hdrain => ?_, nofun, nofun⟩
    · exact readiness_frame h rfl rfl (afterReset_set ht nofun nofun)
    · rw [hflag] at hdrain
      cases hdrain
  | _ =>
    refine iff_of_true ?_ fun _ => ⟨nofun, nofun, nofun⟩
    refine readiness_frame h ?_ ?_ (afterReset_set ht nofun nofun) <;> rfl

theorem readiness_step_iff {a : Action} (h : ReadinessSound c) (hstep : step c a = some c') :
    ReadinessSound c' ↔ Coordinated c a := by
  rcases step_cases hstep with ⟨kind, rfl, rfl⟩ | ⟨i, choice, t, m, t', rfl, ht, hmove, rfl⟩
  · refine iff_of_true (readiness_frame h rfl rfl ?_) nofun
    unfold AfterReset
    cases kind <;> simp [Kind.start]
  · exact readiness_move_iff h ht hmove

theorem readiness_start : ReadinessSound start := ⟨nofun, fun _ _ => nofun⟩

/-- An action that breaks the condition can be carried out. -/
theorem coordinated_of_enabled {a : Action} (h : ∀ c', step c a = some c' → Coordinated c a) :
    Coordinated c a := by
  rintro i rfl
  have hC {t t' : Task} {m : Manager} (ht : c.threads[i]? = some t)
      (hnext : t.next c.shared .run = some (m, t')) := h _ (step_move ht hnext) i rfl
  refine ⟨fun ht hdrain => ?_, fun ht => ?_, fun ht => ?_⟩
  · have hnext : Task.next c.shared (.drain .called) .run =
        some ({ c.shared with draining := true }, .drain .taken) := by
      rw [Task.next, DrainAt.next, hdrain]
      rfl
    exact (hC ht hnext).1 ht hdrain
  · rcases ht with ht | ht
    · exact (hC ht rfl).2.1 (.inl ht)
    · exact (hC ht rfl).2.1 (.inr ht)
  · exact (hC ht rfl).2.2 ht

theorem readinessSound_iff_coordinated (actions : List Action) :
    Always step ReadinessSound start actions ↔ Along step Coordinated start actions := by
  rw [always_iff_along (fun _ => True) readiness_start trivial
    (fun _ _ _ _ _ => trivial) fun _ _ _ _ h hstep => readiness_step_iff h hstep]
  constructor
  · exact Along.mono fun c a => coordinated_of_enabled
  · exact Along.mono fun _ _ h _ _ => h

/-- A reload within the startup grace period: the timer fires after `start_drain`. -/
def drainedWhileStarting : List Action :=
  [.spawn .drain, .move 1 .run, .move 1 .run, .move 0 .run]

theorem ready_while_draining : ¬ Always step ReadinessSound start drainedWhileStarting := by
  intro h
  have hfinal : ReadinessSound ⟨⟨.healthy, 0, true, 0⟩, [.graceTimer true, .drain .done]⟩ :=
    h.final rfl
  cases hfinal.draining rfl

end Hypern.Reload.Worker
