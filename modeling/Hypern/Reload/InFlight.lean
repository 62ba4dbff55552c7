import Hypern.Reload.Worker

/-! In-flight accounting: when the counter of a worker is the number of its active
requests. -/

namespace Hypern.Reload.Worker

open Lib

variable {c c' : Worker} {m : Manager} {t t' : Task} {i : Nat} {choice : Choice}

def InFlightExact (c : Worker) : Prop := c.shared.inFlight.toNat = c.active

/-- The counter is not at its limit before an increment, nor at zero before a decrement. -/
def NoWrap (c : Worker) (a : Action) : Prop :=
  ∀ i, a = .move i .run →
    (c.threads[i]? = some (.request .passed) → c.shared.inFlight.toNat + 1 < 2 ^ 64) ∧
    (c.threads[i]? = some (.request .handled) → 0 < c.shared.inFlight.toNat)

/-- No active request is abandoned, and the request admitted is not the `2 ^ 64`-th at a time. -/
def Completes (c : Worker) (a : Action) : Prop :=
  (∀ i t, a = .move i .abandon → c.threads[i]? = some t → t.isActive = false) ∧
  ∀ i, a = .move i .run → c.threads[i]? = some (.request .passed) → c.active + 1 < 2 ^ 64

/-! ## What a move does to the two numbers -/

theorem active_set (ht : c.threads[i]? = some t) (m : Manager) (t' : Task) :
    active ⟨m, c.threads.set i t'⟩ + (if t.isActive then 1 else 0) =
      c.active + if t'.isActive then 1 else 0 :=
  countP_set_add Task.isActive ht t'

theorem toNat_incrementInFlight (m : Manager) :
    m.incrementInFlight.inFlight.toNat = (m.inFlight.toNat + 1) % 2 ^ 64 :=
  UInt64.toNat_add _ _

theorem toNat_decrementInFlight (h : 0 < m.inFlight.toNat) :
    m.decrementInFlight.inFlight.toNat + 1 = m.inFlight.toNat := by
  have hle : (1 : UInt64) ≤ m.inFlight := UInt64.le_iff_toNat_le.mpr h
  change (m.inFlight - 1).toNat + 1 = _
  rw [UInt64.toNat_sub_of_le _ _ hle, UInt64.toNat_one, Nat.sub_add_cancel h]

theorem active_spawn (kind : Kind) :
    active ⟨c.shared, c.threads ++ [kind.start]⟩ = c.active := by
  change (c.threads ++ [kind.start]).countP Task.isActive = _
  rw [List.countP_append]
  cases kind <;> rfl

theorem active_pos (ht : c.threads[i]? = some t) (hactive : t.isActive = true) : 0 < c.active :=
  countP_pos_of_getElem? Task.isActive ht hactive

/-- What the condition asks of the move of a given task. -/
theorem completes_move (ht : c.threads[i]? = some t) :
    Completes c (.move i choice) ↔ (choice = .abandon → t.isActive = false) ∧
      (choice = .run → t = .request .passed → c.active + 1 < 2 ^ 64) := by
  constructor
  · rintro ⟨habandon, hadmit⟩
    refine ⟨?_, ?_⟩
    · rintro rfl
      exact habandon i t rfl ht
    · rintro rfl rfl
      exact hadmit i rfl ht
  · rintro ⟨habandon, hadmit⟩
    refine ⟨fun j t' heq ht' => ?_, fun j heq ht' => ?_⟩
    · cases heq
      obtain rfl := Option.some.inj (ht.symm.trans ht')
      exact habandon rfl
    · cases heq
      exact hadmit rfl (Option.some.inj (ht.symm.trans ht'))

theorem exact_move_iff (h : InFlightExact c) (ht : c.threads[i]? = some t)
    (hmove : Move c.shared t choice m t') :
    InFlightExact ⟨m, c.threads.set i t'⟩ ↔ Completes c (.move i choice) := by
  have hset := active_set ht m t'
  have hlt := c.shared.inFlight.toNat_lt
  rw [completes_move ht]
  unfold InFlightExact at *
  cases hmove with
  | enter =>
    rw [toNat_incrementInFlight]
    simp [Task.isActive] at hset ⊢
    omega
  | complete =>
    have hpos := active_pos ht rfl
    have hdec := toNat_decrementInFlight (m := c.shared) (by omega)
    simp [Task.isActive] at hset ⊢
    omega
  | dropHandling | dropHandled =>
    simp [Task.isActive] at hset ⊢
    omega
  | _ =>
    simp [Task.isActive] at hset ⊢
    omega

theorem exact_step_iff {a : Action} (h : InFlightExact c) (hstep : step c a = some c') :
    InFlightExact c' ↔ Completes c a := by
  rcases step_cases hstep with ⟨kind, rfl, rfl⟩ | ⟨i, choice, t, m, t', rfl, ht, hmove, rfl⟩
  · exact iff_of_true (h.trans (active_spawn kind).symm) ⟨nofun, nofun⟩
  · exact exact_move_iff h ht hmove

theorem noWrap_of_completes {a : Action} (h : InFlightExact c) (ha : Completes c a) : NoWrap c a := by
  intro i hmove
  rw [h]
  exact ⟨fun ht => ha.2 i hmove ht, fun ht => active_pos ht rfl⟩

theorem exact_start : InFlightExact start := rfl

theorem next_abandon (h : t.isActive = true) (m : Manager) :
    t.next m .abandon = some (m, .request .abandoned) := by
  unfold Task.isActive at h
  split at h
  · rfl
  · rfl
  · cases h

/-- An action that breaks the condition can be carried out. -/
theorem completes_of_enabled {a : Action} (h : ∀ c', step c a = some c' → Completes c a) :
    Completes c a := by
  refine ⟨fun i t hmove ht => ?_, fun i hmove ht => ?_⟩
  · subst hmove
    by_contra hactive
    have hnext := next_abandon ((Bool.not_eq_false _).mp hactive) c.shared
    exact hactive ((h _ (step_move ht hnext)).1 i t rfl ht)
  · subst hmove
    exact (h _ (step_move ht rfl)).2 i rfl ht

theorem inFlight_exact_iff_completes (actions : List Action) :
    (Always step InFlightExact start actions ∧ Along step NoWrap start actions) ↔
      Along step Completes start actions := by
  have halways : Always step InFlightExact start actions ↔ Along step
      (fun c a => ∀ c', step c a = some c' → Completes c a) start actions :=
    always_iff_along (fun _ => True) exact_start trivial (fun _ _ _ _ _ => trivial)
      fun _ _ _ _ h hstep => exact_step_iff h hstep
  constructor
  · rintro ⟨h, -⟩
    exact (halways.mp h).mono fun c a => completes_of_enabled
  · intro h
    refine ⟨halways.mpr (h.mono fun _ _ h _ _ => h), ?_⟩
    exact h.strengthen (fun _ _ _ hs ha hstep => (exact_step_iff hs hstep).mpr ha)
      (fun _ _ hs ha => noWrap_of_completes hs ha) exact_start

/-- A client that disconnects while its request is handled. -/
def disconnected : List Action :=
  [.spawn .request, .move 1 .run, .move 1 .run, .move 1 .abandon]

theorem disconnected_request_counted :
    ¬ (Always step InFlightExact start disconnected ∧ Along step NoWrap start disconnected) := by
  rintro ⟨h, -⟩
  have hfinal : InFlightExact ⟨⟨.starting, 1, false, 0⟩, [.graceTimer false, .request .abandoned]⟩ :=
    h.final rfl
  cases hfinal

end Hypern.Reload.Worker
