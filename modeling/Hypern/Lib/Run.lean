import Mathlib.Data.List.Basic
import Mathlib.Tactic.ByContra

/-! Runs of a system whose step function is partial: an action that is not enabled in a
state has no step there. A run is the list of its actions, so a condition on a run is a
condition on each action in the state before it. -/

namespace Hypern.Lib

variable {S A : Type*} (step : S → A → Option S)

/-- The state after a list of actions, if each is enabled when its turn comes. -/
def exec : S → List A → Option S
  | s, [] => some s
  | s, a :: as => (step s a).bind fun s' => exec s' as

/-- `C` holds of every action of the run, in the state before it. -/
def Along (C : S → A → Prop) : S → List A → Prop
  | _, [] => True
  | s, a :: as => C s a ∧ ∀ s', step s a = some s' → Along C s' as

/-- `P` holds of every state the run reaches, the first one included. -/
def Always (P : S → Prop) : S → List A → Prop
  | s, [] => P s
  | s, a :: as => P s ∧ ∀ s', step s a = some s' → Always P s' as

/-- Some run leads from `s` to `s'`. -/
def Reaches (s s' : S) : Prop := ∃ as, exec step s as = some s'

variable {step} {C D : S → A → Prop} {P Inv : S → Prop} {s s' : S} {a : A} {as bs : List A}

theorem exec_append (s : S) (as bs : List A) :
    exec step s (as ++ bs) = (exec step s as).bind fun s' => exec step s' bs := by
  induction as generalizing s with
  | nil => rfl
  | cons a as ih =>
    change (step s a).bind _ = ((step s a).bind _).bind _
    rw [Option.bind_assoc]
    exact congrArg _ (funext ih)

theorem exec_trans {s'' : S} (h : exec step s as = some s') (h' : exec step s' bs = some s'') :
    exec step s (as ++ bs) = some s'' := by
  rw [exec_append, h]
  exact h'

theorem exec_cons_eq_some :
    exec step s (a :: as) = some s' ↔ ∃ t, step s a = some t ∧ exec step t as = some s' :=
  Option.bind_eq_some_iff

theorem Reaches.refl (s : S) : Reaches step s s := ⟨[], rfl⟩

theorem Reaches.head {t : S} (h : step s a = some t) (h' : Reaches step t s') :
    Reaches step s s' := by
  obtain ⟨as, hexec⟩ := h'
  exact ⟨a :: as, exec_cons_eq_some.mpr ⟨t, h, hexec⟩⟩

theorem Reaches.trans {t : S} (h : Reaches step s t) (h' : Reaches step t s') :
    Reaches step s s' := by
  obtain ⟨as, has⟩ := h
  obtain ⟨bs, hbs⟩ := h'
  exact ⟨as ++ bs, exec_trans has hbs⟩

/-- An invariant that every step preserves holds wherever a run leads. -/
theorem Reaches.invariant (hstep : ∀ s a t, Inv s → step s a = some t → Inv t)
    (h : Reaches step s s') (hs : Inv s) : Inv s' := by
  obtain ⟨as, hexec⟩ := h
  induction as generalizing s with
  | nil =>
    cases hexec
    exact hs
  | cons a as ih =>
    obtain ⟨t, ht, hexec⟩ := exec_cons_eq_some.mp hexec
    exact ih (hstep s a t hs ht) hexec

theorem Along.mono (hCD : ∀ s a, C s a → D s a) (h : Along step C s as) : Along step D s as := by
  induction as generalizing s with
  | nil => trivial
  | cons a as ih => exact ⟨hCD s a h.1, fun t ht => ih (h.2 t ht)⟩

/-- A condition on what is seen of a state may be checked on a run of the observations. -/
theorem along_map {T : Type*} {step' : T → A → Option T} {E : T → A → Prop} (f : S → T)
    (hf : ∀ s a, step' (f s) a = (step s a).map f) :
    Along step (fun s a => E (f s) a) s as ↔ Along step' E (f s) as := by
  induction as generalizing s with
  | nil => exact Iff.rfl
  | cons a as ih =>
    apply and_congr_right
    intro _
    rw [hf]
    cases step s a with
    | none => exact iff_of_true nofun nofun
    | some t =>
      simp only [Option.map_some, Option.some.injEq, forall_eq', ih]

theorem Along.of_forall (h : ∀ a ∈ as, ∀ s, C s a) (s : S) : Along step C s as := by
  induction as generalizing s with
  | nil => trivial
  | cons a as ih =>
    rw [List.forall_mem_cons] at h
    exact ⟨h.1 s, fun t _ => ih h.2 t⟩

theorem Along.and (h : Along step C s as) (h' : Along step D s as) :
    Along step (fun s a => C s a ∧ D s a) s as := by
  induction as generalizing s with
  | nil => trivial
  | cons a as ih => exact ⟨⟨h.1, h'.1⟩, fun t ht => ih (h.2 t ht) (h'.2 t ht)⟩

instance Along.decidable [∀ s a, Decidable (C s a)] :
    (s : S) → (as : List A) → Decidable (Along step C s as)
  | _, [] => inferInstanceAs (Decidable True)
  | s, a :: as =>
    have : Decidable (∀ t, step s a = some t → Along step C t as) :=
      match step s a with
      | none => isTrue nofun
      | some t =>
        have := Along.decidable t as
        decidable_of_iff (Along step C t as)
          ⟨fun ht _ heq => Option.some.inj heq ▸ ht, fun ht => ht t rfl⟩
    inferInstanceAs (Decidable (C s a ∧ _))

/-- The invariant rule: what every step that meets the condition preserves holds wherever
a run of such steps leads. -/
theorem Along.invariant (J : S → Prop)
    (hstep : ∀ s a t, J s → C s a → step s a = some t → J t)
    (h : Along step C s as) (hs : J s) (hexec : exec step s as = some s') : J s' := by
  induction as generalizing s with
  | nil =>
    cases hexec
    exact hs
  | cons a as ih =>
    obtain ⟨t, ht, hexec⟩ := exec_cons_eq_some.mp hexec
    exact ih (h.2 t ht) (hstep s a t hs h.1 ht) hexec

/-- A rank that every step of a run lowers bounds the length of the run. -/
theorem Along.length_add_rank_le (rank : S → Nat)
    (hstep : ∀ s a t, Inv s → C s a → step s a = some t → Inv t ∧ rank t < rank s)
    (h : Along step C s as) (hs : Inv s) (hexec : exec step s as = some s') :
    as.length + rank s' ≤ rank s := by
  induction as generalizing s with
  | nil =>
    cases hexec
    exact Nat.le_of_eq (Nat.zero_add _)
  | cons a as ih =>
    obtain ⟨t, ht, hexec⟩ := exec_cons_eq_some.mp hexec
    obtain ⟨hinv, hlt⟩ := hstep s a t hs h.1 ht
    have hrest : as.length + rank s' ≤ rank t := ih (h.2 t ht) hinv hexec
    rw [List.length_cons]
    omega

/-- The same for conditions: an invariant may be used to strengthen what holds along a run. -/
theorem Along.strengthen (hstep : ∀ s a t, Inv s → C s a → step s a = some t → Inv t)
    (hD : ∀ s a, Inv s → C s a → D s a) (h : Along step C s as) (hs : Inv s) :
    Along step D s as := by
  induction as generalizing s with
  | nil => trivial
  | cons a as ih =>
    exact ⟨hD s a hs h.1, fun t ht => ih (h.2 t ht) (hstep s a t hs h.1 ht)⟩

theorem Along.always (hstep : ∀ s a t, Inv s → C s a → step s a = some t → Inv t)
    (hP : ∀ s, Inv s → P s) (h : Along step C s as) (hs : Inv s) : Always step P s as := by
  induction as generalizing s with
  | nil => exact hP s hs
  | cons a as ih =>
    exact ⟨hP s hs, fun t ht => ih (h.2 t ht) (hstep s a t hs h.1 ht)⟩

theorem Always.mono {Q : S → Prop} (hPQ : ∀ s, P s → Q s) (h : Always step P s as) :
    Always step Q s as := by
  induction as generalizing s with
  | nil => exact hPQ s h
  | cons a as ih => exact ⟨hPQ s h.1, fun t ht => ih (h.2 t ht)⟩

theorem Always.start (h : Always step P s as) : P s := by
  cases as with
  | nil => exact h
  | cons a as => exact h.1

theorem Always.along (h : Always step P s as) : Along step (fun s _ => P s) s as := by
  induction as generalizing s with
  | nil => trivial
  | cons a as ih => exact ⟨h.1, fun t ht => ih (h.2 t ht)⟩

theorem Always.final (h : Always step P s as) (hexec : exec step s as = some s') : P s' := by
  induction as generalizing s with
  | nil =>
    cases hexec
    exact h
  | cons a as ih =>
    obtain ⟨t, ht, hexec⟩ := exec_cons_eq_some.mp hexec
    exact ih (h.2 t ht) hexec

/-- A state condition along a run is a condition on its start and on what each step leads to. -/
theorem always_iff_along_next :
    Always step P s as ↔ P s ∧ Along step (fun s a => ∀ t, step s a = some t → P t) s as := by
  induction as generalizing s with
  | nil => exact ⟨fun h => ⟨h, trivial⟩, fun h => h.1⟩
  | cons a as ih =>
    constructor
    · rintro ⟨hs, h⟩
      exact ⟨hs, fun t ht => (h t ht).start, fun t ht => (ih.mp (h t ht)).2⟩
    · rintro ⟨hs, hnext, h⟩
      exact ⟨hs, fun t ht => ih.mpr ⟨hnext t ht, h t ht⟩⟩

/-- Two conditions that are the same under an invariant, which one of them keeps. -/
theorem along_iff_along (hstep : ∀ s a t, Inv s → C s a → step s a = some t → Inv t)
    (hCD : ∀ s a, Inv s → (D s a ↔ C s a)) (hs : Inv s) : Along step D s as ↔ Along step C s as := by
  constructor
  · exact fun h => h.strengthen (fun s a t hs hD => hstep s a t hs ((hCD s a hs).mp hD))
      (fun s a hs hD => (hCD s a hs).mp hD) hs
  · exact fun h => h.strengthen hstep (fun s a hs hC => (hCD s a hs).mpr hC) hs

/-- A condition that only an enabled step can break need not ask whether the step is enabled. -/
theorem along_enabled_iff (hC : ∀ s a, ¬ C s a → ∃ t, step s a = some t) :
    Along step (fun s a => ∀ t, step s a = some t → C s a) s as ↔ Along step C s as := by
  refine ⟨fun h => h.mono fun s a hstep => ?_, fun h => h.mono fun s a hCs t _ => hCs⟩
  by_contra hnot
  obtain ⟨t, ht⟩ := hC s a hnot
  exact hnot (hstep t ht)

/-- If the condition keeps an invariant that makes states good, and a step that breaks the
condition leads to a bad state, the runs through good states are those whose steps all meet the
condition. -/
theorem always_iff_along_of_inv (J : S → Prop) (hs : J s) (hP : ∀ s, J s → P s)
    (hJ : ∀ s a t, J s → C s a → step s a = some t → J t)
    (hC : ∀ s a t, J s → step s a = some t → P t → C s a) :
    Always step P s as ↔ Along step (fun s a => ∀ t, step s a = some t → C s a) s as := by
  refine always_iff_along_next.trans ((and_iff_right (hP s hs)).trans ?_)
  refine along_iff_along (fun s a t hJs hCs ht => hJ s a t hJs (hCs t ht) ht) (fun s a hJs => ?_) hs
  constructor
  · exact fun h t ht => hC s a t hJs ht (h t ht)
  · exact fun h t ht => hP t (hJ s a t hJs (h t ht) ht)

/-- The same where a step from a good state is good exactly when it meets the condition. -/
theorem always_iff_along (J : S → Prop) (hs : P s) (hI : J s)
    (hJ : ∀ s a t, J s → step s a = some t → J t)
    (hstep : ∀ s a t, J s → P s → step s a = some t → (P t ↔ C s a)) :
    Always step P s as ↔ Along step (fun s a => ∀ t, step s a = some t → C s a) s as := by
  refine always_iff_along_of_inv (fun s => J s ∧ P s) ⟨hI, hs⟩ (fun _ h => h.2) ?_ ?_
  · exact fun s a t h hC ht => ⟨hJ s a t h.1 ht, (hstep s a t h.1 h.2 ht).mpr hC⟩
  · exact fun s a t h ht hP => (hstep s a t h.1 h.2 ht).mp hP

end Hypern.Lib
