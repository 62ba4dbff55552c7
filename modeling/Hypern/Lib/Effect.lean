import Mathlib.Data.List.Basic
import Mathlib.Tactic.Common

/-! Programs that reach their environment only through named operations. The
continuation receives the operation's result or its exception, so a program may
catch what an operation raises. Meaning is given by a step function on an
environment state, and facts about every program come from facts about one step. -/

namespace Hypern.Lib

inductive Prog (Op : Type) (Res : Op → Type) (ε α : Type) : Type
  | ret (a : α) : Prog Op Res ε α
  | raise (e : ε) : Prog Op Res ε α
  | perform (op : Op) (k : Except ε (Res op) → Prog Op Res ε α) : Prog Op Res ε α

namespace Prog

variable {Op : Type} {Res : Op → Type} {ε α β σ : Type}

def bind : Prog Op Res ε α → (α → Prog Op Res ε β) → Prog Op Res ε β
  | .ret a, f => f a
  | .raise e, _ => .raise e
  | .perform op k, f => .perform op fun r => (k r).bind f

def attempt : Prog Op Res ε α → Prog Op Res ε (Except ε α)
  | .ret a => .ret (.ok a)
  | .raise e => .ret (.error e)
  | .perform op k => .perform op fun r => (k r).attempt

/-- An operation on its own, its exception left to the caller. -/
def call (op : Op) : Prog Op Res ε (Res op) :=
  .perform op fun
    | .ok a => .ret a
    | .error e => .raise e

def ofExcept : Except ε α → Prog Op Res ε α
  | .ok a => .ret a
  | .error e => .raise e

/-- `try p finally q`: `q` runs after `p` in every case, and `p`'s outcome stands. -/
def finallyDo (p : Prog Op Res ε α) (q : Prog Op Res ε Unit) : Prog Op Res ε α :=
  p.attempt.bind fun r => q.bind fun _ => ofExcept r

def run (step : (op : Op) → σ → Except ε (Res op) × σ) : Prog Op Res ε α → σ → Except ε α × σ
  | .ret a, s => (.ok a, s)
  | .raise e, s => (.error e, s)
  | .perform op k, s => run step (k (step op s).1) (step op s).2

theorem bind_assoc {γ : Type} (p : Prog Op Res ε α) (f : α → Prog Op Res ε β)
    (g : β → Prog Op Res ε γ) : (p.bind f).bind g = p.bind fun a => (f a).bind g := by
  induction p with
  | ret a => rfl
  | raise e => rfl
  | perform op k ih => exact congrArg _ (funext fun r => ih r)

/-! ## Running the combinators -/

section Run

variable {step : (op : Op) → σ → Except ε (Res op) × σ}

@[simp] theorem run_ret (a : α) (s : σ) :
    run step (.ret a : Prog Op Res ε α) s = (.ok a, s) := rfl

@[simp] theorem run_raise (e : ε) (s : σ) :
    run step (.raise e : Prog Op Res ε α) s = (.error e, s) := rfl

@[simp] theorem run_perform (op : Op) (k : Except ε (Res op) → Prog Op Res ε α) (s : σ) :
    run step (.perform op k) s = run step (k (step op s).1) (step op s).2 := rfl

@[simp] theorem run_call (op : Op) (s : σ) :
    run step (call op : Prog Op Res ε (Res op)) s = step op s := by
  unfold call
  rcases h : step op s with ⟨r, s'⟩
  cases r <;> simp [h]

@[simp] theorem run_ofExcept (r : Except ε α) (s : σ) :
    run step (ofExcept r : Prog Op Res ε α) s = (r, s) := by
  cases r <;> rfl

theorem run_bind (p : Prog Op Res ε α) (f : α → Prog Op Res ε β) (s : σ) :
    run step (p.bind f) s =
      match run step p s with
      | (.ok a, s') => run step (f a) s'
      | (.error e, s') => (.error e, s') := by
  induction p generalizing s with
  | ret a => rfl
  | raise e => rfl
  | perform op k ih => exact ih _ _

@[simp] theorem run_attempt (p : Prog Op Res ε α) (s : σ) :
    run step p.attempt s = (.ok (run step p s).1, (run step p s).2) := by
  induction p generalizing s with
  | ret a => rfl
  | raise e => rfl
  | perform op k ih => exact ih _ _

theorem run_finallyDo (p : Prog Op Res ε α) (q : Prog Op Res ε Unit) (s : σ) :
    run step (p.finallyDo q) s =
      match run step q (run step p s).2 with
      | (.ok _, s') => ((run step p s).1, s')
      | (.error e, s') => (.error e, s') := by
  simp only [finallyDo, run_bind, run_attempt, run_ofExcept]
  rcases run step q (run step p s).2 with ⟨_ | _, _⟩ <;> rfl

end Run

/-! ## Programs that only use some of the operations -/

def All (P : Op → Prop) : Prog Op Res ε α → Prop
  | .ret _ => True
  | .raise _ => True
  | .perform op k => P op ∧ ∀ r, All P (k r)

variable {P : Op → Prop}

theorem All.bind {p : Prog Op Res ε α} {f : α → Prog Op Res ε β} (hp : p.All P)
    (hf : ∀ a, (f a).All P) : (p.bind f).All P := by
  induction p with
  | ret a => exact hf a
  | raise e => trivial
  | perform op k ih => exact ⟨hp.1, fun r => ih r (hp.2 r)⟩

theorem All.attempt {p : Prog Op Res ε α} (hp : p.All P) : p.attempt.All P := by
  induction p with
  | ret a => trivial
  | raise e => trivial
  | perform op k ih => exact ⟨hp.1, fun r => ih r (hp.2 r)⟩

theorem All.call {op : Op} (h : P op) : (call op : Prog Op Res ε (Res op)).All P :=
  ⟨h, fun r => by cases r <;> trivial⟩

theorem All.mono {Q : Op → Prop} (hPQ : ∀ op, P op → Q op) {p : Prog Op Res ε α} (hp : p.All P) :
    p.All Q := by
  induction p with
  | ret a => trivial
  | raise e => trivial
  | perform op k ih => exact ⟨hPQ op hp.1, fun r => ih r (hp.2 r)⟩

/-- A program that sees nothing of the difference between two states ends alike from both. -/
theorem All.run_related {step : (op : Op) → σ → Except ε (Res op) × σ} {R : σ → σ → Prop}
    (hstep : ∀ op s t, P op → R s t → (step op s).1 = (step op t).1 ∧ R (step op s).2 (step op t).2)
    {p : Prog Op Res ε α} (hp : p.All P) {s t : σ} (h : R s t) :
    (run step p s).1 = (run step p t).1 ∧ R (run step p s).2 (run step p t).2 := by
  induction p generalizing s t with
  | ret a => exact ⟨rfl, h⟩
  | raise e => exact ⟨rfl, h⟩
  | perform op k ih =>
    obtain ⟨hres, hR⟩ := hstep op s t hp.1 h
    rw [run_perform, run_perform, hres]
    exact ih _ (hp.2 _) hR

/-- Whatever the operations answer, a value that is returned meets `Q`. -/
def Returns (Q : α → Prop) : Prog Op Res ε α → Prop
  | .ret a => Q a
  | .raise _ => True
  | .perform _ k => ∀ r, (k r).Returns Q

theorem Returns.bind {Q : β → Prop} {p : Prog Op Res ε α} {f : α → Prog Op Res ε β}
    (hf : ∀ a, (f a).Returns Q) : (p.bind f).Returns Q := by
  induction p with
  | ret a => exact hf a
  | raise e => trivial
  | perform op k ih => exact fun r => ih r

theorem Returns.run {step : (op : Op) → σ → Except ε (Res op) × σ} {Q : α → Prop}
    {p : Prog Op Res ε α} (hp : p.Returns Q) {s s' : σ} {a : α} (h : Prog.run step p s = (.ok a, s')) :
    Q a := by
  induction p generalizing s with
  | ret b =>
    cases h
    exact hp
  | raise e => cases h
  | perform op k ih => exact ih _ (hp _) h

/-! ## Invariants of whole programs -/

/-- `Inv` holds after `p` wherever it holds before, however `p` ends. -/
def Preserves (step : (op : Op) → σ → Except ε (Res op) × σ) (Inv : σ → Prop)
    (p : Prog Op Res ε α) : Prop := ∀ s, Inv s → Inv (run step p s).2

section Preserves

variable {step : (op : Op) → σ → Except ε (Res op) × σ} {Inv : σ → Prop}

theorem Preserves.ret (a : α) : Preserves step Inv (.ret a : Prog Op Res ε α) := fun _ h => h

theorem Preserves.raise (e : ε) : Preserves step Inv (.raise e : Prog Op Res ε α) := fun _ h => h

theorem Preserves.bind {p : Prog Op Res ε α} {f : α → Prog Op Res ε β}
    (hp : Preserves step Inv p) (hf : ∀ a, Preserves step Inv (f a)) :
    Preserves step Inv (p.bind f) := by
  intro s hs
  have h := hp s hs
  rw [run_bind]
  rcases hr : run step p s with ⟨_ | a, s'⟩ <;> rw [hr] at h
  · exact h
  · exact hf a s' h

theorem Preserves.attempt {p : Prog Op Res ε α} (hp : Preserves step Inv p) :
    Preserves step Inv p.attempt := by
  intro s hs
  rw [run_attempt]
  exact hp s hs

theorem Preserves.ofExcept (r : Except ε α) :
    Preserves step Inv (ofExcept r : Prog Op Res ε α) := by
  cases r
  · exact .raise _
  · exact .ret _

/-- What every operation preserves, every program preserves. -/
theorem Preserves.of_step (hstep : ∀ op s, Inv s → Inv (step op s).2) (p : Prog Op Res ε α) :
    Preserves step Inv p := by
  intro s hs
  induction p generalizing s with
  | ret a => exact hs
  | raise e => exact hs
  | perform op k ih => exact ih _ _ (hstep op s hs)

/-- What every operation a program uses preserves, the program preserves. -/
theorem All.preserves (hstep : ∀ op s, P op → Inv s → Inv (step op s).2) {p : Prog Op Res ε α}
    (hp : p.All P) : Preserves step Inv p := by
  intro s hs
  induction p generalizing s with
  | ret a => exact hs
  | raise e => exact hs
  | perform op k ih => exact ih _ (hp.2 _) _ (hstep op s hp.1 hs)

end Preserves

end Prog

end Hypern.Lib
