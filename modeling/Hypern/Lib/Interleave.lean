import Hypern.Lib.Effect
import Hypern.Lib.Threads
import Mathlib.Order.Basic

/-! Programs that run as threads over one shared state, one operation at a time. Of the state
they may use what only grows: what a thread has learnt stays true whatever the others do, so a
program is checked on its own and holds its promise in every interleaving. -/

namespace Hypern.Lib

namespace Prog

variable {Op : Type} {Res : Op → Type} {ε α β K : Type} [Preorder K]

/-- Whatever the others do, the program's operations are allowed and what it returns is as
promised. `learnt op r w` is known once the operation has answered `r`. -/
def Secure (allowed : Op → K → Prop) (learnt : (op : Op) → Except ε (Res op) → K → Prop)
    (promise : Except ε α → K → Prop) : K → Prog Op Res ε α → Prop
  | w, .ret a => ∀ w', w ≤ w' → promise (.ok a) w'
  | w, .raise e => ∀ w', w ≤ w' → promise (.error e) w'
  | w, .perform op k =>
    (∀ w', w ≤ w' → allowed op w') ∧
      ∀ w' r, w ≤ w' → learnt op r w' → Secure allowed learnt promise w' (k r)

variable {allowed : Op → K → Prop} {learnt : (op : Op) → Except ε (Res op) → K → Prop}
  {promise : Except ε α → K → Prop} {w w' : K}

theorem Secure.mono {p : Prog Op Res ε α} (h : p.Secure allowed learnt promise w) (hw : w ≤ w') :
    p.Secure allowed learnt promise w' := by
  cases p with
  | ret a => exact fun w'' hw' => h w'' (hw.trans hw')
  | raise e => exact fun w'' hw' => h w'' (hw.trans hw')
  | perform op k =>
    exact ⟨fun w'' hw' => h.1 w'' (hw.trans hw'), fun w'' r hw' => h.2 w'' r (hw.trans hw')⟩

theorem Secure.bind {promise' : Except ε β → K → Prop} {p : Prog Op Res ε α}
    {f : α → Prog Op Res ε β} (h : p.Secure allowed learnt promise w)
    (hf : ∀ a w', w ≤ w' → promise (.ok a) w' → (f a).Secure allowed learnt promise' w')
    (herror : ∀ e w', promise (.error e) w' → promise' (.error e) w') :
    (p.bind f).Secure allowed learnt promise' w := by
  induction p generalizing w with
  | ret a => exact hf a w (le_refl w) (h w (le_refl w))
  | raise e => exact fun w' hw => herror e w' (h w' hw)
  | perform op k ih =>
    exact ⟨h.1, fun w' r hw hlearnt => ih r (h.2 w' r hw hlearnt)
      fun a w'' hw' => hf a w'' (hw.trans hw')⟩

theorem Secure.call (hmono : ∀ op r w w', learnt op r w → w ≤ w' → learnt op r w') {op : Op}
    (hop : ∀ w', w ≤ w' → allowed op w') :
    (call op : Prog Op Res ε (Res op)).Secure allowed learnt (learnt op) w := by
  refine ⟨hop, fun w' r _ hlearnt => ?_⟩
  cases r with
  | ok a => exact fun w'' hw' => hmono op _ _ _ hlearnt hw'
  | error e => exact fun w'' hw' => hmono op _ _ _ hlearnt hw'

/-! ## Threads -/

section Threads

variable {σ A : Type}

/-- A thread does its next operation; `a` is what the shared state leaves open. -/
def move (exec : A → (op : Op) → σ → Except ε (Res op) × σ) (_ : Nat) (g : σ)
    (p : Prog Op Res ε α) (a : A) : Option (σ × Prog Op Res ε α) :=
  match p with
  | .perform op k => some ((exec a op g).2, k (exec a op g).1)
  | _ => none

/-- The shared state is sound, and every thread is secure with what the state knows. -/
structure AllSecure (Sound : σ → Prop) (know : σ → K) (allowed : Op → K → Prop)
    (learnt : (op : Op) → Except ε (Res op) → K → Prop) (promise : Except ε α → K → Prop)
    (c : Config σ (Prog Op Res ε α)) : Prop where
  sound : Sound c.shared
  threads : ∀ p ∈ c.threads, p.Secure allowed learnt promise (know c.shared)

variable {exec : A → (op : Op) → σ → Except ε (Res op) × σ} {Sound : σ → Prop} {know : σ → K}
  {c c' : Config σ (Prog Op Res ε α)}

theorem AllSecure.step (h : AllSecure Sound know allowed learnt promise c)
    (hexec : ∀ a op g, allowed op (know g) → Sound g → Sound (exec a op g).2 ∧
      know g ≤ know (exec a op g).2 ∧ learnt op (exec a op g).1 (know (exec a op g).2))
    {i : Nat} {a : A} (hstep : stepThread (move exec) c i a = some c') :
    AllSecure Sound know allowed learnt promise c' := by
  obtain ⟨p, g, p', hp, hmove, rfl⟩ := stepThread_eq_some.mp hstep
  have hsecure := h.threads p (List.mem_of_getElem? hp)
  cases p with
  | ret a => cases hmove
  | raise e => cases hmove
  | perform op k =>
    cases hmove
    obtain ⟨hsound, hknow, hlearnt⟩ := hexec a op c.shared (hsecure.1 _ (le_refl _)) h.sound
    exact ⟨hsound, forall_mem_set (fun q hq => (h.threads q hq).mono hknow)
      (hsecure.2 _ _ hknow hlearnt)⟩

theorem AllSecure.start (h : AllSecure Sound know allowed learnt promise c)
    {p : Prog Op Res ε α} (hp : ∀ w, p.Secure allowed learnt promise w) :
    AllSecure Sound know allowed learnt promise ⟨c.shared, c.threads ++ [p]⟩ :=
  ⟨h.sound, forall_mem_concat h.threads (hp _)⟩

end Threads

end Prog

end Hypern.Lib
