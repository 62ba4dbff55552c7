import Hypern.Auth.Guards
import Mathlib.Data.List.DropRight
import Mathlib.Data.List.Induction

/-! `hypern.di.inject` stacked with the guards of `auth.py`. What a stack of decorators
makes is computed first for guards of any type; `inject` unwraps to the original that
`functools.wraps` has carried outwards, over the guards in between. -/

namespace Hypern.Application

open Python Auth

/-- The function objects that a stack of decorators makes; the innermost is the handler. -/
inductive Fn (G : Type)
  | handler
  | guard (g : G) (func : Fn G)
  | inject (names : List String) (original : Fn G)

inductive Decorator (G : Type)
  | inject (names : List String) (nonempty : names ≠ [])
  | guard (g : G)

inductive Ended (G V E : Type)
  | reached (passed : List G) (deps : List V)
  | stopped (e : E)

section

variable {G S V E : Type}

namespace Fn

def injectNames : Fn G → Option (List String)
  | .handler => none
  | .guard _ func => func.injectNames
  | .inject names _ => some names

def injectOriginal : Fn G → Option (Fn G)
  | .handler => none
  | .guard _ func => func.injectOriginal
  | .inject _ original => some original

def decorateInject (names : List String) (f : Fn G) : Fn G :=
  let existingNames := f.injectNames.getD []
  let original := f.injectOriginal.getD f
  .inject (existingNames ++ names) original

def call (check : G → S → Except E S) (get : S → String → V) :
    Fn G → S → List G → List V → Ended G V E
  | .handler, _, passed, deps => .reached passed deps
  | .guard g func, s, passed, deps =>
    match check g s with
    | .error e => .stopped e
    | .ok s => func.call check get s (passed ++ [g]) deps
  | .inject names original, s, passed, deps =>
    original.call check get s passed (deps ++ names.map (get s))

end Fn

namespace Decorator

def apply (f : Fn G) : Decorator G → Fn G
  | .inject names _ => f.decorateInject names
  | .guard g => .guard g f

def isGuard : Decorator G → Bool
  | .inject .. => false
  | .guard _ => true

def guard? : Decorator G → Option G
  | .inject .. => none
  | .guard g => some g

def names : Decorator G → List String
  | .inject names _ => names
  | .guard _ => []

end Decorator

def build (stack : List (Decorator G)) : Fn G := stack.foldl Decorator.apply .handler

def guards (stack : List (Decorator G)) : List G := stack.filterMap Decorator.guard?

def injected (stack : List (Decorator G)) : List String := stack.flatMap Decorator.names

/-- The decorators outside the innermost `inject`. -/
def outsideInject (stack : List (Decorator G)) : List (Decorator G) :=
  (stack.dropWhile Decorator.isGuard).tail

def beforeInjects (stack : List (Decorator G)) : List G := guards (stack.takeWhile Decorator.isGuard)

/-- The guards that have an `inject` on both sides. -/
def betweenInjects (stack : List (Decorator G)) : List G :=
  guards ((outsideInject stack).rdropWhile Decorator.isGuard)

def afterInjects (stack : List (Decorator G)) : List G :=
  guards ((outsideInject stack).rtakeWhile Decorator.isGuard)

def wrapGuards (gs : List G) (f : Fn G) : Fn G := gs.foldl (fun f g => .guard g f) f

theorem wrapGuards_concat (gs : List G) (g : G) (f : Fn G) :
    wrapGuards (gs ++ [g]) f = .guard g (wrapGuards gs f) := by
  simp [wrapGuards]

theorem wrapGuards_injectNames (gs : List G) (f : Fn G) :
    (wrapGuards gs f).injectNames = f.injectNames := by
  induction gs using List.reverseRecOn with
  | nil => rfl
  | append_singleton gs g ih => rw [wrapGuards_concat, Fn.injectNames, ih]

theorem wrapGuards_injectOriginal (gs : List G) (f : Fn G) :
    (wrapGuards gs f).injectOriginal = f.injectOriginal := by
  induction gs using List.reverseRecOn with
  | nil => rfl
  | append_singleton gs g ih => rw [wrapGuards_concat, Fn.injectOriginal, ih]

theorem foldl_guards (stack : List (Decorator G)) (h : ∀ d ∈ stack, d.isGuard = true) (f : Fn G) :
    stack.foldl Decorator.apply f = wrapGuards (guards stack) f := by
  induction stack generalizing f with
  | nil => rfl
  | cons d stack ih =>
    obtain ⟨names, hne⟩ | g := d
    · exact absurd (h _ List.mem_cons_self) Bool.noConfusion
    · exact ih (fun d hd => h d (List.mem_cons_of_mem _ hd)) _

theorem foldl_inject (rest : List (Decorator G)) (names : List String) (inner : Fn G) :
    rest.foldl Decorator.apply (.inject names inner) =
      wrapGuards (guards (rest.rtakeWhile Decorator.isGuard))
        (.inject (names ++ injected rest) inner) := by
  -- from the outermost decorator inwards: an `inject` unwraps to the original, a guard stays
  induction rest using List.reverseRecOn with
  | nil => simp [wrapGuards, guards, injected]
  | append_singleton rest d ih =>
    rw [List.foldl_concat, ih]
    obtain ⟨names', hne⟩ | g := d
    · rw [List.rtakeWhile_concat_neg _ _ _ (by simp [Decorator.isGuard])]
      simp only [Decorator.apply, Fn.decorateInject, wrapGuards_injectNames,
        wrapGuards_injectOriginal, Fn.injectNames, Fn.injectOriginal, Option.getD_some]
      simp [wrapGuards, guards, injected, Decorator.names]
    · rw [List.rtakeWhile_concat_pos _ _ _ rfl]
      simp [guards, injected, Decorator.names, Decorator.apply, Decorator.guard?, wrapGuards_concat]

theorem injected_guards {stack : List (Decorator G)} (h : ∀ d ∈ stack, d.isGuard = true) :
    injected stack = [] := by
  refine List.flatMap_eq_nil_iff.mpr fun d hd => ?_
  obtain ⟨names, hne⟩ | g := d
  · exact absurd (h _ hd) Bool.noConfusion
  · rfl

theorem stack_cases (stack : List (Decorator G)) :
    (stack = stack.takeWhile Decorator.isGuard ∧ outsideInject stack = []) ∨
    ∃ names hne, stack = stack.takeWhile Decorator.isGuard ++
      .inject names hne :: outsideInject stack := by
  have hsplit := List.takeWhile_append_dropWhile (p := Decorator.isGuard) (l := stack)
  cases hd : stack.dropWhile Decorator.isGuard with
  | nil =>
    rw [hd, List.append_nil] at hsplit
    exact .inl ⟨hsplit.symm, by rw [outsideInject, hd]; rfl⟩
  | cons d rest =>
    have hhead : d.isGuard = false := by
      have hnot := List.head_dropWhile_not Decorator.isGuard (l := stack) (by simp [hd])
      simpa [hd] using hnot
    obtain ⟨names, hne⟩ | g := d
    · refine .inr ⟨names, hne, ?_⟩
      rw [outsideInject, hd, List.tail_cons, ← hd, hsplit]
    · cases hhead

theorem mem_takeWhile_isGuard (stack : List (Decorator G)) :
    ∀ d ∈ stack.takeWhile Decorator.isGuard, d.isGuard = true :=
  fun _ hd => List.mem_takeWhile_imp hd

theorem guards_eq (stack : List (Decorator G)) :
    guards stack = beforeInjects stack ++ (betweenInjects stack ++ afterInjects stack) := by
  have houtside : guards (outsideInject stack) = betweenInjects stack ++ afterInjects stack := by
    rw [betweenInjects, afterInjects, guards, guards, guards, ← List.filterMap_append,
      List.rdropWhile_append_rtakeWhile]
  rw [← houtside, beforeInjects]
  obtain ⟨hstack, hnil⟩ | ⟨names, hne, hstack⟩ := stack_cases stack
  · rw [hnil, ← hstack]
    exact (List.append_nil _).symm
  · conv_lhs => rw [hstack]
    rw [guards, List.filterMap_append]
    rfl

theorem build_eq (stack : List (Decorator G)) :
    build stack = wrapGuards (beforeInjects stack) .handler ∧ injected stack = [] ∧
      outsideInject stack = [] ∨
    build stack = wrapGuards (afterInjects stack)
      (.inject (injected stack) (wrapGuards (beforeInjects stack) .handler)) := by
  have hguards := mem_takeWhile_isGuard stack
  have hinner := foldl_guards _ hguards .handler
  obtain ⟨hstack, hnil⟩ | ⟨names, hne, hstack⟩ := stack_cases stack
  · refine .inl ⟨?_, ?_, hnil⟩
    · rw [← hstack] at hinner
      rw [build, hinner, beforeInjects, ← hstack]
    · rw [hstack]
      exact injected_guards hguards
  · refine .inr ?_
    have hinjected : injected stack = names ++ injected (outsideInject stack) := by
      conv_lhs => rw [hstack]
      rw [injected, List.flatMap_append, List.flatMap_cons, ← injected, injected_guards hguards]
      rfl
    have hfirst : Decorator.apply (wrapGuards (beforeInjects stack) .handler) (.inject names hne) =
        .inject names (wrapGuards (beforeInjects stack) .handler) := by
      simp [Decorator.apply, Fn.decorateInject, wrapGuards_injectNames, wrapGuards_injectOriginal,
        Fn.injectNames, Fn.injectOriginal]
    rw [build]
    conv_lhs => rw [hstack]
    rw [List.foldl_append, List.foldl_cons, hinner, ← beforeInjects, hfirst, foldl_inject,
      ← hinjected, afterInjects]

/-! ## Calling the outermost function -/

def runGuards (check : G → S → Except E S) : List G → S → Except E S
  | [], s => .ok s
  | g :: gs, s =>
    match check g s with
    | .error e => .error e
    | .ok s => runGuards check gs s

variable (check : G → S → Except E S) (get : S → String → V)

theorem runGuards_append (gs gs' : List G) (s : S) :
    runGuards check (gs ++ gs') s =
      match runGuards check gs s with
      | .error e => .error e
      | .ok s => runGuards check gs' s := by
  induction gs generalizing s with
  | nil => rfl
  | cons g gs ih =>
    simp only [List.cons_append, runGuards]
    cases check g s with
    | error e => rfl
    | ok s' => exact ih s'

theorem call_wrapGuards (gs : List G) (f : Fn G) (s : S) (passed : List G) (deps : List V) :
    (wrapGuards gs f).call check get s passed deps =
      match runGuards check gs.reverse s with
      | .error e => .stopped e
      | .ok s => f.call check get s (passed ++ gs.reverse) deps := by
  induction gs using List.reverseRecOn generalizing s passed with
  | nil => simp [wrapGuards, runGuards]
  | append_singleton gs g ih =>
    rw [wrapGuards_concat, Fn.call, List.reverse_concat, runGuards]
    cases check g s with
    | error e => rfl
    | ok s' =>
      dsimp only
      rw [ih, List.append_assoc]
      rfl

theorem call_build (stack : List (Decorator G)) (s : S) :
    (build stack).call check get s [] [] =
      match runGuards check (afterInjects stack).reverse s with
      | .error e => .stopped e
      | .ok s =>
        match runGuards check (beforeInjects stack).reverse s with
        | .error e => .stopped e
        | .ok _ => .reached ((afterInjects stack).reverse ++ (beforeInjects stack).reverse)
            ((injected stack).map (get s)) := by
  obtain ⟨hbuild, hinjected, houtside⟩ | hbuild := build_eq stack
  · have hafter : afterInjects stack = [] := by
      rw [afterInjects, houtside]
      rfl
    rw [hbuild, hinjected, hafter, call_wrapGuards]
    rfl
  · rw [hbuild, call_wrapGuards]
    cases runGuards check (afterInjects stack).reverse s with
    | error e => rfl
    | ok s' =>
      dsimp only
      rw [Fn.call, call_wrapGuards]
      cases runGuards check (beforeInjects stack).reverse s' with
      | error e => rfl
      | ok s'' => simp [Fn.call]

/-- Whenever the handler is reached, every guard of the stack has let the call pass, from the
outermost to the innermost, and the handler gets the dependencies of every `inject`, inner
names first, as they stand under the guards outside the last `inject`. -/
def Guarded (stack : List (Decorator G)) (s : S) : Prop :=
  ∀ passed deps, (build stack).call check get s [] [] = .reached passed deps →
    passed = (guards stack).reverse ∧
      ∃ s', runGuards check (afterInjects stack).reverse s = .ok s' ∧
        deps = (injected stack).map (get s')

/-- One of the guards outside the block of injects stops the call. -/
def StoppedOutside (stack : List (Decorator G)) (s : S) : Prop :=
  ∃ e, runGuards check (beforeInjects stack ++ afterInjects stack).reverse s = .error e

theorem guarded_iff (stack : List (Decorator G)) (s : S) :
    Guarded check get stack s ↔ betweenInjects stack = [] ∨ StoppedOutside check stack s := by
  unfold Guarded StoppedOutside
  rw [call_build, List.reverse_append, runGuards_append, guards_eq]
  cases hafter : runGuards check (afterInjects stack).reverse s with
  | error e => simp
  | ok s1 =>
    cases hbefore : runGuards check (beforeInjects stack).reverse s1 with
    | error e => simp [hbefore]
    | ok s2 =>
      simp [hbefore]

end

/-! ## The guards of `auth.py` -/

theorem inject_keeps_guards_iff (env : AuthEnv) (stack : List (Decorator Guard)) (s : CallState) :
    Guarded (Guard.check env) CallState.get stack s ↔
      betweenInjects stack = [] ∨ StoppedOutside (Guard.check env) stack s :=
  guarded_iff _ _ stack s

/-- `@inject("config") @requires_role("admin") @inject("database")` -/
def adminBetween : List (Decorator Guard) :=
  [.inject ["database"] (by decide), .guard (.role ["admin"] false), .inject ["config"] (by decide)]

def anonymousEnv : AuthEnv where
  prims := ⟨fun _ _ => [], fun _ => .ok "", fun _ => .ok .null, fun _ _ => .ok "", fun _ _ => .ok .null⟩
  str := fun _ => ""
  req := ⟨fun _ => none, fun _ => none, fun _ => none⟩

def freshState : CallState where
  ctx := { values := ∅, userId := none, isAuthenticated := false, roles := [], requestId := "",
           startTime := ⟨0, by decide⟩ }
  clock := fun _ => 0

theorem inject_drops_guard :
    ¬ ∀ (env : AuthEnv) (stack : List (Decorator Guard)) (s : CallState),
      Guarded (Guard.check env) CallState.get stack s := by
  intro h
  have hreached : (build adminBetween).call (Guard.check anonymousEnv) CallState.get freshState [] [] =
      .reached [] [.null, .null] := rfl
  obtain ⟨hpassed, -⟩ := h anonymousEnv adminBetween freshState _ _ hreached
  cases hpassed

end Hypern.Application
