import Hypern.Middleware.Chain

/-! Middleware for some paths or methods only, and what nesting such wrappers does. -/

namespace Hypern.Middleware

open Http

/-! ## The wrappers -/

/-- `PathMiddleware` with its `exact` flag. The other predicate is the default of the trait. -/
def pathMiddleware (inner : RustMiddleware) (paths : List String) (exact : Bool) :
    RustMiddleware where
  execute := inner.execute
  appliesTo path :=
    if exact then paths.any (· == path) else paths.any (·.toList.isPrefixOf path.toList)
  appliesToMethod _ := true

def methodMiddleware (inner : RustMiddleware) (methods : List HttpMethod) : RustMiddleware where
  execute := inner.execute
  appliesTo _ := true
  appliesToMethod method := methods.contains method

/-- One wrapper. -/
inductive Scope
  | pathScope (paths : List String) (exact : Bool)
  | methodScope (methods : List HttpMethod)

namespace Scope

def wrap (m : RustMiddleware) : Scope → RustMiddleware
  | .pathScope paths exact => pathMiddleware m paths exact
  | .methodScope methods => methodMiddleware m methods

/-- The condition of the wrapper. -/
def admits (path : String) (method : HttpMethod) : Scope → Bool
  | .pathScope paths exact =>
    if exact then paths.any (· == path) else paths.any (·.toList.isPrefixOf path.toList)
  | .methodScope methods => methods.contains method

/-- The wrappers around a middleware, the outermost first. -/
def nest (scopes : List Scope) (m : RustMiddleware) : RustMiddleware :=
  scopes.foldr (fun s m => s.wrap m) m

/-- Every condition holds: those of the wrappers and those of the middleware. -/
def AllAdmit (scopes : List Scope) (m : RustMiddleware) (path : String) (method : HttpMethod) :
    Prop :=
  (∀ s ∈ scopes, s.admits path method = true) ∧ m.applies path method = true

/-- A request that the outermost wrapper admits is one that everything in it admits. -/
def OuterDecides : List Scope → RustMiddleware → String → HttpMethod → Prop
  | [], _, _, _ => True
  | outer :: inner, m, path, method =>
    outer.admits path method = true → AllAdmit inner m path method

end Scope

variable {σ : Type} {c : Crates} {outside : String → σ → String × σ} {phase : Phase}
  {path : String} {method : HttpMethod} {m : RustMiddleware}

/-- What is inside a wrapper has no say in whether the wrapper applies. -/
theorem applies_wrap (s : Scope) : (s.wrap m).applies path method = s.admits path method := by
  cases s with
  | pathScope paths exact => exact Bool.and_true _
  | methodScope methods => exact Bool.true_and _

theorem applies_nest_iff (scopes : List Scope) :
    ((Scope.nest scopes m).applies path method = true ↔ Scope.AllAdmit scopes m path method) ↔
      Scope.OuterDecides scopes m path method := by
  cases scopes with
  | nil => simp [Scope.nest, Scope.AllAdmit, Scope.OuterDecides]
  | cons outer inner =>
    have hnest : Scope.nest (outer :: inner) m = outer.wrap (Scope.nest inner m) := rfl
    rw [hnest, applies_wrap]
    unfold Scope.OuterDecides Scope.AllAdmit
    rw [List.forall_mem_cons]
    constructor
    · intro h houter
      exact ⟨(h.mp houter).1.2, (h.mp houter).2⟩
    · intro h
      exact ⟨fun houter => ⟨⟨houter, (h houter).1⟩, (h houter).2⟩, fun hall => hall.1.1⟩

/-! ## The place of a middleware in the loop -/

namespace MiddlewareChain

/-- The entry is about a middleware from `first` on and before `last`. -/
def Within (first last : Nat) : Entry → Prop
  | .checked _ i _ _ => first ≤ i ∧ i < last
  | .executed _ i => first ≤ i ∧ i < last
  | .dispatched _ _ => False

theorem Within.mono {first first' last last' : Nat} (hfirst : first' ≤ first)
    (hlast : last ≤ last') {e : Entry} (he : Within first last e) : Within first' last' e := by
  cases e with
  | checked => exact ⟨Nat.le_trans hfirst he.1, Nat.lt_of_lt_of_le he.2 hlast⟩
  | executed => exact ⟨Nat.le_trans hfirst he.1, Nat.lt_of_lt_of_le he.2 hlast⟩
  | dispatched => exact he

theorem log_execute_within (ms : List RustMiddleware) (i : Nat) (x : Exchange σ) :
    ∃ log, (execute c outside phase path method ms i x).2.log = x.log ++ log ∧
      ∀ e ∈ log, Within i (i + ms.length) e := by
  induction ms generalizing i x with
  | nil => exact ⟨[], (List.append_nil _).symm, nofun⟩
  | cons m ms ih =>
    have hchecked : Within i (i + (m :: ms).length) (.checked phase i path x.ctx.path) :=
      ⟨le_refl i, by simp⟩
    have hexecuted : Within i (i + (m :: ms).length) (.executed phase i) := ⟨le_refl i, by simp⟩
    have hrest : ∀ e, Within (i + 1) (i + 1 + ms.length) e → Within i (i + (m :: ms).length) e :=
      fun e he => he.mono (by omega) (by simp only [List.length_cons]; omega)
    cases happlies : m.applies path method with
    | false =>
      rw [execute_cons_skip happlies]
      obtain ⟨log, hlog, hall⟩ := ih (i + 1) (x.record (.checked phase i path x.ctx.path))
      refine ⟨.checked phase i path x.ctx.path :: log, ?_, ?_⟩
      · rw [hlog]
        exact List.append_assoc _ _ _
      · exact List.forall_mem_cons.mpr ⟨hchecked, fun e he => hrest e (hall e he)⟩
    | true =>
      rw [execute_cons_run happlies]
      generalize hx₁ : (x.record (.checked phase i path x.ctx.path)).record (.executed phase i) = x₁
      have hlog₁ : (m.run c outside x₁).2.log =
          x.log ++ [.checked phase i path x.ctx.path, .executed phase i] := by
        rw [run_log, ← hx₁]
        exact List.append_assoc _ _ _
      have hstop : ∀ e ∈ [Entry.checked phase i path x.ctx.path, .executed phase i],
          Within i (i + (m :: ms).length) e :=
        List.forall_mem_cons.mpr ⟨hchecked, List.forall_mem_singleton.mpr hexecuted⟩
      generalize m.run c outside x₁ = r at hlog₁ ⊢
      obtain ⟨_ | _ | _, x'⟩ := r
      · obtain ⟨log, hlog, hall⟩ := ih (i + 1) x'
        refine ⟨[.checked phase i path x.ctx.path, .executed phase i] ++ log, ?_, ?_⟩
        · exact hlog.trans ((congrArg (· ++ log) hlog₁).trans (List.append_assoc _ _ _))
        · exact List.forall_mem_append.mpr ⟨hstop, fun e he => hrest e (hall e he)⟩
      · exact ⟨_, hlog₁, hstop⟩
      · exact ⟨_, hlog₁, hstop⟩

/-- When the first middlewares let the request pass, the loop goes on with the rest. -/
theorem execute_append {ms : List RustMiddleware} {i : Nat} {x x' : Exchange σ}
    (h : execute c outside phase path method ms i x = (.next, x')) (later : List RustMiddleware) :
    execute c outside phase path method (ms ++ later) i x =
      execute c outside phase path method later (i + ms.length) x' := by
  induction ms generalizing i x with
  | nil =>
    have hx : x = x' := (Prod.ext_iff.mp h).2
    rw [hx]
    rfl
  | cons m ms ih =>
    have hlength : i + (m :: ms).length = i + 1 + ms.length := by
      simp only [List.length_cons]
      omega
    rw [List.cons_append, hlength]
    cases happlies : m.applies path method with
    | false =>
      rw [execute_cons_skip happlies] at h ⊢
      exact ih h
    | true =>
      rw [execute_cons_run happlies] at h ⊢
      generalize m.run c outside _ = r at h ⊢
      obtain ⟨_ | _ | _, x₁⟩ := r
      · exact ih h
      · exact absurd (Prod.ext_iff.mp h).1 nofun
      · exact absurd (Prod.ext_iff.mp h).1 nofun

/-- The loop runs the middleware that it has come to when that applies. -/
theorem executed_mem_execute_iff {ms : List RustMiddleware} {i : Nat} {x : Exchange σ}
    (hx : .executed phase i ∉ x.log) :
    .executed phase i ∈ (execute c outside phase path method (m :: ms) i x).2.log ↔
      m.applies path method = true := by
  refine ⟨fun hmem => ?_, fun happlies => executed_mem_execute happlies ms i x⟩
  by_contra happlies
  rw [execute_cons_skip (Bool.eq_false_iff.mpr happlies)] at hmem
  obtain ⟨log, hlog, hall⟩ := @log_execute_within σ c outside phase path method ms (i + 1)
    (x.record (.checked phase i path x.ctx.path))
  rw [hlog] at hmem
  rcases List.mem_append.mp hmem with hold | hnew
  · rcases List.mem_append.mp hold with hold | hchecked
    · exact hx hold
    · exact absurd (List.mem_singleton.mp hchecked) nofun
  · exact absurd (hall _ hnew).1 (by omega)

end MiddlewareChain

/-! ## Nested wrappers -/

namespace Scope

/-- The wrappers work together exactly when the outermost one decides for all of them. -/
theorem nested_iff {chain : MiddlewareChain} {scopes : List Scope} {m : RustMiddleware}
    {earlier later : List RustMiddleware} {x x' : Exchange σ}
    (hchain : chain.before = earlier ++ nest scopes m :: later) (hx : x.log = [])
    (hearlier : MiddlewareChain.execute c outside .before x.ctx.path x.ctx.method earlier 0 x =
      (.next, x')) :
    (.executed .before earlier.length ∈ (chain.executeBefore c outside x).2.log ↔
        AllAdmit scopes m x.ctx.path x.ctx.method) ↔
      OuterDecides scopes m x.ctx.path x.ctx.method := by
  have hnew : .executed .before earlier.length ∉ x'.log := by
    obtain ⟨log, hlog, hall⟩ := @MiddlewareChain.log_execute_within σ c outside .before x.ctx.path
      x.ctx.method earlier 0 x
    rw [hearlier, hx] at hlog
    intro hmem
    rw [hlog, List.nil_append] at hmem
    exact absurd (hall _ hmem).2 (by omega)
  unfold MiddlewareChain.executeBefore
  rw [hchain, MiddlewareChain.execute_append hearlier, Nat.zero_add,
    MiddlewareChain.executed_mem_execute_iff hnew]
  exact applies_nest_iff scopes

/-- A middleware that lets every request pass. -/
def passAll : RustMiddleware := ⟨.ret .next, fun _ => true, fun _ => true⟩

/-- Posts below `/admin`, the method asked outside. -/
def adminPosts : List Scope := [.methodScope [.post], .pathScope ["/admin"] false]

def requestAt (path : String) (method : HttpMethod) : Exchange Unit :=
  ⟨.new path method ∅ "" none "", (), []⟩

theorem admin_post_runs :
    (.executed .before 0 ∈ (MiddlewareChain.executeBefore asciiCase (fun _ w => ("", w))
        ⟨[nest adminPosts passAll], [], []⟩ (requestAt "/admin/users" .post)).2.log ↔
      AllAdmit adminPosts passAll "/admin/users" .post) :=
  (@nested_iff Unit asciiCase (fun _ w => ("", w)) ⟨[nest adminPosts passAll], [], []⟩ adminPosts
    passAll [] [] (requestAt "/admin/users" .post) _ rfl rfl rfl).mpr fun _ =>
    ⟨List.forall_mem_singleton.mpr (by decide), rfl⟩

/-- A post elsewhere runs it too: only the method is asked. -/
theorem other_post_runs :
    ¬ ∀ (chain : MiddlewareChain) (scopes : List Scope) (m : RustMiddleware)
      (earlier later : List RustMiddleware) (x x' : Exchange Unit),
      chain.before = earlier ++ nest scopes m :: later → x.log = [] →
      MiddlewareChain.execute asciiCase (fun _ w => ("", w)) .before x.ctx.path x.ctx.method
        earlier 0 x = (.next, x') →
      (.executed .before earlier.length ∈
          (chain.executeBefore asciiCase (fun _ w => ("", w)) x).2.log ↔
        AllAdmit scopes m x.ctx.path x.ctx.method) := by
  intro h
  have hruns := h ⟨[nest adminPosts passAll], [], []⟩ adminPosts passAll [] []
    (requestAt "/public" .post) _ rfl rfl rfl
  have hall : AllAdmit adminPosts passAll "/public" .post := hruns.mp
    (MiddlewareChain.executed_mem_execute rfl [] 0 (requestAt "/public" .post))
  exact absurd (hall.1 _ (List.mem_cons_of_mem _ (List.mem_singleton_self _))) (by decide)

end Scope

end Hypern.Middleware
