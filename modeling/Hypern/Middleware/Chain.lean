import Hypern.Middleware.Context

/-! The chain of Rust middleware around the handlers, and how it runs them. -/

namespace Hypern.Middleware

open Http Lib

structure RustMiddleware where
  execute : MwCode
  appliesTo : String → Bool
  appliesToMethod : HttpMethod → Bool

namespace RustMiddleware

variable {σ : Type}

/-- Running a middleware on the shared context. -/
def run (c : Crates) (outside : String → σ → String × σ) (m : RustMiddleware) (x : Exchange σ) :
    MiddlewareResult × Exchange σ :=
  match Prog.run (Exchange.step c outside) m.execute x with
  | (.ok r, x') => (r, x')
  | (.error e, _) => nomatch e

def applies (m : RustMiddleware) (path : String) (method : HttpMethod) : Bool :=
  m.appliesTo path && m.appliesToMethod method

end RustMiddleware

structure MiddlewareChain where
  before : List RustMiddleware
  after : List RustMiddleware
  errorHandlers : List RustMiddleware

namespace MiddlewareChain

variable {σ : Type} (c : Crates) (outside : String → σ → String × σ)

/-- The loop of `execute_before` and `execute_after`: every check is about the path that was
read before the loop. -/
def execute (phase : Phase) (path : String) (method : HttpMethod) :
    List RustMiddleware → Nat → Exchange σ → MiddlewareResult × Exchange σ
  | [], _, x => (.next, x)
  | m :: ms, i, x =>
    let x := x.record (.checked phase i path x.ctx.path)
    if !m.appliesTo path || !m.appliesToMethod method then
      execute phase path method ms (i + 1) x
    else match m.run c outside (x.record (.executed phase i)) with
      | (.next, x') => execute phase path method ms (i + 1) x'
      | (result, x') => (result, x')

def executeBefore (chain : MiddlewareChain) (x : Exchange σ) : MiddlewareResult × Exchange σ :=
  execute c outside .before x.ctx.path x.ctx.method chain.before 0 x

def executeAfter (chain : MiddlewareChain) (x : Exchange σ) : MiddlewareResult × Exchange σ :=
  execute c outside .after x.ctx.path x.ctx.method chain.after 0 x

def handleError (path : String) :
    List RustMiddleware → Nat → Exchange σ → Option MiddlewareResponse × Exchange σ
  | [], _, x => (none, x)
  | m :: ms, i, x =>
    let x := x.record (.checked .error i path x.ctx.path)
    if !m.appliesTo path then handleError path ms (i + 1) x
    else match m.run c outside (x.record (.executed .error i)) with
      | (.response r, x') => (some r, x')
      | (_, x') => handleError path ms (i + 1) x'

/-- The error is put into the state, the handlers are asked, and the error's own response is
the default; so there always is a response. -/
def executeError (chain : MiddlewareChain) (e : MiddlewareError) (x : Exchange σ) :
    Option MiddlewareResponse × Exchange σ :=
  let x := x.modify fun ctx =>
    ((ctx.setState "error_code" (.string e.code)).setState "error_message"
      (.string e.message)).setState "error_status" (.int e.status)
  match handleError c outside x.ctx.path chain.errorHandlers 0 x with
  | (some r, x') => (some r, x')
  | (none, x') => (some e.toResponse, x')

def isEmptyBefore (chain : MiddlewareChain) : Bool := chain.before.isEmpty

def isEmptyAfter (chain : MiddlewareChain) : Bool := chain.after.isEmpty

end MiddlewareChain

/-! ## What one middleware and a whole chain keep -/

section Run

variable {σ : Type} {c : Crates} {outside : String → σ → String × σ}

theorem run_preserves (Inv : Exchange σ → Prop)
    (hstep : ∀ op x, Inv x → Inv (Exchange.perform c outside op x).2) (m : RustMiddleware)
    {x : Exchange σ} (hx : Inv x) : Inv (m.run c outside x).2 := by
  have hrun : Inv (Prog.run (Exchange.step c outside) m.execute x).2 :=
    Prog.Preserves.of_step hstep m.execute x hx
  unfold RustMiddleware.run
  split
  next r x' hr => rwa [hr] at hrun
  next e _ _ => exact nomatch e

theorem perform_log (op : CtxOp) (x : Exchange σ) :
    (Exchange.perform c outside op x).2.log = x.log := by
  cases op <;> rfl

theorem run_log (m : RustMiddleware) (x : Exchange σ) : (m.run c outside x).2.log = x.log := by
  exact run_preserves (·.log = x.log) (fun op x' hx' => (perform_log op x').trans hx') m rfl

namespace MiddlewareChain

variable {phase : Phase} {path : String} {method : HttpMethod}

theorem execute_cons_skip {m : RustMiddleware} (h : m.applies path method = false)
    (ms : List RustMiddleware) (i : Nat) (x : Exchange σ) :
    execute c outside phase path method (m :: ms) i x =
      execute c outside phase path method ms (i + 1)
        (x.record (.checked phase i path x.ctx.path)) := by
  have hskip : (!m.appliesTo path || !m.appliesToMethod method) = true := by
    rw [← Bool.not_and]
    exact congrArg (!·) h
  simp only [execute, hskip, if_true]

theorem execute_cons_run {m : RustMiddleware} (h : m.applies path method = true)
    (ms : List RustMiddleware) (i : Nat) (x : Exchange σ) :
    execute c outside phase path method (m :: ms) i x =
      match m.run c outside ((x.record (.checked phase i path x.ctx.path)).record
        (.executed phase i)) with
      | (.next, x') => execute c outside phase path method ms (i + 1) x'
      | (result, x') => (result, x') := by
  have hrun : (!m.appliesTo path || !m.appliesToMethod method) = false := by
    rw [← Bool.not_and]
    exact congrArg (!·) h
  simp only [execute, hrun, Bool.false_eq_true, if_false]

def OfLoop (phase : Phase) (path : String) : Entry → Prop
  | .checked p _ seen _ => p = phase ∧ seen = path
  | .executed p _ => p = phase
  | .dispatched _ _ => False

theorem execute_preserves (Inv : Exchange σ → Prop)
    (hstep : ∀ op x, Inv x → Inv (Exchange.perform c outside op x).2)
    (hrecord : ∀ x e, OfLoop phase path e → Inv x → Inv (x.record e)) (ms : List RustMiddleware)
    (i : Nat) {x : Exchange σ} (hx : Inv x) :
    Inv (execute c outside phase path method ms i x).2 := by
  -- the induction is on the middlewares that are left; `Inv` is carried through each run
  induction ms generalizing i x with
  | nil => exact hx
  | cons m ms ih =>
    cases happlies : m.applies path method with
    | false =>
      rw [execute_cons_skip happlies]
      exact ih _ (hrecord _ _ ⟨rfl, rfl⟩ hx)
    | true =>
      rw [execute_cons_run happlies]
      have hrun := run_preserves Inv hstep m (hrecord _ (.executed phase i) rfl
        (hrecord _ (.checked phase i path x.ctx.path) ⟨rfl, rfl⟩ hx))
      split
      next x' heq =>
        rw [heq] at hrun
        exact ih _ hrun
      next r x' _ heq =>
        rw [heq] at hrun
        exact hrun

/-- The loop adds to the log, and only entries of its own. -/
theorem log_execute (ms : List RustMiddleware) (i : Nat) (x : Exchange σ) :
    ∃ log, (execute c outside phase path method ms i x).2.log = x.log ++ log ∧
      ∀ e ∈ log, OfLoop phase path e := by
  refine execute_preserves (fun x' => ∃ log, x'.log = x.log ++ log ∧ ∀ e ∈ log, OfLoop phase path e)
    (fun op x' hx' => ?_) (fun x' e he hx' => ?_) ms i ⟨[], by simp, by simp⟩
  · rwa [perform_log]
  · obtain ⟨log, hlog, hall⟩ := hx'
    refine ⟨log ++ [e], by simp [Exchange.record, hlog], fun e' he' => ?_⟩
    rcases List.mem_append.mp he' with hold | hnew
    · exact hall e' hold
    · rwa [List.mem_singleton.mp hnew]

theorem executed_mem_execute {m : RustMiddleware} (h : m.applies path method = true)
    (ms : List RustMiddleware) (i : Nat) (x : Exchange σ) :
    .executed phase i ∈ (execute c outside phase path method (m :: ms) i x).2.log := by
  rw [execute_cons_run h]
  generalize hx₁ : (x.record (.checked phase i path x.ctx.path)).record (.executed phase i) = x₁
  have hmem : .executed phase i ∈ (m.run c outside x₁).2.log := by
    rw [run_log, ← hx₁]
    simp [Exchange.record]
  generalize m.run c outside x₁ = r at hmem ⊢
  obtain ⟨_ | _ | _, x'⟩ := r
  · obtain ⟨log, hlog, _⟩ := @log_execute σ c outside phase path method ms (i + 1) x'
    rw [hlog]
    exact List.mem_append_left _ hmem
  · exact hmem
  · exact hmem

end MiddlewareChain

end Run

end Hypern.Middleware
