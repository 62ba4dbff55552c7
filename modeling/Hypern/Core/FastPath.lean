import Hypern.Core.Worker

/-! The branch of `handle_request_inner` without before-middleware, compared with the branch
for one before-middleware that does nothing. -/

namespace Hypern.Core

open Http Middleware Routing MiddlewareChain

variable {σ F : Type}

/-- A middleware that lets every request through and leaves everything as it is. -/
structure InertMiddleware (host : Host σ) extends RustMiddleware where
  inert : ∀ x, toRustMiddleware.run host.toCrates host.outside x = (.next, x)

def afterRuns (log : List Entry) : List Nat :=
  log.filterMap fun
    | .executed .after i => some i
    | _ => none

def AppState.withBefore (state : AppState F) (before : List RustMiddleware) : AppState F :=
  { state with middleware := { state.middleware with before } }

/-- The same response and the same after-middleware, in the same order. -/
def PathsAgree (host : Host σ) (state : AppState F) (m : InertMiddleware host)
    (incoming : Incoming) (w : σ) : Prop :=
  let fast := handleRequestInner host (state.withBefore []) incoming w
  let slow := handleRequestInner host (state.withBefore [m.toRustMiddleware]) incoming w
  fast.response = slow.response ∧ afterRuns fast.log = afterRuns slow.log

/-! ## A loop in which nothing runs, and one in which something does -/

section Loop

variable {c : Crates} {outside : String → σ → String × σ} {path : String} {method : HttpMethod}

@[simp] theorem afterRuns_append (l l' : List Entry) :
    afterRuns (l ++ l') = afterRuns l ++ afterRuns l' := List.filterMap_append

theorem execute_none {ms : List RustMiddleware} (h : ∀ m ∈ ms, m.applies path method = false)
    (i : Nat) (x : Exchange σ) :
    ∃ log, execute c outside .after path method ms i x = (.next, { x with log := x.log ++ log }) ∧
      afterRuns log = [] := by
  -- each turn of the loop only adds its check to the log
  induction ms generalizing i x with
  | nil => exact ⟨[], by simp [execute], rfl⟩
  | cons m ms ih =>
    obtain ⟨log, hlog, hruns⟩ := ih (fun m' hm' => h m' (List.mem_cons_of_mem _ hm')) (i + 1)
      (x.record (.checked .after i path x.ctx.path))
    refine ⟨.checked .after i path x.ctx.path :: log, ?_, ?_⟩
    · rw [execute_cons_skip (h m List.mem_cons_self), hlog]
      simp [Exchange.record]
    · exact hruns

theorem execute_some {ms : List RustMiddleware} (h : ∃ m ∈ ms, m.applies path method = true)
    (i : Nat) (x : Exchange σ) :
    ∃ j, .executed .after j ∈ (execute c outside .after path method ms i x).2.log := by
  induction ms generalizing i x with
  | nil => simp at h
  | cons m ms ih =>
    cases happlies : m.applies path method with
    | false =>
      rw [execute_cons_skip happlies]
      obtain ⟨m', hm', hm'applies⟩ := h
      rcases List.mem_cons.mp hm' with rfl | htail
      · rw [happlies] at hm'applies
        cases hm'applies
      · exact ih ⟨m', htail, hm'applies⟩ _ _
    | true => exact ⟨i, executed_mem_execute happlies ms i x⟩

end Loop

/-! ## The two branches -/

section Branches

variable {host : Host σ} {state : AppState F} {m : InertMiddleware host} {req : Request} {w : σ}

theorem executeBefore_inert (m : InertMiddleware host) (after errorHandlers : List RustMiddleware)
    (x : Exchange σ) :
    ∃ log, MiddlewareChain.executeBefore host.toCrates host.outside
        ⟨[m.toRustMiddleware], after, errorHandlers⟩ x =
          (.next, { x with log := x.log ++ log }) ∧ afterRuns log = [] := by
  unfold executeBefore
  cases happlies : m.applies x.ctx.path x.ctx.method with
  | false =>
    rw [execute_cons_skip happlies]
    exact ⟨[.checked .before 0 x.ctx.path x.ctx.path], rfl, rfl⟩
  | true =>
    rw [execute_cons_run happlies, m.inert]
    refine ⟨[.checked .before 0 x.ctx.path x.ctx.path, .executed .before 0], ?_, rfl⟩
    simp [execute, Exchange.record]

theorem handle_withBefore_inert (host : Host σ) (state : AppState F) (m : InertMiddleware host)
    (incoming : Incoming) (w : σ) :
    ∃ log, afterRuns log = [] ∧
      let req := Request.fromAxum host.toCrates incoming
      let r := runHandler host state req { startContext host req w with log }
      handleRequestInner host (state.withBefore [m.toRustMiddleware]) incoming w =
        ⟨r.1, r.2.world, r.2.log⟩ := by
  -- the context is still as new when the handler is looked up
  obtain ⟨log, hbefore, hruns⟩ := executeBefore_inert m state.middleware.after
    state.middleware.errorHandlers (startContext host (Request.fromAxum host.toCrates incoming) w)
  refine ⟨log, hruns, ?_⟩
  simp only [handleRequestInner, AppState.withBefore, isEmptyBefore, List.isEmpty_cons,
    Bool.not_false, if_true, slowPath, beforePhase, hbefore]
  rfl

theorem after_unnoticed_iff (host : Host σ) (chain : MiddlewareChain) (res : Response)
    (x : Exchange σ) {x' : Exchange σ}
    (hx' : (chain.executeAfter host.toCrates host.outside x).2 = x')
    (hlog : afterRuns x.log = []) (hheaders : x.ctx.responseHeaders = []) :
    res = applyHeaders host x'.ctx.responseHeaders res ∧ [] = afterRuns x'.log ↔
      ∀ a ∈ chain.after, a.applies x.ctx.path x.ctx.method = false := by
  subst hx'
  unfold executeAfter
  constructor
  · rintro ⟨_, hruns⟩ a ha
    by_contra happlies
    obtain ⟨j, hj⟩ := execute_some ⟨a, ha, eq_true_of_ne_false happlies⟩ 0 x
    have hmem : j ∈ afterRuns _ := List.mem_filterMap.mpr ⟨_, hj, rfl⟩
    rw [← hruns] at hmem
    cases hmem
  · intro hnone
    obtain ⟨checks, hafter, hchecks⟩ := execute_none hnone 0 x
    rw [hafter]
    simp [hheaders, applyHeaders, hlog, hchecks]

theorem pathsAgree_iff_no_after (host : Host σ) (state : AppState F) (m : InertMiddleware host)
    (incoming : Incoming) (w : σ) :
    PathsAgree host state m incoming w ↔
      let req := Request.fromAxum host.toCrates incoming
      findRoute host state req = none ∨
        ∀ a ∈ state.middleware.after, a.applies req.path req.method = false := by
  obtain ⟨log, hruns, hslow⟩ := handle_withBefore_inert host state m incoming w
  have hfast : handleRequestInner host (state.withBefore []) incoming w =
      fastPath host state (Request.fromAxum host.toCrates incoming) w := rfl
  dsimp only [PathsAgree] at hslow ⊢
  rw [hslow, hfast]
  generalize Request.fromAxum host.toCrates incoming = req
  cases hroute : findRoute host state req with
  | none =>
    rw [runHandler_unmatched hroute, fastPath, hroute]
    exact iff_of_true ⟨rfl, hruns.symm⟩ (.inl rfl)
  | some found =>
    obtain ⟨route, params⟩ := found
    have hlog : afterRuns (log ++ [.dispatched (route.handlerHash host.xxh3_64)
        (req.setPathParams params)]) = [] := by
      rw [afterRuns_append, hruns]
      rfl
    have hmethod : (startContext host req w).ctx.method = req.method := startContext_method req w
    rw [runHandler_matched hroute, fastPath, hroute, or_iff_right (by simp), ← hmethod]
    exact after_unnoticed_iff host state.middleware _ _ rfl hlog rfl

end Branches

/-! ## An after-middleware that the fast branch skips -/

def loggedApp : AppState Unit :=
  ⟨oneRoute, [], [⟨.ret .next, fun _ => true, fun _ => true⟩], []⟩

def letThrough : InertMiddleware plainHost :=
  ⟨⟨.ret .next, fun _ => true, fun _ => true⟩, fun _ => rfl⟩

theorem fast_path_skips_after :
    ¬ ∀ (σ F : Type) (host : Host σ) (state : AppState F) (m : InertMiddleware host)
      (incoming : Incoming) (w : σ), PathsAgree host state m incoming w := by
  intro h
  have hruns := (h Unit Unit plainHost loggedApp letThrough ⟨some ("/", none), "GET", [], none⟩ ()).2
  exact absurd hruns (by decide)

end Hypern.Core
