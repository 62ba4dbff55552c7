import Hypern.Core.Dispatch
import Hypern.Middleware.Observers

/-! What a client gets, and what its handler is called with, does not depend on the middlewares that
only watch. -/

namespace Hypern.Core

open Http Lib Middleware Routing MiddlewareChain

variable {σ F : Type} {host : Host σ} {W : σ → σ → Prop}

/-- Handlers too see nothing of the log and the clock that `W` leaves open. -/
structure Unseeing (host : Host σ) (W : σ → σ → Prop) : Prop where
  discreet : Discreet host.outside W
  executes : ∀ hash req w w', W w w' → (host.httpExecute hash req w).1 = (host.httpExecute hash req w').1

/-- The chain `chain` is `chain'` and observers in between. -/
structure WatchedChain (chain chain' : MiddlewareChain) : Prop where
  before : Watched chain.before chain'.before
  errorHandlers : Watched chain.errorHandlers chain'.errorHandlers

theorem applyHeaders_answer (headers : List (String × String)) (res : Response) :
    (applyHeaders host headers res).status = res.status ∧ (applyHeaders host headers res).body = res.body := by
  unfold applyHeaders
  induction headers generalizing res with
  | nil => exact ⟨rfl, rfl⟩
  | cons h headers ih =>
    rw [List.foldl_cons]
    cases validHeader host h with
    | none => exact ih res
    | some field =>
      obtain ⟨name, value⟩ := field
      exact ih (res.insert name value)

/-- Whether a request takes the fast path or the slow one makes no difference to status and body. -/
theorem answer_eq_slowPath (state : AppState F) (incoming : Incoming) (w : σ) :
    (handleRequestInner host state incoming w).response.status =
        (slowPath host state (Request.fromAxum host.toCrates incoming) w).1.status ∧
      (handleRequestInner host state incoming w).response.body =
        (slowPath host state (Request.fromAxum host.toCrates incoming) w).1.body := by
  unfold handleRequestInner
  generalize Request.fromAxum host.toCrates incoming = req
  dsimp only
  split_ifs with hbefore
  · exact ⟨rfl, rfl⟩
  · have hempty : state.middleware.before = [] := by
      simpa [MiddlewareChain.isEmptyBefore] using hbefore
    have hphase : beforePhase host state req w = (.next, startContext host req w) := by
      rw [beforePhase, executeBefore, hempty]
      rfl
    unfold slowPath fastPath
    rw [hphase]
    cases hroute : findRoute host state req with
    | none =>
      dsimp only
      rw [runHandler_unmatched hroute]
      exact ⟨rfl, rfl⟩
    | some found =>
      obtain ⟨route, params⟩ := found
      dsimp only
      rw [runHandler_matched hroute]
      dsimp only
      obtain ⟨hstatus, hbody⟩ := @applyHeaders_answer σ host
        (executeAfter host.toCrates host.outside state.middleware
          (dispatch host (route.handlerHash host.xxh3_64) (req.setPathParams params)
            ((startContext host req w).modify (·.setParams params))).2).2.ctx.responseHeaders
        (dispatch host (route.handlerHash host.xxh3_64) (req.setPathParams params)
          ((startContext host req w).modify (·.setParams params))).1
      rw [hstatus, hbody]
      exact ⟨rfl, rfl⟩

section SameView

variable {state state' : AppState F} {x x' : Exchange σ} {req : Request}

theorem runHandler_sameView (hhost : Unseeing host W) (hrouter : state.router = state'.router)
    (hx : SameView W x x') :
    (runHandler host state req x).1.status = (runHandler host state' req x').1.status ∧
      (runHandler host state req x).1.body = (runHandler host state' req x').1.body := by
  have hfind : findRoute host state' req = findRoute host state req := by
    rw [findRoute, findRoute, hrouter]
  cases hroute : findRoute host state req with
  | none =>
    rw [runHandler_unmatched hroute, runHandler_unmatched (hfind.trans hroute)]
    exact ⟨rfl, rfl⟩
  | some found =>
    obtain ⟨route, params⟩ := found
    rw [runHandler_matched hroute, runHandler_matched (hfind.trans hroute)]
    dsimp only
    have hresponse := hhost.executes (route.handlerHash host.xxh3_64) (req.setPathParams params) _ _ hx.world
    rw [(applyHeaders_answer _ _).1, (applyHeaders_answer _ _).1, (applyHeaders_answer _ _).2,
      (applyHeaders_answer _ _).2]
    exact ⟨congrArg (·.status) hresponse, congrArg (·.body) hresponse⟩

/-- What `execute_error` puts into the state. -/
def withError (e : MiddlewareError) (x : Exchange σ) : Exchange σ :=
  x.modify fun ctx => ((ctx.setState "error_code" (.string e.code)).setState "error_message"
    (.string e.message)).setState "error_status" (.int e.status)

theorem executeError_fst (chain : MiddlewareChain) (e : MiddlewareError) (x : Exchange σ) :
    (chain.executeError host.toCrates host.outside e x).1 =
      some ((MiddlewareChain.handleError host.toCrates host.outside x.ctx.path chain.errorHandlers 0
        (withError e x)).1.getD e.toResponse) := by
  have hpath : x.ctx.path = (withError e x).ctx.path := rfl
  rw [hpath]
  unfold MiddlewareChain.executeError withError
  dsimp only
  generalize MiddlewareChain.handleError host.toCrates host.outside _ chain.errorHandlers 0 _ = r
  obtain ⟨_ | r, x'⟩ := r <;> rfl

theorem executeError_sameView {chain chain' : MiddlewareChain} (hhost : Unseeing host W)
    (hchain : WatchedChain chain chain') (e : MiddlewareError) (hx : SameView W x x') :
    (chain.executeError host.toCrates host.outside e x).1 =
      (chain'.executeError host.toCrates host.outside e x').1 := by
  have hpath : x.ctx.path = x'.ctx.path := congrArg (·.path) hx.ctx
  have herror : SameView W (withError e x) (withError e x') := ⟨hx.ctx, hx.world⟩
  rw [executeError_fst, executeError_fst, hpath,
    (hchain.errorHandlers.handleError hhost.discreet herror 0 0).1]

theorem slowPath_sameView (hhost : Unseeing host W) (hrouter : state.router = state'.router)
    (hchain : WatchedChain state.middleware state'.middleware) (w : σ) :
    (beforePhase host state req w).1 = (beforePhase host state' req w).1 ∧
      (slowPath host state req w).1.status = (slowPath host state' req w).1.status ∧
      (slowPath host state req w).1.body = (slowPath host state' req w).1.body := by
  have hstart : SameView W (startContext host req w) (startContext host req w) :=
    ⟨rfl, hhost.discreet.refl _⟩
  have hbefore : (beforePhase host state req w).1 = (beforePhase host state' req w).1 ∧
      SameView W (beforePhase host state req w).2 (beforePhase host state' req w).2 :=
    hchain.before.execute hhost.discreet hstart 0 0
  refine ⟨hbefore.1, ?_⟩
  unfold slowPath
  generalize beforePhase host state req w = r at hbefore ⊢
  generalize beforePhase host state' req w = r' at hbefore ⊢
  obtain ⟨result, x⟩ := r
  obtain ⟨result', x'⟩ := r'
  obtain ⟨rfl, hx⟩ : result = result' ∧ SameView W x x' := hbefore
  cases result with
  | next => exact runHandler_sameView hhost hrouter hx
  | response r => exact ⟨rfl, rfl⟩
  | error e =>
    have herror := executeError_sameView hhost hchain e hx
    dsimp only
    generalize state.middleware.executeError host.toCrates host.outside e x = answer at herror ⊢
    generalize state'.middleware.executeError host.toCrates host.outside e x' = answer' at herror ⊢
    obtain ⟨r, y⟩ := answer
    obtain ⟨r', y'⟩ := answer'
    obtain rfl : r = r' := herror
    cases r <;> exact ⟨rfl, rfl⟩

end SameView

/-- Observers can be put anywhere into the chain: a request gets the same status and the same body, and
the same handler is called with the same request, as if they were not there. -/
theorem observers_change_no_answer {state state' : AppState F} (hhost : Unseeing host W)
    (hrouter : state.router = state'.router) (hchain : WatchedChain state.middleware state'.middleware)
    (incoming : Incoming) (w : σ) :
    (handleRequestInner host state incoming w).response.status =
        (handleRequestInner host state' incoming w).response.status ∧
      (handleRequestInner host state incoming w).response.body =
        (handleRequestInner host state' incoming w).response.body ∧
      ∀ hash req, .dispatched hash req ∈ (handleRequestInner host state incoming w).log ↔
        .dispatched hash req ∈ (handleRequestInner host state' incoming w).log := by
  obtain ⟨hbefore, hstatus, hbody⟩ := @slowPath_sameView σ F host W state state'
    (Request.fromAxum host.toCrates incoming) hhost hrouter hchain w
  refine ⟨?_, ?_, fun hash req => ?_⟩
  · rw [(answer_eq_slowPath state incoming w).1, (answer_eq_slowPath state' incoming w).1, hstatus]
  · rw [(answer_eq_slowPath state incoming w).2, (answer_eq_slowPath state' incoming w).2, hbody]
  · rw [dispatched_mem_iff rfl, dispatched_mem_iff rfl, hbefore, findRoute, findRoute, hrouter]

def guardedArea : AppState Unit :=
  ⟨oneRoute, ⟨[(BasicAuthMiddleware.new "area").toRustMiddleware], [], []⟩⟩

/-- The same with the security headers and the request id before it. -/
def watchedArea : AppState Unit :=
  ⟨oneRoute, ⟨[securityHeadersMiddleware {}, (RequestIdMiddleware.mk "X-Request-ID" true).toRustMiddleware
    plainHost.toCrates, (BasicAuthMiddleware.new "area").toRustMiddleware], [], []⟩⟩

def oneGet : Incoming := ⟨some ("/", none), "GET", [], none⟩

theorem observers_change_no_answer_area :
    (handleRequestInner plainHost watchedArea oneGet ()).response.status =
      (handleRequestInner plainHost guardedArea oneGet ()).response.status :=
  have hhost : Unseeing plainHost fun _ _ => True :=
    ⟨⟨fun _ => trivial, fun _ _ _ _ _ => trivial, fun _ _ _ _ _ => ⟨rfl, trivial⟩⟩,
      fun _ _ _ _ _ => rfl⟩
  have hchain : WatchedChain watchedArea.middleware guardedArea.middleware :=
    ⟨.watch (observer_securityHeaders {}) (.watch (observer_requestId _ _)
      (.keep (unaware_basicAuth _) .nil)), .nil⟩
  (@observers_change_no_answer Unit Unit plainHost _ watchedArea guardedArea hhost rfl hchain oneGet ()).1

end Hypern.Core
