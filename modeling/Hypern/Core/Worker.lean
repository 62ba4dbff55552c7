import Hypern.Middleware.Chain
import Hypern.Routing.Router

/-! `handle_request_inner`: one request from the wire to the response, through the chain of
Rust middleware, the router and the handler. -/

namespace Hypern.Core

open Http Middleware Routing

/-- What the worker runs on: other crates, the Python side and the rest of the world. -/
structure Host (σ : Type) extends Crates where
  xxh3_64 : List UInt8 → UInt64
  outside : String → σ → String × σ
  /-- `http_execute`: the handler registered for the hash, run on the request. -/
  httpExecute : UInt64 → Request → σ → Response × σ
  /-- The hash of the path, the query string and the clock. -/
  requestId : String → String → σ → String

structure AppState (F : Type) where
  router : Router F
  middleware : MiddlewareChain

structure Outcome (σ : Type) where
  response : Response
  world : σ
  log : List Entry

variable {σ F : Type} (host : Host σ)

def validHeader (h : String × String) : Option (String × String) := do
  let name ← host.headerName h.1
  let value ← host.headerValue h.2
  return (name, value)

/-- A builder keeps the first failure, and then the plain 500 is sent instead. -/
def middlewareResponseToHyper (r : MiddlewareResponse) : Response :=
  let fields := r.headers ++ [("content-length", toString r.body.length)]
  match fields.mapM (validHeader host) with
  | some headers =>
    if 100 ≤ r.status && r.status < 1000 then ⟨r.status, headers, r.body⟩
    else ⟨500, [], Lib.utf8 "Internal Server Error"⟩
  | none => ⟨500, [], Lib.utf8 "Internal Server Error"⟩

def applyHeaders (headers : List (String × String)) (res : Response) : Response :=
  headers.foldl (fun res h => match validHeader host h with
    | some (name, value) => res.insert name value
    | none => res) res

def dispatch (hash : UInt64) (req : Request) (x : Exchange σ) : Response × Exchange σ :=
  let r := host.httpExecute hash req x.world
  (r.1, { (x.record (.dispatched hash req)) with world := r.2 })

def startContext (req : Request) (w : σ) : Exchange σ :=
  let method := (HttpMethod.fromStr req.method.asStr).getD .get
  ⟨.new req.path method req.headersMap req.queryString req.body
    (host.requestId req.path req.queryString w), w, []⟩

def findRoute (state : AppState F) (req : Request) : Option (Route F × StrMap) :=
  state.router.findMatchingRoute host.toCrates req.path req.method.asStr

def runHandler (state : AppState F) (req : Request) (x : Exchange σ) : Response × Exchange σ :=
  match findRoute host state req with
  | none => (response404, x)
  | some (route, params) =>
    let req := req.setPathParams params
    let x := x.modify (·.setParams params)
    let r := dispatch host (route.handlerHash host.xxh3_64) req x
    let x := if !state.middleware.isEmptyAfter then
        (state.middleware.executeAfter host.toCrates host.outside r.2).2
      else r.2
    (applyHeaders host x.ctx.responseHeaders r.1, x)

def beforePhase (state : AppState F) (req : Request) (w : σ) : MiddlewareResult × Exchange σ :=
  state.middleware.executeBefore host.toCrates host.outside (startContext host req w)

def slowPath (state : AppState F) (req : Request) (w : σ) : Response × Exchange σ :=
  match beforePhase host state req w with
  | (.next, x) => runHandler host state req x
  | (.response r, x) => (middlewareResponseToHyper host r, x)
  | (.error e, x) =>
    match state.middleware.executeError host.toCrates host.outside e x with
    | (some r, x') => (middlewareResponseToHyper host r, x')
    | (none, x') => (middlewareResponseToHyper host e.toResponse, x')

def fastPath (state : AppState F) (req : Request) (w : σ) : Outcome σ :=
  match findRoute host state req with
  | some (route, params) =>
    let req := req.setPathParams params
    let hash := route.handlerHash host.xxh3_64
    let r := host.httpExecute hash req w
    ⟨r.1, r.2, [.dispatched hash req]⟩
  | none => ⟨response404, w, []⟩

def handleRequestInner (state : AppState F) (incoming : Incoming) (w : σ) : Outcome σ :=
  let req := Request.fromAxum host.toCrates incoming
  if !state.middleware.isEmptyBefore then
    let r := slowPath host state req w
    ⟨r.1, r.2.world, r.2.log⟩
  else fastPath host state req w

variable {host}

theorem startContext_method (req : Request) (w : σ) :
    (startContext host req w).ctx.method = req.method := by
  simp [startContext, MiddlewareContext.new, HttpMethod.fromStr_asStr]

theorem runHandler_unmatched {state : AppState F} {req : Request}
    (h : findRoute host state req = none) (x : Exchange σ) :
    runHandler host state req x = (response404, x) := by
  rw [runHandler, h]

theorem runHandler_matched {state : AppState F} {req : Request} {route : Route F} {params : StrMap}
    (h : findRoute host state req = some (route, params)) (x : Exchange σ) :
    runHandler host state req x =
      let r := dispatch host (route.handlerHash host.xxh3_64) (req.setPathParams params)
        (x.modify (·.setParams params))
      let x' := (state.middleware.executeAfter host.toCrates host.outside r.2).2
      (applyHeaders host x'.ctx.responseHeaders r.1, x') := by
  -- for an empty list `execute_after` does nothing either, so the test makes no difference
  rw [runHandler, h]
  cases hafter : state.middleware.after with
  | nil => simp [MiddlewareChain.isEmptyAfter, MiddlewareChain.executeAfter, hafter,
      MiddlewareChain.execute]
  | cons a as => simp [MiddlewareChain.isEmptyAfter, hafter]

def plainHost : Host Unit where
  toLowercase := String.toLower
  toUppercase := String.toUpper
  percentDecodeStr := percentDecode
  formUrlencoded := fun _ => []
  headerName := fun s => some s.toLower
  headerValue := some
  xxh3_64 := fun bytes => UInt64.ofNat bytes.length
  outside := fun _ w => ("", w)
  httpExecute := fun _ _ w => (⟨200, [], []⟩, w)
  requestId := fun _ _ _ => "0000000000000000"

def oneRoute : Router Unit where
  getRouter := fun path => if path = "/" then some (⟨"/", (), "GET"⟩, ∅) else none
  postRouter := fun _ => none
  putRouter := fun _ => none
  deleteRouter := fun _ => none
  patchRouter := fun _ => none
  headRouter := fun _ => none
  optionsRouter := fun _ => none

end Hypern.Core
