import Hypern.Http.Request
import Hypern.Lib.Effect

/-! The context that the Rust middleware of a request share, and the code of a middleware
as a program over the operations of that context. -/

namespace Hypern.Middleware

open Http Lib

structure MiddlewareResponse where
  status : Nat
  headers : List (String × String)
  body : List UInt8

structure MiddlewareError where
  code : String
  message : String
  status : Nat

inductive MiddlewareResult
  /-- `Continue()` -/
  | next
  | response (r : MiddlewareResponse)
  | error (e : MiddlewareError)

def MiddlewareResponse.withHeader (r : MiddlewareResponse) (key value : String) :
    MiddlewareResponse := { r with headers := r.headers ++ [(key, value)] }

def MiddlewareResponse.withTextBody (r : MiddlewareResponse) (body : String) : MiddlewareResponse :=
  { r with headers := r.headers ++ [("content-type", "text/plain")], body := utf8 body }

def MiddlewareResponse.withJsonBody (r : MiddlewareResponse) (body : String) : MiddlewareResponse :=
  { r with headers := r.headers ++ [("content-type", "application/json")], body := utf8 body }

def MiddlewareError.toResponse (e : MiddlewareError) : MiddlewareResponse :=
  MiddlewareResponse.withJsonBody ⟨e.status, [], []⟩
    ("\x7b\"error\":\"" ++ e.code ++ "\",\"message\":\"" ++ e.message ++ "\"\x7d")

/-- A value in the state of the middleware; a float by its bits. -/
inductive StateValue
  | string (s : String)
  | int (i : Int)
  | float (bits : UInt64)
  | bool (b : Bool)
  | bytes (b : List UInt8)

structure MiddlewareState where
  values : AList fun _ : String => StateValue := ∅
  userId : Option String := none
  isAuthenticated : Bool := false
  roles : List String := []
  traceId : Option String := none

structure MiddlewareContext where
  path : String
  method : HttpMethod
  headers : StrMap
  queryString : String
  /-- Parsed when it is first asked for. -/
  queryParams : Option StrMap
  pathParams : StrMap
  body : Option (List UInt8)
  state : Option MiddlewareState
  responseHeaders : List (String × String)
  requestId : String

namespace MiddlewareContext

def new (path : String) (method : HttpMethod) (headers : StrMap) (queryString : String)
    (body : Option (List UInt8)) (requestId : String) : MiddlewareContext :=
  { path, method, headers, queryString, queryParams := none, pathParams := ∅, body, state := none,
    responseHeaders := [], requestId }

variable (c : Crates) (ctx : MiddlewareContext)

def params : StrMap := ctx.queryParams.getD (parseQuery c ctx.queryString)

def ensureQueryParams : MiddlewareContext := { ctx with queryParams := some (ctx.params c) }

def getHeader (name : String) : Option String := ctx.headers.lookup (c.toLowercase name)

def setHeader (name value : String) : MiddlewareContext :=
  { ctx with headers := ctx.headers.insert (c.toLowercase name) value }

def removeHeader (name : String) : Option String × MiddlewareContext :=
  (ctx.headers.lookup (c.toLowercase name),
    { ctx with headers := ctx.headers.erase (c.toLowercase name) })

def getQuery (name : String) : Option String × MiddlewareContext :=
  ((ctx.params c).lookup name, ctx.ensureQueryParams c)

def setQuery (name value : String) : MiddlewareContext :=
  { ctx with queryParams := some ((ctx.params c).insert name value) }

def removeQuery (name : String) : Option String × MiddlewareContext :=
  ((ctx.params c).lookup name, { ctx with queryParams := some ((ctx.params c).erase name) })

def setParams (params : StrMap) : MiddlewareContext := { ctx with pathParams := params }

def addResponseHeader (name value : String) : MiddlewareContext :=
  { ctx with responseHeaders := ctx.responseHeaders ++ [(name, value)] }

def modifyState (f : MiddlewareState → MiddlewareState) : MiddlewareContext :=
  { ctx with state := some (f (ctx.state.getD {})) }

def setState (key : String) (value : StateValue) : MiddlewareContext :=
  ctx.modifyState fun s => { s with values := s.values.insert key value }

def setAuthenticated (userId : String) (roles : List String) : MiddlewareContext :=
  ctx.modifyState fun s => { s with isAuthenticated := true, userId := some userId, roles }

end MiddlewareContext

/-! ## The operations of a middleware -/

/-- The methods of the context, and `outside` for whatever else a middleware consults: its own
store, the clock, the log. -/
inductive CtxOp
  | path | method | queryString | requestId | bodyBytes | getResponseHeaders | headers
  | getHeader (name : String)
  | setHeader (name value : String)
  | removeHeader (name : String)
  | getQuery (name : String)
  | setQuery (name value : String)
  | removeQuery (name : String)
  | getParam (name : String)
  | setParam (name value : String)
  | setBody (body : List UInt8)
  | clearBody
  | takeBody
  | setPath (path : String)
  | setQueryString (queryString : String)
  | addResponseHeader (name value : String)
  | setState (key : String) (value : StateValue)
  | getState (key : String)
  | setAuthenticated (userId : String) (roles : List String)
  | isAuthenticated
  | userId
  | hasRole (role : String)
  | outside (question : String)

abbrev CtxOp.Res : CtxOp → Type
  | .path | .queryString | .requestId | .outside _ => String
  | .method => HttpMethod
  | .getResponseHeaders => List (String × String)
  | .headers => StrMap
  | .bodyBytes | .takeBody => Option (List UInt8)
  | .getHeader _ | .removeHeader _ | .getQuery _ | .removeQuery _ | .getParam _ | .userId =>
    Option String
  | .getState _ => Option StateValue
  | .isAuthenticated | .hasRole _ => Bool
  | _ => Unit

abbrev MwCode := Prog CtxOp CtxOp.Res Empty MiddlewareResult

inductive Phase
  | before | after | error
  deriving DecidableEq

/-- What is observed of a request on its way through the core. -/
inductive Entry
  /-- `applies_to` was asked about `seen` while the context's path was `current`. -/
  | checked (phase : Phase) (index : Nat) (seen current : String)
  | executed (phase : Phase) (index : Nat)
  | dispatched (hash : UInt64) (req : Request)

structure Exchange (σ : Type) where
  ctx : MiddlewareContext
  world : σ
  log : List Entry

namespace Exchange

variable {σ : Type}

def record (x : Exchange σ) (e : Entry) : Exchange σ := { x with log := x.log ++ [e] }

def modify (x : Exchange σ) (f : MiddlewareContext → MiddlewareContext) : Exchange σ :=
  { x with ctx := f x.ctx }

def perform (c : Crates) (outside : String → σ → String × σ) :
    (op : CtxOp) → Exchange σ → op.Res × Exchange σ
  | .path, x => (x.ctx.path, x)
  | .method, x => (x.ctx.method, x)
  | .queryString, x => (x.ctx.queryString, x)
  | .requestId, x => (x.ctx.requestId, x)
  | .bodyBytes, x => (x.ctx.body, x)
  | .getResponseHeaders, x => (x.ctx.responseHeaders, x)
  | .headers, x => (x.ctx.headers, x)
  | .getHeader name, x => (x.ctx.getHeader c name, x)
  | .setHeader name value, x => ((), x.modify (·.setHeader c name value))
  | .removeHeader name, x =>
    ((x.ctx.removeHeader c name).1, x.modify fun ctx => (ctx.removeHeader c name).2)
  | .getQuery name, x => ((x.ctx.getQuery c name).1, x.modify fun ctx => (ctx.getQuery c name).2)
  | .setQuery name value, x => ((), x.modify (·.setQuery c name value))
  | .removeQuery name, x =>
    ((x.ctx.removeQuery c name).1, x.modify fun ctx => (ctx.removeQuery c name).2)
  | .getParam name, x => (x.ctx.pathParams.lookup name, x)
  | .setParam name value, x =>
    ((), x.modify fun ctx => { ctx with pathParams := ctx.pathParams.insert name value })
  | .setBody body, x => ((), x.modify fun ctx => { ctx with body := some body })
  | .clearBody, x => ((), x.modify fun ctx => { ctx with body := none })
  | .takeBody, x => (x.ctx.body, x.modify fun ctx => { ctx with body := none })
  | .setPath path, x => ((), x.modify fun ctx => { ctx with path })
  | .setQueryString queryString, x => ((), x.modify fun ctx => { ctx with queryString })
  | .addResponseHeader name value, x => ((), x.modify (·.addResponseHeader name value))
  | .setState key value, x => ((), x.modify (·.setState key value))
  | .getState key, x => (x.ctx.state.bind (·.values.lookup key), x)
  | .setAuthenticated userId roles, x => ((), x.modify (·.setAuthenticated userId roles))
  | .isAuthenticated, x => ((x.ctx.state.map (·.isAuthenticated)).getD false, x)
  | .userId, x => (x.ctx.state.bind (·.userId), x)
  | .hasRole role, x => ((x.ctx.state.map (·.roles.contains role)).getD false, x)
  | .outside question, x =>
    ((outside question x.world).1, { x with world := (outside question x.world).2 })

def step (c : Crates) (outside : String → σ → String × σ) (op : CtxOp) (x : Exchange σ) :
    Except Empty op.Res × Exchange σ :=
  (.ok (perform c outside op x).1, (perform c outside op x).2)

end Exchange

end Hypern.Middleware
