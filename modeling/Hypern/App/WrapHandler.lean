import Hypern.Python.Object

/-! `Hypern._wrap_handler`: the coroutine that runs one request through the
before-handlers, the middleware chain, the handler and the after-handlers, and
finalizes the request's database contexts at the end. -/

namespace Hypern.Application

open Lib Python Database

/-- `hypern.exceptions.ExceptionHandler`; the dictionary is a list in insertion order. -/
structure ExceptionHandler where
  handlers : List (String × PyObject)
  defaultHandler : Option PyObject

namespace ExceptionHandler

def getHandler (eh : ExceptionHandler) (e : PyExc) : Option PyObject :=
  match eh.handlers.find? fun h => e.mro.head? == some h.1 with
  | some h => some h.2
  | none =>
    match eh.handlers.find? fun h => e.isInstance h.1 with
    | some h => some h.2
    | none => eh.defaultHandler

def handleException (eh : ExceptionHandler) (e : PyExc) : Code :=
  match eh.getHandler e with
  | some h => h.invoke [.req, .res, .exc e]
  | none => (Op.defaultResponse e).call

end ExceptionHandler

/-- An entry of `self._middleware`: the object itself or a `(path, object)` tuple. -/
inductive MwEntry
  | plain (mw : PyObject)
  | scoped (path : String) (mw : PyObject)

structure App where
  beforeHandlers : List PyObject
  afterHandlers : List PyObject
  middleware : List MwEntry
  exceptionHandler : ExceptionHandler

/-- One request as the wrapper sees it: the id of the context that `create_context` makes or
the exception a factory raises, the path, and the aliases in `Database._databases`. -/
structure RequestEnv where
  requestId : String
  factoryError : Option PyExc
  path : String
  databases : List String

namespace RequestEnv

def isConfigured (env : RequestEnv) : Bool := env.databases.contains "default"

end RequestEnv

def startsWith (s pre : String) : Bool := pre.toList.isPrefixOf s.toList

def MwEntry.applicable (path : String) : MwEntry → Option PyObject
  | .scoped pathPrefix mw =>
    if startsWith path pathPrefix && (!mw.beforeRequest && !mw.afterRequest) &&
      (mw.callable || mw.isMiddleware) then some mw else none
  | .plain mw =>
    if mw.callable && (!mw.beforeRequest && !mw.afterRequest) &&
      (mw.isMiddleware || (match mw.argcount with | some n => decide (4 ≤ n) | none => false))
    then some mw else none

namespace App

variable (app : App) (env : RequestEnv)

def applicableMiddleware (path : String) : List PyObject :=
  app.middleware.filterMap (MwEntry.applicable path)

/-- The loop over the before-handlers; the result says whether the wrapper returns early. -/
def runBefore : List PyObject → PyM Bool
  | [] => .ret false
  | h :: hs => (recorded (h.invoke [.req, .res, .ctx])).attempt.bind fun
    | .ok _ => runBefore hs
    | .error e =>
      if e.isException then
        (app.exceptionHandler.handleException e).bind fun _ => .ret true
      else .raise e

/-- `try: p except Exception: pass` -/
def suppress (p : Code) : Code :=
  p.attempt.bind fun
    | .ok _ => .ret ()
    | .error e => if e.isException then .ret () else .raise e

/-- The attempt to mark the session for rollback: `_get_db` is given the request id only. -/
def markError : Code :=
  if env.isConfigured then
    suppress ((Op.getDb [env.requestId]).call.bind fun s => (Op.setError s).call)
  else .ret ()

def executeHandler (handler : PyObject) : Code :=
  (recorded (handler.invoke [.req, .res, .ctx])).attempt.bind fun
    | .ok _ => .ret ()
    | .error e =>
      if e.isException then
        (markError env).bind fun _ => app.exceptionHandler.handleException e
      else .raise e

def runAfter : List PyObject → Code
  | [] => .ret ()
  | h :: hs => (suppress (h.invoke [.req, .res, .ctx])).bind fun _ => runAfter hs

def runPipeline (handler : PyObject) (mws : List PyObject) : Code :=
  if mws.isEmpty then executeHandler app env handler else
    (runChain [.req, .res, .ctx, .next] mws (executeHandler app env handler)).attempt.bind fun
      | .ok _ => .ret ()
      | .error e =>
        if e.isException then app.exceptionHandler.handleException e else .raise e

def tryBody (handler : PyObject) (middleware : List PyObject) : Code :=
  (runBefore app app.beforeHandlers).bind fun early =>
    if early then .ret () else
      (runPipeline app env handler (app.applicableMiddleware env.path ++ middleware)).bind fun _ =>
        runAfter app.afterHandlers

def finalizeBlock : Code :=
  if env.isConfigured then suppress Op.finalizeDb.call else .ret ()

def wrapped (handler : PyObject) (middleware : List PyObject) : Code :=
  match env.factoryError with
  | some e => .raise e
  | none => (tryBody app env handler middleware).finallyDo (finalizeBlock env)

end App

/-! ## The surroundings of a request -/

inductive Event
  | enter (id : Nat) (args : List Arg)
  | escaped (e : PyExc)
  | db (dbAlias : String) (op : Option SessionOp) (ok : Bool)
  | defaultResponse (e : PyExc)

structure World where
  db : DbWorld
  trace : List Event

namespace World

def log (w : World) (e : Event) : World := { w with trace := w.trace ++ [e] }

def session (env : RequestEnv) (dbAlias : String) (init : Option PyExc) (op : Option SessionOp)
    (w : World) : Except PyExc DbValue × World :=
  if !env.databases.contains dbAlias then
    (.error (runtimeError ("Database '" ++ dbAlias ++
      "' not configured. Call Database.configure() first.")), w)
  else match init with
  | some e => (.error e, w)
  | none =>
    let s := w.db.getDb env.requestId dbAlias
    match op with
    | none => (.ok .none, { db := s.2, trace := w.trace ++ [.db dbAlias none true] })
    | some op =>
      let r := s.2.onContext s.1 op.apply
      (r.1.mapError runtimeError, { db := r.2, trace := w.trace ++ [.db dbAlias (some op) r.1.isOk] })

/-- The `#[pyfunction]` `get_db(request_id, alias)`, both of them required. -/
def getDb (args : List String) (w : World) : Except PyExc Nat × World :=
  match args with
  | [requestId, dbAlias] =>
    let s := w.db.getDb requestId dbAlias
    (.ok s.1, { w with db := s.2 })
  | _ => (.error (typeError "get_db() takes 2 positional arguments"), w)

/-- The meaning of the operations; `out` is the server's answer to the statement that
`finalize` sends for a context. -/
def step (env : RequestEnv) (out : Nat → Except String Unit) :
    (op : Op) → World → Except PyExc op.Res × World
  | .enter id args, w => (.ok (), w.log (.enter id args))
  | .escaped e, w => (.ok (), w.log (.escaped e))
  | .session dbAlias init op, w => w.session env dbAlias init op
  | .next, w => (.error (nameError "name 'next' is not defined"), w)
  | .getDb args, w => w.getDb args
  | .setError id, w =>
    let r := w.db.onContext id fun c => ⟨.ok (), c.setError, []⟩
    (r.1.mapError runtimeError, { w with db := r.2 })
  | .finalizeDb, w =>
    let r := w.db.finalizeAllRequestContexts env.requestId out
    (r.1.mapError runtimeError, { w with db := r.2 })
  | .defaultResponse e, w => (.ok (), w.log (.defaultResponse e))

end World

end Hypern.Application
