import Hypern.Lib.Effect
import Hypern.Database.RequestContext

/-! Python callables as the framework sees them. Everything the wrappers test with
`callable`, `hasattr` or `iscoroutinefunction` is a field, and the body is a program
over the operations that code running inside a request has. -/

namespace Hypern.Python

open Lib Database

/-- An exception with the method resolution order of its class, most derived first. -/
structure PyExc where
  mro : List String
  message : String
  deriving DecidableEq

namespace PyExc

def isInstance (e : PyExc) (cls : String) : Bool := e.mro.contains cls

def isException (e : PyExc) : Bool := e.isInstance "Exception"

end PyExc

def builtinError (cls message : String) : PyExc :=
  ⟨[cls, "Exception", "BaseException", "object"], message⟩

def typeError (message : String) : PyExc := builtinError "TypeError" message

def runtimeError (message : String) : PyExc := builtinError "RuntimeError" message

def nameError (message : String) : PyExc := builtinError "NameError" message

inductive Arg
  | req | res | ctx | next | exc (e : PyExc)
  deriving DecidableEq

/-- What code inside a request can do to its surroundings. `session` is a call of `db(ctx, dbAlias)`
followed by a method of the session it returns; `init` is what `_ensure_initialized` raises.
`next` is awaiting the `next` argument of a middleware. `enter` and `escaped` only record that
a body starts and that an exception leaves a before-handler, a middleware or the handler. -/
inductive Op
  | enter (id : Nat) (args : List Arg)
  | escaped (e : PyExc)
  | session (dbAlias : String) (init : Option PyExc) (op : Option SessionOp)
  | next
  | getDb (args : List String)
  | setError (session : Nat)
  | finalizeDb
  | defaultResponse (e : PyExc)

abbrev Op.Res : Op → Type
  | .session .. => DbValue
  | .getDb _ => Nat
  | _ => Unit

abbrev PyM (α : Type) := Prog Op Op.Res PyExc α

abbrev Code := PyM Unit

def Op.call (op : Op) : PyM op.Res := Prog.call op

inductive RustKind
  | cors | rateLimit | securityHeaders | timeout | compression | requestId | log | basicAuth
  | circuitBreaker | cache
  deriving DecidableEq

structure PyObject where
  id : Nat
  callable : Bool
  isCoroutineFunction : Bool
  /-- Calling it makes a coroutine object, which does nothing until it is awaited. -/
  asyncBody : Bool
  coroutine_async : isCoroutineFunction = true → asyncBody = true
  /-- Which numbers of positional arguments its signature binds. -/
  accepts : Nat → Bool
  /-- `__code__.co_argcount`, for an object that has `__code__`. -/
  argcount : Option Nat
  beforeRequest : Bool
  afterRequest : Bool
  isMiddleware : Bool
  rust : Option RustKind
  body : List Arg → Code

theorem not_coroutine {asyncBody : Bool} : false = true → asyncBody = true := nofun

/-- The object that `async def f(x₁, ..., xₙ)` binds. -/
def asyncDef (id n : Nat) (body : List Arg → Code) : PyObject :=
  { id, callable := true, isCoroutineFunction := true, asyncBody := true,
    coroutine_async := fun _ => rfl, accepts := (· == n), argcount := some n,
    beforeRequest := false, afterRequest := false, isMiddleware := false, rust := none, body }

/-- Inside a plain function `next()` makes a coroutine that is never awaited. -/
def dropNext {α : Type} : PyM α → PyM α
  | .ret a => .ret a
  | .raise e => .raise e
  | .perform .next k => dropNext (k (.ok ()))
  | .perform op k => .perform op fun r => dropNext (k r)

namespace PyObject

/-- `await f(*args)` for a coroutine function and `f(*args)` for anything else. -/
def invoke (f : PyObject) (args : List Arg) : Code :=
  if !f.callable then .raise (typeError "object is not callable")
  else if !f.accepts args.length then .raise (typeError "wrong number of positional arguments")
  else if f.asyncBody && !f.isCoroutineFunction then .ret ()
  else .perform (.enter f.id args) fun _ =>
    if f.asyncBody then f.body args else dropNext (f.body args)

/-- A call with `n` positional arguments runs the body. -/
def enters (f : PyObject) (n : Nat) : Bool :=
  f.callable && f.accepts n && (!f.asyncBody || f.isCoroutineFunction)

end PyObject

/-! ## The middleware chain

`next_middleware` shares one index between all its calls, so a program that contains
`next` becomes one that carries the index along. -/

def elimNext (next : Nat → PyM (Except PyExc Unit × Nat)) :
    Code → Nat → PyM (Except PyExc Unit × Nat)
  | .ret _, i => .ret (.ok (), i)
  | .raise e, i => .ret (.error e, i)
  | .perform .next k, i => (next i).bind fun r => elimNext next (k r.1) r.2
  | .perform op k, i => .perform op fun r => elimNext next (k r) i

/-- An exception that leaves `p` is recorded and raised again. -/
def recorded (p : Code) : Code :=
  p.attempt.bind fun
    | .ok _ => .ret ()
    | .error e => (Op.escaped e).call.bind fun _ => .raise e

/-- `next_middleware` with the shared index `i`; `fuel` bounds the middlewares left. -/
def nextMiddleware (args : List Arg) (mws : List PyObject) (tail : Code) :
    Nat → Nat → PyM (Except PyExc Unit × Nat)
  | 0, i => tail.attempt.bind fun r => .ret (r, i)
  | fuel + 1, i =>
    match mws[i]? with
    | some mw => elimNext (nextMiddleware args mws tail fuel) (recorded (mw.invoke args)) (i + 1)
    | none => tail.attempt.bind fun r => .ret (r, i)

def runChain (args : List Arg) (mws : List PyObject) (tail : Code) : Code :=
  (nextMiddleware args mws tail mws.length 0).bind fun r => Prog.ofExcept r.1

end Hypern.Python
