import Mathlib.Data.List.AList
import Mathlib.Logic.Function.Basic
import Mathlib.Tactic.Common

/-! Request-scoped database contexts. A `DatabaseContextInner` is behind an `Arc`,
so its identity is an address in `heap`; `contexts` is `REQUEST_CONTEXTS`. What the
pool and the server answer is a parameter of every operation, and the statements
that reach the server are appended to `sent`. -/

namespace Hypern.Database

inductive ContextState
  | idle | connected | inTransaction | committed | rolledBack | closed
  deriving DecidableEq

structure DatabaseContextInner where
  requestId : String
  dbAlias : String
  connection : Option Nat
  state : ContextState
  autoCommit : Bool
  hasError : Bool
  inTransaction : Bool
  deriving DecidableEq

inductive Stmt
  | begin | commit | rollback | sql (text : String)
  deriving DecidableEq

structure Sent where
  conn : Nat
  stmt : Stmt
  ok : Bool
  deriving DecidableEq

/-- The answer of `ConnectionPoolManager::get_pool_by_alias` followed by `pool.get()`. -/
inductive PoolGet
  | notInitialized
  | failed (e : String)
  | acquired (conn : Nat)
  deriving DecidableEq

structure Reply (α : Type) where
  result : Except String α
  ctx : DatabaseContextInner
  sent : List Sent

namespace DatabaseContextInner

variable {α : Type}

def new (requestId dbAlias : String) : DatabaseContextInner :=
  { requestId, dbAlias, connection := none, state := .idle, autoCommit := true,
    hasError := false, inTransaction := false }

def setAutoCommit (c : DatabaseContextInner) (autoCommit : Bool) : DatabaseContextInner :=
  { c with autoCommit }

def setError (c : DatabaseContextInner) : DatabaseContextInner := { c with hasError := true }

def ensureConnection (c : DatabaseContextInner) (pool : PoolGet) :
    Except String Unit × DatabaseContextInner :=
  if c.connection.isSome then (.ok (), c) else
    match pool with
    | .notInitialized =>
      (.error ("Connection pool for alias '" ++ c.dbAlias ++ "' not initialized"), c)
    | .failed e => (.error ("Failed to acquire connection: " ++ e), c)
    | .acquired conn => (.ok (), { c with connection := some conn, state := .connected })

/-- One statement on the held connection: `take_connection`, the round trip with
answer `out`, `put_connection`, and `done` on success. -/
def roundTrip (c : DatabaseContextInner) (stmt : Stmt) (failed : String) (out : Except String α)
    (done : DatabaseContextInner → DatabaseContextInner) : Reply α :=
  match c.connection with
  | none => ⟨.error "No connection available", c, []⟩
  | some conn =>
    match out with
    | .error e => ⟨.error (failed ++ e), c, [⟨conn, stmt, false⟩]⟩
    | .ok a => ⟨.ok a, done c, [⟨conn, stmt, true⟩]⟩

def begin (c : DatabaseContextInner) (pool : PoolGet) (out : Except String Unit) : Reply Unit :=
  match c.ensureConnection pool with
  | (.error e, c) => ⟨.error e, c, []⟩
  | (.ok _, c) =>
    if c.inTransaction then ⟨.error "Transaction already active", c, []⟩ else
      c.roundTrip .begin "Failed to begin transaction: " out
        fun c => { c with inTransaction := true, state := .inTransaction }

def commit (c : DatabaseContextInner) (out : Except String Unit) : Reply Unit :=
  if !c.inTransaction then ⟨.error "No active transaction to commit", c, []⟩ else
    c.roundTrip .commit "Failed to commit transaction: " out
      fun c => { c with inTransaction := false, state := .committed }

def rollback (c : DatabaseContextInner) (out : Except String Unit) : Reply Unit :=
  if !c.inTransaction then ⟨.error "No active transaction to rollback", c, []⟩ else
    c.roundTrip .rollback "Failed to rollback transaction: " out
      fun c => { c with inTransaction := false, state := .rolledBack }

def runSql (c : DatabaseContextInner) (text failed : String) (pool : PoolGet)
    (out : Except String α) : Reply α :=
  match c.ensureConnection pool with
  | (.error e, c) => ⟨.error e, c, []⟩
  | (.ok _, c) => c.roundTrip (.sql text) failed out id

def query (c : DatabaseContextInner) (sql : String) (pool : PoolGet)
    (out : Except String (List String)) : Reply (List String) :=
  c.runSql sql "Query failed: " pool out

def execute (c : DatabaseContextInner) (sql : String) (pool : PoolGet)
    (out : Except String Nat) : Reply Nat :=
  c.runSql sql "Execute failed: " pool out

def executeMany (c : DatabaseContextInner) (sql : String) :
    List (PoolGet × Except String Nat) → Nat → Reply Nat
  | [], total => ⟨.ok total, c, []⟩
  | (pool, out) :: rest, total =>
    let r := c.execute sql pool out
    match r.result with
    | .error e => ⟨.error e, r.ctx, r.sent⟩
    | .ok affected =>
      let r' := r.ctx.executeMany sql rest (total + affected)
      ⟨r'.result, r'.ctx, r.sent ++ r'.sent⟩

/-- The decision `finalize` takes on a transaction that is still open. -/
def endTransaction (c : DatabaseContextInner) (out : Except String Unit) : Reply Unit :=
  if c.inTransaction then
    if c.hasError then c.rollback out
    else if c.autoCommit then c.commit out
    else c.rollback out
  else ⟨.ok (), c, []⟩

/-- `finalize` up to the removal from the global map, which `DbWorld.finalize` adds. -/
def finalize (c : DatabaseContextInner) (out : Except String Unit) : Reply Unit :=
  let r := c.endTransaction out
  match r.result with
  | .error e => ⟨.error e, r.ctx, r.sent⟩
  | .ok _ => ⟨.ok (), { r.ctx with connection := none, state := .closed }, r.sent⟩

end DatabaseContextInner

structure DbWorld where
  contexts : AList (fun _ : String => AList (fun _ : String => Nat))
  heap : Nat → DatabaseContextInner
  fresh : Nat
  sent : List (Nat × Sent)

namespace DbWorld

variable {α : Type}

def empty : DbWorld :=
  { contexts := ∅, heap := fun _ => .new "" "", fresh := 0, sent := [] }

def onContext (w : DbWorld) (id : Nat) (f : DatabaseContextInner → Reply α) :
    Except String α × DbWorld :=
  let r := f (w.heap id)
  (r.result, { w with heap := Function.update w.heap id r.ctx,
                      sent := w.sent ++ r.sent.map (id, ·) })

def getRequestContext (w : DbWorld) (requestId dbAlias : String) : Option Nat :=
  (w.contexts.lookup requestId).bind (·.lookup dbAlias)

def createRequestContext (w : DbWorld) (requestId dbAlias : String) : Nat × DbWorld :=
  let requestContexts := (w.contexts.lookup requestId).getD ∅
  (w.fresh, { w with
    contexts := w.contexts.insert requestId (requestContexts.insert dbAlias w.fresh)
    heap := Function.update w.heap w.fresh (.new requestId dbAlias)
    fresh := w.fresh + 1 })

def getDb (w : DbWorld) (requestId dbAlias : String) : Nat × DbWorld :=
  match w.getRequestContext requestId dbAlias with
  | some id => (id, w)
  | none => w.createRequestContext requestId dbAlias

def removeContext (w : DbWorld) (requestId dbAlias : String) : DbWorld :=
  match w.contexts.lookup requestId with
  | none => w
  | some m =>
    if (m.erase dbAlias).entries.isEmpty then { w with contexts := w.contexts.erase requestId }
    else { w with contexts := w.contexts.insert requestId (m.erase dbAlias) }

def finalize (w : DbWorld) (id : Nat) (out : Except String Unit) : Except String Unit × DbWorld :=
  match w.onContext id (·.finalize out) with
  | (.error e, w) => (.error e, w)
  | (.ok _, w) => (.ok (), w.removeContext (w.heap id).requestId (w.heap id).dbAlias)

def finalizeRequestContext (w : DbWorld) (requestId dbAlias : String) (out : Except String Unit) :
    Except String Unit × DbWorld :=
  match w.getRequestContext requestId dbAlias with
  | some id => w.finalize id out
  | none => (.ok (), w)

/-- The loop of `finalize_all_request_contexts`; `?` leaves it at the first failure. -/
def finalizeEach (out : Nat → Except String Unit) :
    List Nat → DbWorld → Except String Unit × DbWorld
  | [], w => (.ok (), w)
  | id :: ids, w =>
    match w.finalize id (out id) with
    | (.error e, w) => (.error e, w)
    | (.ok _, w) => finalizeEach out ids w

def finalizeAllRequestContexts (w : DbWorld) (requestId : String)
    (out : Nat → Except String Unit) : Except String Unit × DbWorld :=
  match w.contexts.lookup requestId with
  | some m => finalizeEach out (m.entries.map (·.2)) w
  | none => (.ok (), w)

end DbWorld

inductive DbValue
  | none | affected (n : Nat) | rows (rs : List String) | row (r : String)
  deriving DecidableEq

/-- The methods of `DbSession`, each with what the pool and the server answer to it. -/
inductive SessionOp
  | begin (pool : PoolGet) (out : Except String Unit)
  | commit (out : Except String Unit)
  | rollback (out : Except String Unit)
  | query (sql : String) (pool : PoolGet) (out : Except String (List String))
  | queryOne (sql : String) (pool : PoolGet) (out : Except String (List String))
  | execute (sql : String) (pool : PoolGet) (out : Except String Nat)
  | executeMany (sql : String) (outs : List (PoolGet × Except String Nat))
  | setAutoCommit (autoCommit : Bool)
  | setError

namespace SessionOp

def firstRow : Except String (List String) → Except String DbValue
  | .error e => .error e
  | .ok [] => .error "No rows returned"
  | .ok (r :: _) => .ok (.row r)

def apply (op : SessionOp) (c : DatabaseContextInner) : Reply DbValue :=
  match op with
  | .begin pool out => let r := c.begin pool out; ⟨r.result.map fun _ => .none, r.ctx, r.sent⟩
  | .commit out => let r := c.commit out; ⟨r.result.map fun _ => .none, r.ctx, r.sent⟩
  | .rollback out => let r := c.rollback out; ⟨r.result.map fun _ => .none, r.ctx, r.sent⟩
  | .query sql pool out => let r := c.query sql pool out; ⟨r.result.map .rows, r.ctx, r.sent⟩
  | .queryOne sql pool out => let r := c.query sql pool out; ⟨firstRow r.result, r.ctx, r.sent⟩
  | .execute sql pool out => let r := c.execute sql pool out; ⟨r.result.map .affected, r.ctx, r.sent⟩
  | .executeMany sql outs =>
    let r := c.executeMany sql outs 0; ⟨r.result.map .affected, r.ctx, r.sent⟩
  | .setAutoCommit b => ⟨.ok .none, c.setAutoCommit b, []⟩
  | .setError => ⟨.ok .none, c.setError, []⟩

end SessionOp

end Hypern.Database
